/-
# GrantAccept — rounds of grants and acceptances

Several allocators work in rounds.  In a round each free output grants one of the requests that free
inputs have made for it, and then each input accepts one of its grants:

    Granting     what is granted was requested, and both sides are free; an output with
                 such a request grants something
    Accepts      an input takes one of its grants, or it has none

A round keeps a matching a matching, and takes no one's partner away (`Improves`).  As long as the
matching is not maximal it matches one more input, so as many rounds as there are inputs, or as
there are outputs, make it maximal.
-/
import BookSim.Allocators.Allocator
import Mathlib.Order.Lattice

namespace BookSim

open Function (update update_apply update_of_ne)

/-! ## Matchings on the way -/

namespace Matching

/-- No request is left of which both sides are free. -/
def Maximal (t : Requests) (m : Matching) : Prop :=
  ∀ a b, (t a b).isSome = true → 0 ≤ m.outputAssigned a ∨ 0 ≤ m.inputAssigned b

def matchedInputs (inputs : ℕ) (m : Matching) : Finset ℤ :=
  {a ∈ below inputs | 0 ≤ m.outputAssigned a}

def matchedOutputs (outputs : ℕ) (m : Matching) : Finset ℤ :=
  {b ∈ below outputs | 0 ≤ m.inputAssigned b}

end Matching

/-- A matching in which those without a partner have the number `-1`. -/
structure PartialMatching (t : Requests) (m : Matching) : Prop extends IsMatching t m where
  output : ∀ a, -1 ≤ m.outputAssigned a
  input : ∀ b, -1 ≤ m.inputAssigned b

namespace PartialMatching

variable {t : Requests} {m : Matching} {a b : ℤ} {inputs outputs : ℕ}

theorem empty (t : Requests) : PartialMatching t {} where
  toIsMatching := Matching.isMatching_empty t
  output _ := le_rfl
  input _ := le_rfl

theorem assign (h : PartialMatching t m) (hreq : (t a b).isSome = true) (ha₀ : 0 ≤ a) (hb₀ : 0 ≤ b)
    (ha : m.outputAssigned a = -1) (hb : m.inputAssigned b = -1) :
    PartialMatching t (m.assign a b) where
  toIsMatching := h.toIsMatching.assign hreq (by omega) (by omega)
  output a' := by
    show -1 ≤ update m.outputAssigned a b a'
    rw [update_apply]
    split
    · omega
    · exact h.output a'
  input b' := by
    show -1 ≤ update m.inputAssigned b a b'
    rw [update_apply]
    split
    · omega
    · exact h.input b'

theorem output_eq (h : PartialMatching t m) (ha : ¬ 0 ≤ m.outputAssigned a) :
    m.outputAssigned a = -1 := by
  have := h.output a
  omega

theorem input_eq (h : PartialMatching t m) (hb : ¬ 0 ≤ m.inputAssigned b) :
    m.inputAssigned b = -1 := by
  have := h.input b
  omega

theorem input_of_matched (h : PartialMatching t m) (ha₀ : 0 ≤ a) (ha : 0 ≤ m.outputAssigned a) :
    m.inputAssigned (m.outputAssigned a) = a :=
  (h.inverse a _ ha₀ ha).mp rfl

theorem output_of_matched (h : PartialMatching t m) (hb₀ : 0 ≤ b) (hb : 0 ≤ m.inputAssigned b) :
    m.outputAssigned (m.inputAssigned b) = b :=
  (h.inverse _ b hb hb₀).mpr rfl

theorem card_matched (h : PartialMatching t m) (ht : t.Within inputs outputs) :
    (m.matchedInputs inputs).card = (m.matchedOutputs outputs).card := by
  refine Finset.card_nbij' m.outputAssigned m.inputAssigned ?_ ?_ ?_ ?_
  · intro a ha
    obtain ⟨hmem, ha⟩ := Finset.mem_filter.mp ha
    refine Finset.mem_filter.mpr ⟨(ht _ _ (h.requested a _ ha rfl)).2, ?_⟩
    rw [h.input_of_matched (mem_below.mp hmem).1 ha]
    exact (mem_below.mp hmem).1
  · intro b hb
    obtain ⟨hmem, hb⟩ := Finset.mem_filter.mp hb
    have hout := h.output_of_matched (mem_below.mp hmem).1 hb
    refine Finset.mem_filter.mpr ⟨(ht _ _ (h.requested _ b (mem_below.mp hmem).1 hout)).1, ?_⟩
    rw [hout]
    exact (mem_below.mp hmem).1
  · intro a ha
    obtain ⟨hmem, ha⟩ := Finset.mem_filter.mp ha
    exact h.input_of_matched (mem_below.mp hmem).1 ha
  · intro b hb
    obtain ⟨hmem, hb⟩ := Finset.mem_filter.mp hb
    exact h.output_of_matched (mem_below.mp hmem).1 hb

theorem maximal_of_card (h : PartialMatching t m) (ht : t.Within inputs outputs)
    (hcard : min inputs outputs ≤ (m.matchedInputs inputs).card) : m.Maximal t := by
  intro a b hab
  obtain ⟨ha, hb⟩ := ht a b hab
  rcases min_le_iff.mp hcard with hle | hle
  · have hall := Finset.eq_of_subset_of_card_le (Finset.filter_subset _ _)
      ((card_below inputs).le.trans hle)
    exact .inl (Finset.mem_filter.mp (hall.symm.subset ha)).2
  · rw [h.card_matched ht] at hle
    have hall := Finset.eq_of_subset_of_card_le (Finset.filter_subset _ _)
      ((card_below outputs).le.trans hle)
    exact .inr (Finset.mem_filter.mp (hall.symm.subset hb)).2

end PartialMatching

/-! ## Rounds -/

/-- What a round makes of a matching. -/
structure Improves (t : Requests) (m m' : Matching) : Prop where
  matching : PartialMatching t m'
  output : ∀ a, 0 ≤ m.outputAssigned a → 0 ≤ m'.outputAssigned a
  input : ∀ b, 0 ≤ m.inputAssigned b → 0 ≤ m'.inputAssigned b
  progress : ¬ m.Maximal t →
    ∃ a b, (t a b).isSome = true ∧ m.outputAssigned a = -1 ∧ 0 ≤ m'.outputAssigned a

/-- After `k` rounds. -/
structure Converging (t : Requests) (inputs k : ℕ) (m : Matching) : Prop where
  matching : PartialMatching t m
  reached : m.Maximal t ∨ k ≤ (m.matchedInputs inputs).card

namespace Converging

variable {t : Requests} {m m' : Matching} {inputs outputs k : ℕ}

theorem start (h : PartialMatching t m) : Converging t inputs 0 m := ⟨h, .inr (Nat.zero_le _)⟩

theorem next (h : Converging t inputs k m) (ht : t.Within inputs outputs)
    (himproves : Improves t m m') : Converging t inputs (k + 1) m' := by
  refine ⟨himproves.matching, ?_⟩
  by_cases hmax : m.Maximal t
  · exact .inl fun a b hab => (hmax a b hab).imp (himproves.output a) (himproves.input b)
  · obtain ⟨a, b, hab, hfree, hmatched⟩ := himproves.progress hmax
    have hsub : m.matchedInputs inputs ⊂ m'.matchedInputs inputs := by
      refine Finset.ssubset_iff_of_subset (fun c hc => ?_) |>.mpr ⟨a, ?_, fun ha => ?_⟩
      · obtain ⟨hmem, hc⟩ := Finset.mem_filter.mp hc
        exact Finset.mem_filter.mpr ⟨hmem, himproves.output c hc⟩
      · exact Finset.mem_filter.mpr ⟨(ht a b hab).1, hmatched⟩
      · have := (Finset.mem_filter.mp ha).2
        omega
    have hk := h.reached.resolve_left hmax
    exact .inr (hk.trans_lt (Finset.card_lt_card hsub))

theorem maximal (h : Converging t inputs k m) (ht : t.Within inputs outputs)
    (hk : min inputs outputs ≤ k) : m.Maximal t :=
  h.reached.elim id fun hcard => h.matching.maximal_of_card ht (hk.trans hcard)

end Converging

/-! ## Grants and acceptances -/

/-- What the outputs grant to free inputs; `-1` stands for nothing. -/
structure Granting (t : Requests) (m : Matching) (grants : ℤ → ℤ) : Prop where
  nonneg : ∀ b, -1 ≤ grants b
  free : ∀ b, 0 ≤ grants b →
    (t (grants b) b).isSome = true ∧ m.outputAssigned (grants b) = -1 ∧ m.inputAssigned b = -1
  grants_some : ∀ a b, (t a b).isSome = true → m.outputAssigned a = -1 → m.inputAssigned b = -1 →
    0 ≤ grants b

/-- What one output grants: a request of a free input, or nothing because there is none. -/
def Grants (t : Requests) (m : Matching) (b grant : ℤ) : Prop :=
  (grant = -1 ∧ ∀ a, (t a b).isSome = true → m.inputAssigned b = -1 → m.outputAssigned a ≠ -1) ∨
    (t grant b).isSome = true ∧ m.outputAssigned grant = -1 ∧ m.inputAssigned b = -1

theorem Granting.of_grants {t : Requests} {m : Matching} {grants : ℤ → ℤ} {inputs outputs : ℕ}
    (ht : t.Within inputs outputs) (h : ∀ b, Grants t m b (grants b)) : Granting t m grants := by
  refine ⟨fun b => ?_, fun b hb => ?_, fun a b hreq hfree hfree' => ?_⟩
  · rcases h b with ⟨hnone, -⟩ | ⟨hreq, -⟩
    · exact hnone.ge
    · have := (mem_below.mp (ht _ b hreq).1).1
      omega
  · rcases h b with ⟨hnone, -⟩ | hsome
    · omega
    · exact hsome
  · rcases h b with ⟨-, hnone⟩ | ⟨hreq, -⟩
    · exact absurd hfree (hnone a hreq hfree')
    · exact (mem_below.mp (ht _ b hreq).1).1

/-- The turn of input `a`. -/
inductive Accepts (t : Requests) (grants : ℤ → ℤ) (a : ℤ) (m : Matching) : Matching → Prop
  | skip : (∀ b, (t a b).isSome = true → grants b ≠ a) → Accepts t grants a m m
  | take {b : ℤ} : (t a b).isSome = true → grants b = a → Accepts t grants a m (m.assign a b)

/-- The matching when the inputs in `done` have had their turn; `m₀` is the one before. -/
structure Accepting (t : Requests) (grants : ℤ → ℤ) (m₀ : Matching) (done : List ℤ) (m : Matching) :
    Prop where
  matching : PartialMatching t m
  output : ∀ a, a ∉ done → m.outputAssigned a = m₀.outputAssigned a
  input : ∀ b, grants b ∉ done → m.inputAssigned b = m₀.inputAssigned b
  output_kept : ∀ a, 0 ≤ m₀.outputAssigned a → 0 ≤ m.outputAssigned a
  input_kept : ∀ b, 0 ≤ m₀.inputAssigned b → 0 ≤ m.inputAssigned b
  taken : ∀ a ∈ done, ∀ b, (t a b).isSome = true → grants b = a → 0 ≤ m.outputAssigned a

namespace Accepting

variable {t : Requests} {grants : ℤ → ℤ} {m₀ m m' : Matching} {done : List ℤ} {a : ℤ}
  {inputs outputs : ℕ}

theorem start (h : PartialMatching t m₀) : Accepting t grants m₀ [] m₀ :=
  ⟨h, fun _ _ => rfl, fun _ _ => rfl, fun _ => id, fun _ => id, nofun⟩

theorem step (h : Accepting t grants m₀ done m) (ht : t.Within inputs outputs)
    (hgrants : Granting t m₀ grants) (ha : a ∉ done) (hturn : Accepts t grants a m m') :
    Accepting t grants m₀ (done ++ [a]) m' := by
  have hmem : ∀ {c : ℤ}, c ∈ done ++ [a] ↔ c ∈ done ∨ c = a :=
    List.mem_append.trans (or_congr_right List.mem_singleton)
  cases hturn with
  | skip hnone =>
    refine ⟨h.matching, fun a' ha' => h.output a' fun hdone => ha' (hmem.mpr (.inl hdone)),
      fun b hb => h.input b fun hdone => hb (hmem.mpr (.inl hdone)), h.output_kept,
      h.input_kept, fun a' ha' b hb hab => ?_⟩
    rcases hmem.mp ha' with ha' | rfl
    · exact h.taken a' ha' b hb hab
    · exact absurd hab (hnone b hb)
  | @take b hreq hgrant =>
    have ha₀ : 0 ≤ a := (mem_below.mp (ht a b hreq).1).1
    have hb₀ : 0 ≤ b := (mem_below.mp (ht a b hreq).2).1
    -- neither side has been given away in this round
    obtain ⟨-, hfree, hfree'⟩ := hgrants.free b (hgrant.symm ▸ ha₀)
    rw [hgrant, ← h.output a ha] at hfree
    rw [← h.input b (hgrant.symm ▸ ha)] at hfree'
    refine ⟨h.matching.assign hreq ha₀ hb₀ hfree hfree', fun a' ha' => ?_, fun b' hb' => ?_,
      fun a' ha' => ?_, fun b' hb' => ?_, fun a' ha' b' hab hgrant' => ?_⟩
    · obtain ⟨ha', hne⟩ := not_or.mp (hmem.not.mp ha')
      exact (update_of_ne hne ..).trans (h.output a' ha')
    · obtain ⟨hb', hne⟩ := not_or.mp (hmem.not.mp hb')
      have hbb : b' ≠ b := fun heq => hne (heq ▸ hgrant)
      exact (update_of_ne hbb ..).trans (h.input b' hb')
    · show 0 ≤ update m.outputAssigned a b a'
      rw [update_apply]
      split
      · exact hb₀
      · exact h.output_kept a' ha'
    · show 0 ≤ update m.inputAssigned b a b'
      rw [update_apply]
      split
      · exact ha₀
      · exact h.input_kept b' hb'
    · show 0 ≤ update m.outputAssigned a b a'
      rw [update_apply]
      split
      · exact hb₀
      · next hne => exact h.taken a' ((hmem.mp ha').resolve_right hne) b' hab hgrant'

theorem improves (h : Accepting t grants m₀ done m) (hgrants : Granting t m₀ grants)
    (hfull : PartialMatching t m₀) (hdone : ∀ a b, (t a b).isSome = true → a ∈ done) :
    Improves t m₀ m := by
  refine ⟨h.matching, h.output_kept, h.input_kept, fun hmax => ?_⟩
  unfold Matching.Maximal at hmax
  push Not at hmax
  obtain ⟨a, b, hab, ha, hb⟩ := hmax
  have hgrant := hgrants.grants_some a b hab (hfull.output_eq (not_le.mpr ha))
    (hfull.input_eq (not_le.mpr hb))
  obtain ⟨hreq, hfree, -⟩ := hgrants.free b hgrant
  exact ⟨grants b, b, hreq, hfree, h.taken (grants b) (hdone _ b hreq) b hreq rfl⟩

end Accepting

/-- A whole round: the inputs in `l`, among which all that have requests are, have their turns. -/
theorem improves_of_foldl {t : Requests} {grants : ℤ → ℤ} {inputs outputs : ℕ} {σ : Type}
    (matching : σ → Matching) {f : σ → ℤ → σ} {s : σ} {l : List ℤ} (ht : t.Within inputs outputs)
    (hs : PartialMatching t (matching s)) (hgrants : Granting t (matching s) grants)
    (hnodup : l.Nodup) (hall : ∀ a b, (t a b).isSome = true → a ∈ l)
    (hturn : ∀ s, ∀ a ∈ l, Accepts t grants a (matching s) (matching (f s a))) :
    Improves t (matching s) (matching (l.foldl f s)) := by
  have hdone : Accepting t grants (matching s) l (matching (l.foldl f s)) :=
    foldl_seen_inv (I := fun done s' => Accepting t grants (matching s) done (matching s'))
      (.start hs) fun done a rest s' hl h =>
        h.step ht hgrants (not_mem_of_nodup_append hnodup hl) (hturn s' a (by simp [hl]))
  exact hdone.improves hgrants hs hall

end BookSim
