/-
# MaxSize — a matching of the largest size

`MaxSizeMatch` starts with no partners and augments the matching as long as there is a path for it.
The search goes out from all free inputs, layer by layer, and notes for each output which input it
was reached from; it ends at a free output.  The path is then gone back, and each input on it gives
its partner up for the output it was reached from.

    Leads       the way back from an input, through `cameFrom`, to a free one
    Searched    what is true before each layer of the search
    Closed      what is true when the search fails

When it fails, the outputs that were reached and the inputs that were not are as many as the matched
inputs, and every request has one of them: no matching can be larger.
-/
import BookSim.Allocators.GrantAccept

namespace BookSim

open List
open Function (update update_apply update_idem update_of_ne update_self)

/-! ## The allocator -/

/-- What `_ShortestAugmenting` keeps: `_from`, the stacks `_s` and `_ns`, and the output at which an
augmenting path was found.  `_from` gets a place for every INPUT; what is read behind its end is
taken to be -1 too. -/
structure PathSearch where
  cameFrom : ℤ → ℤ := fun _ => -1
  stack : List ℤ
  next : List ℤ := []
  found : Option ℤ := none

structure MaxSizeMatch extends DenseAllocator where
  prio : ℕ := 0

namespace MaxSizeMatch

/-- The unmatched inputs, from `_prio` on. -/
def unmatched (a : MaxSizeMatch) (m : Matching) : List ℤ :=
  (rotation a.prio a.inputs).filter (m.outputAssigned · = -1)

/-- One edge from an input on the stack; nothing is done any more when a path is found. -/
def visit (a : MaxSizeMatch) (m : Matching) (s : PathSearch) (e : ℤ × ℤ) : PathSearch :=
  if s.found.isSome then s
  else if (a.request e.1 e.2).isSome ∧ m.outputAssigned e.1 ≠ e.2 ∧ s.cameFrom e.2 = -1 then
    if m.inputAssigned e.2 = -1 then
      { s with cameFrom := update s.cameFrom e.2 e.1, found := some e.2 }
    else
      { s with
        cameFrom := update s.cameFrom e.2 e.1
        next := s.next ++ [m.inputAssigned e.2] }
  else s

/-- The edges that are looked at in a layer. -/
def edges (a : MaxSizeMatch) (stack : List ℤ) : List (ℤ × ℤ) :=
  stack.flatMap fun i => (indices a.outputs).map fun j => (i, j)

def layer (a : MaxSizeMatch) (m : Matching) (s : PathSearch) : PathSearch :=
  if s.found.isSome then s
  else
    let s' := (a.edges s.stack).foldl (a.visit m) { s with next := [] }
    { s' with stack := s'.next }

def search (a : MaxSizeMatch) (m : Matching) : PathSearch :=
  (List.range a.inputs).foldl (fun s _ => a.layer m s) { stack := a.unmatched m }

/-- The loop back along the path: `j` is already given to `i`. -/
def flip (cameFrom : ℤ → ℤ) : ℕ → Matching → ℤ → ℤ → Option Matching
  | 0, _, _, _ => none
  | fuel + 1, m, i, j =>
    if m.outputAssigned i = -1 then
      some { m with outputAssigned := update m.outputAssigned i j }
    else
      let jn := m.outputAssigned i
      flip cameFrom fuel {
        outputAssigned := update m.outputAssigned i j
        inputAssigned := update m.inputAssigned jn (cameFrom jn) } (cameFrom jn) jn

def shortestAugmenting (a : MaxSizeMatch) (fuel : ℕ) (m : Matching) : Option (Bool × Matching) :=
  let s := a.search m
  match s.found with
  | none => some (false, m)
  | some j =>
    let i := s.cameFrom j
    (flip s.cameFrom fuel { m with inputAssigned := update m.inputAssigned j i } i j).map (true, ·)

/-- The loop of `Allocate`. -/
def augment (a : MaxSizeMatch) (fuel : ℕ) : ℕ → Matching → Option Matching
  | 0, _ => none
  | n + 1, m =>
    match a.shortestAugmenting fuel m with
    | none => none
    | some (false, m') => some m'
    | some (true, m') => augment a fuel n m'

/-- The two unbounded loops have `fuel` turns each. -/
def allocate (a : MaxSizeMatch) (fuel : ℕ) : Option MaxSizeMatch :=
  (a.augment fuel fuel a.matching).map fun m =>
    { a with matching := m, prio := (a.prio + 1) % a.inputs }

end MaxSizeMatch

/-! ## The way back -/

/-- From `i` it is `n` steps back to a free input. -/
inductive Leads (m : Matching) (cameFrom : ℤ → ℤ) : ℕ → ℤ → Prop
  | free {i : ℤ} : m.outputAssigned i = -1 → Leads m cameFrom 0 i
  | back {n : ℕ} {i : ℤ} : 0 ≤ m.outputAssigned i → cameFrom (m.outputAssigned i) ≠ -1 →
      Leads m cameFrom n (cameFrom (m.outputAssigned i)) → Leads m cameFrom (n + 1) i

namespace Leads

variable {m : Matching} {cameFrom : ℤ → ℤ} {n n' : ℕ} {i i' j : ℤ}

theorem mono (h : Leads m cameFrom n i) (hfresh : cameFrom j = -1) :
    Leads m (update cameFrom j i') n i := by
  induction h with
  | free hfree => exact .free hfree
  | @back n i hpos hfrom _ ih =>
    have hsame : update cameFrom j i' (m.outputAssigned i) = cameFrom (m.outputAssigned i) :=
      update_of_ne (fun heq => hfrom (by rw [heq]; exact hfresh)) ..
    refine .back hpos ?_ ?_
    · rwa [hsame]
    · rwa [hsame]

theorem unique (h : Leads m cameFrom n i) : ∀ {n' : ℕ}, Leads m cameFrom n' i → n = n' := by
  induction h with
  | free hfree =>
    intro n' h'
    cases h' with
    | free => rfl
    | back hpos => omega
  | back hpos _ _ ih =>
    intro n' h'
    cases h' with
    | free hfree => omega
    | back _ _ hrest => exact congrArg (· + 1) (ih hrest)

theorem update_output (h : Leads m cameFrom n i) (hfar : Leads m cameFrom n' i') (hlt : n < n')
    (j : ℤ) (f : ℤ → ℤ) : Leads ⟨update m.outputAssigned i' j, f⟩ cameFrom n i := by
  induction h with
  | @free i hfree =>
    have hne : i ≠ i' := by
      rintro rfl
      exact absurd (hfar.unique (.free hfree)) (by omega)
    exact .free ((update_of_ne hne ..).trans hfree)
  | @back n i hpos hfrom hrest ih =>
    have hne : i ≠ i' := by
      rintro rfl
      exact absurd (hfar.unique (.back hpos hfrom hrest)) (by omega)
    have hsame : update m.outputAssigned i' j i = m.outputAssigned i :=
      update_of_ne hne ..
    refine .back ?_ ?_ ?_
    · show 0 ≤ update m.outputAssigned i' j i
      rwa [hsame]
    · show cameFrom (update m.outputAssigned i' j i) ≠ -1
      rwa [hsame]
    · show Leads _ cameFrom n (cameFrom (update m.outputAssigned i' j i))
      rw [hsame]
      exact ih (by omega)

end Leads

section Flip

variable {t : Requests} {m : Matching} {cameFrom : ℤ → ℤ} {i j : ℤ} {inputs outputs : ℕ}

theorem PartialMatching.swap (h : PartialMatching t m) (hreq : (t i j).isSome = true) (hi : 0 ≤ i)
    (hj : 0 ≤ j) (hpos : 0 ≤ m.outputAssigned i) (hfree : m.inputAssigned j = -1) :
    PartialMatching t ⟨update m.outputAssigned i j,
      update (update m.inputAssigned (m.outputAssigned i) (-1)) j i⟩ := by
  have hpartner := h.input_of_matched hi hpos
  have hpart : PartialMatching t ⟨update m.outputAssigned i (-1),
      update m.inputAssigned (m.outputAssigned i) (-1)⟩ := by
    refine ⟨⟨fun a b hb hab => ?_, h.inverse.part hi hpos rfl⟩, fun a => ?_, fun b => ?_⟩
    · dsimp only at hab
      rw [update_apply] at hab
      split at hab
      · omega
      · exact h.requested a b hb hab
    · show -1 ≤ update m.outputAssigned i (-1) a
      rw [update_apply]
      split
      · exact le_rfl
      · exact h.output a
    · show -1 ≤ update m.inputAssigned (m.outputAssigned i) (-1) b
      rw [update_apply]
      split
      · exact le_rfl
      · exact h.input b
  have hne : j ≠ m.outputAssigned i := by
    rintro rfl
    omega
  have hassign := hpart.assign hreq hi hj (update_self ..) ((update_of_ne hne ..).trans hfree)
  unfold Matching.assign at hassign
  rwa [update_idem] at hassign

theorem flip_spec (ht : t.Within inputs outputs)
    (hedge : ∀ j, cameFrom j ≠ -1 → (t (cameFrom j) j).isSome = true) :
    ∀ {n fuel : ℕ} {m : Matching} {i j : ℤ}, n < fuel → Leads m cameFrom n i →
      PartialMatching t m → m.inputAssigned j = -1 → (t i j).isSome = true →
      ∃ m', MaxSizeMatch.flip cameFrom fuel
          { m with inputAssigned := update m.inputAssigned j i } i j = some m' ∧
        PartialMatching t m' ∧
        (m'.matchedInputs inputs).card = (m.matchedInputs inputs).card + 1 := by
  intro n
  induction n with
  | zero =>
    intro fuel m i j hfuel hleads hm hfree hreq
    obtain ⟨fuel, rfl⟩ := Nat.exists_eq_add_of_lt hfuel
    obtain ⟨hi, hj⟩ := ht i j hreq
    cases hleads with
    | free hfree' =>
      refine ⟨m.assign i j, if_pos hfree', hm.assign hreq (mem_below.mp hi).1
        (mem_below.mp hj).1 hfree' hfree, ?_⟩
      have hinsert : (m.assign i j).matchedInputs inputs = insert i (m.matchedInputs inputs) := by
        ext a
        show a ∈ Finset.filter _ _ ↔ _
        rw [Finset.mem_filter, Finset.mem_insert, Matching.matchedInputs, Finset.mem_filter]
        show _ ∧ 0 ≤ update m.outputAssigned i j a ↔ _
        rw [update_apply]
        split
        · next heq =>
            subst heq
            exact iff_of_true ⟨hi, (mem_below.mp hj).1⟩ (.inl rfl)
        · next hne => exact (or_iff_right hne).symm
      rw [hinsert, Finset.card_insert_of_notMem]
      intro hmem
      have := (Finset.mem_filter.mp hmem).2
      omega
  | succ n ih =>
    intro fuel m i j hfuel hleads hm hfree hreq
    obtain ⟨fuel, rfl⟩ : ∃ f, fuel = f + 1 := ⟨fuel - 1, by omega⟩
    obtain ⟨hi, hj⟩ := ht i j hreq
    rw [mem_below] at hi hj
    cases id hleads with
    | back hpos hfrom hrest =>
      have hpartner := hm.input_of_matched hi.1 hpos
      have hne : m.outputAssigned i ≠ j := by
        rintro rfl
        omega
      have hcells : update (update m.inputAssigned (m.outputAssigned i) (-1)) j i =
          update (update m.inputAssigned j i) (m.outputAssigned i) (-1) :=
        Function.update_comm hne _ _ _
      have hswap := hm.swap hreq hi.1 hj.1 hpos hfree
      obtain ⟨m', hm', hlarger, hcard⟩ := ih (by omega : n < fuel)
        (hrest.update_output hleads (Nat.lt_succ_self n) j _) hswap
        ((update_of_ne hne ..).trans (update_self ..)) (hedge _ hfrom)
      refine ⟨m', ?_, hlarger, hcard.trans (congrArg (fun s : Finset ℤ => s.card + 1) ?_)⟩
      · rw [← hm']
        refine (if_neg fun hnone => ?_).trans (congrArg (MaxSizeMatch.flip cameFrom fuel · _ _) ?_)
        · change m.outputAssigned i = -1 at hnone
          omega
        · show (⟨_, update (update m.inputAssigned j i) _ _⟩ : Matching) = ⟨_, _⟩
          dsimp only
          rw [hcells, update_idem]
      · refine Finset.filter_congr fun a _ => ?_
        show 0 ≤ update m.outputAssigned i j a ↔ _
        rw [update_apply]
        split
        · next heq =>
            subst heq
            exact iff_of_true hj.1 hpos
        · exact Iff.rfl

end Flip

/-! ## The search -/

namespace MaxSizeMatch

/-- Input `i` is free, or its partner was reached. -/
def Reached (m : Matching) (cameFrom : ℤ → ℤ) (i : ℤ) : Prop :=
  m.outputAssigned i = -1 ∨ 0 ≤ m.outputAssigned i ∧ cameFrom (m.outputAssigned i) ≠ -1

instance (m : Matching) (cameFrom : ℤ → ℤ) (i : ℤ) : Decidable (Reached m cameFrom i) :=
  inferInstanceAs (Decidable (_ ∨ _ ∧ _))

def reachedOutputs (a : MaxSizeMatch) (cameFrom : ℤ → ℤ) : Finset ℤ :=
  {j ∈ below a.outputs | cameFrom j ≠ -1}

/-- As long as no path is found. -/
structure Exploring (a : MaxSizeMatch) (m : Matching) (s : PathSearch) : Prop where
  none : s.found = none
  edge : ∀ j, s.cameFrom j ≠ -1 → (a.request (s.cameFrom j) j).isSome = true
  matched : ∀ j, s.cameFrom j ≠ -1 → 0 ≤ m.inputAssigned j

/-- Before layer `k`. -/
structure Searched (a : MaxSizeMatch) (m : Matching) (k : ℕ) (s : PathSearch) : Prop extends
    Exploring a m s where
  leads : ∀ i ∈ s.stack, Leads m s.cameFrom k i
  done : ∀ i, Reached m s.cameFrom i → i ∈ s.stack ∨
    ∀ j, (a.request i j).isSome = true → s.cameFrom j ≠ -1
  count : s.stack = [] ∨ k ≤ (a.reachedOutputs s.cameFrom).card

/-- In layer `k`, which began with `s₀`, when the edges in `seen` have been visited. -/
structure Visiting (a : MaxSizeMatch) (m : Matching) (k : ℕ) (s₀ : PathSearch) (seen : List (ℤ × ℤ))
    (s : PathSearch) : Prop extends Exploring a m s where
  leads : ∀ i ∈ s₀.stack, Leads m s.cameFrom k i
  next : ∀ i ∈ s.next, Leads m s.cameFrom (k + 1) i
  visited : ∀ e ∈ seen, (a.request e.1 e.2).isSome = true → s.cameFrom e.2 ≠ -1
  done : ∀ i, Reached m s.cameFrom i → i ∈ s₀.stack ∨ i ∈ s.next ∨
    ∀ j, (a.request i j).isSome = true → s.cameFrom j ≠ -1
  count : (a.reachedOutputs s₀.cameFrom).card + s.next.length ≤ (a.reachedOutputs s.cameFrom).card

/-- A path is found: from a free output it is `k` steps back to a free input. -/
def Found (a : MaxSizeMatch) (m : Matching) (s : PathSearch) : Prop :=
  ∃ j k, s.found = some j ∧ k < a.inputs ∧ Leads m s.cameFrom k (s.cameFrom j) ∧
    m.inputAssigned j = -1 ∧
    (∀ j, s.cameFrom j ≠ -1 → (a.request (s.cameFrom j) j).isSome = true) ∧
    (a.request (s.cameFrom j) j).isSome = true

section PathSearch

variable {a : MaxSizeMatch} {m : Matching} {k : ℕ} {s s₀ : PathSearch} {seen : List (ℤ × ℤ)}
  {i j : ℤ}

theorem visit_cases (a : MaxSizeMatch) (m : Matching) (hnone : s.found = none) (i j : ℤ) :
    (a.visit m s (i, j) = s ∧
        ((a.request i j).isSome = true → m.outputAssigned i ≠ j → s.cameFrom j ≠ -1)) ∨
      (a.request i j).isSome = true ∧ s.cameFrom j = -1 ∧
        (m.inputAssigned j = -1 ∧ a.visit m s (i, j) =
            { s with cameFrom := update s.cameFrom j i, found := some j } ∨
          m.inputAssigned j ≠ -1 ∧ a.visit m s (i, j) =
            { s with cameFrom := update s.cameFrom j i, next := s.next ++
              [m.inputAssigned j] }) := by
  unfold visit
  rw [if_neg (by simp [hnone])]
  split
  · grind
  · next hold => exact .inl ⟨rfl, fun hreq hne hfresh => hold ⟨hreq, hne, hfresh⟩⟩

theorem Exploring.edge_update (h : a.Exploring m s) (hreq : (a.request i j).isSome = true) :
    ∀ j', update s.cameFrom j i j' ≠ -1 →
      (a.request (update s.cameFrom j i j') j').isSome = true := by
  intro j' hj'
  rw [update_apply] at hj' ⊢
  split at hj'
  · next heq => rwa [if_pos heq, heq]
  · next hne =>
      rw [if_neg hne]
      exact h.edge j' hj'

theorem ne_of_update_ne {cameFrom : ℤ → ℤ} (hi : i ≠ -1) {j' : ℤ} (hj' : cameFrom j' ≠ -1) :
    update cameFrom j i j' ≠ -1 := by
  rw [update_apply]
  split
  · exact hi
  · exact hj'

theorem card_reachedOutputs_update {cameFrom : ℤ → ℤ} (hi : i ≠ -1) (hj : j ∈ below a.outputs)
    (hfresh : cameFrom j = -1) : (a.reachedOutputs (update cameFrom j i)).card =
      (a.reachedOutputs cameFrom).card + 1 := by
  have hinsert : a.reachedOutputs (update cameFrom j i) = insert j (a.reachedOutputs cameFrom) := by
    ext j'
    simp only [reachedOutputs, Finset.mem_filter, Finset.mem_insert, update_apply]
    by_cases heq : j' = j
    · simp [heq, hi, hj]
    · simp [heq]
  rw [hinsert, Finset.card_insert_of_notMem]
  exact fun hmem => (Finset.mem_filter.mp hmem).2 hfresh

theorem Visiting.push (h : a.Visiting m k s₀ seen s) (ha : a.Sound)
    (hm : PartialMatching a.request m) (hi : i ∈ s₀.stack) (hreq : (a.request i j).isSome = true)
    (hfresh : s.cameFrom j = -1) (hmatched : m.inputAssigned j ≠ -1) :
    a.Visiting m k s₀ (seen ++ [(i, j)])
      { s with cameFrom := update s.cameFrom j i, next := s.next ++ [m.inputAssigned j] } := by
  have hbounds := ha.within i j hreq
  have hj := (mem_below.mp hbounds.2).1
  have hi₀ : i ≠ -1 := by
    have := (mem_below.mp hbounds.1).1
    omega
  have hpos : 0 ≤ m.inputAssigned j :=
    not_lt.mp fun hlt => hmatched (hm.input_eq (not_le.mpr hlt))
  have hpartner := hm.output_of_matched hj hpos
  have hself : update s.cameFrom j i j = i := update_self ..
  have hleads : ∀ i' ∈ s₀.stack, Leads m (update s.cameFrom j i) k i' :=
    fun i' hi' => (h.leads i' hi').mono hfresh
  have hnext : Leads m (update s.cameFrom j i) (k + 1) (m.inputAssigned j) := by
    refine .back ?_ ?_ ?_
    · rwa [hpartner]
    · rwa [hpartner, hself]
    · rw [hpartner, hself]
      exact hleads i hi
  have hmatched' : ∀ j', update s.cameFrom j i j' ≠ -1 → 0 ≤ m.inputAssigned j' := by
    intro j' hj'
    rw [update_apply] at hj'
    split at hj'
    · next heq => rwa [heq]
    · exact h.matched j' hj'
  refine ⟨⟨h.none, h.edge_update hreq, hmatched'⟩, hleads, fun i' hi' => ?_, fun e he hreq' => ?_,
    fun i' hreached => ?_, ?_⟩
  · rcases mem_append.mp hi' with hi' | hi'
    · exact (h.next i' hi').mono hfresh
    · rwa [mem_singleton.mp hi']
  · rcases mem_append.mp he with he | he
    · exact ne_of_update_ne hi₀ (h.visited e he hreq')
    · rw [mem_singleton.mp he]
      exact hself.trans_ne hi₀
  · change Reached m (update s.cameFrom j i) i' at hreached
    -- only the partner of `j` is new
    by_cases hnew : m.outputAssigned i' = j
    · refine .inr (.inl (mem_append_right _ (mem_singleton.mpr ?_)))
      have hi' := (mem_below.mp (ha.within i' j (hm.requested i' j hj hnew)).1).1
      exact ((hm.inverse i' j hi' hj).mp hnew).symm
    · have hold : Reached m s.cameFrom i' := by
        refine hreached.imp_right fun ⟨hout, hfrom⟩ => ⟨hout, ?_⟩
        rwa [update_of_ne hnew] at hfrom
      rcases h.done i' hold with hstack | hnext' | hall
      · exact .inl hstack
      · exact .inr (.inl (mem_append_left _ hnext'))
      · exact .inr (.inr fun j' hreq' => ne_of_update_ne hi₀ (hall j' hreq'))
  · have hcount := h.count
    show _ + (s.next ++ [m.inputAssigned j]).length ≤ _
    rw [card_reachedOutputs_update hi₀ hbounds.2 hfresh, length_append, length_singleton]
    omega

theorem Visiting.visit (h : a.Visiting m k s₀ seen s) (hk : k < a.inputs) (ha : a.Sound)
    (hm : PartialMatching a.request m) (hi : i ∈ s₀.stack) :
    a.Visiting m k s₀ (seen ++ [(i, j)]) (a.visit m s (i, j)) ∨ a.Found m (a.visit m s (i, j)) := by
  rcases visit_cases a m h.none i j with ⟨hsame, hold⟩ |
    ⟨hreq, hfresh, ⟨hfree, hfound⟩ | ⟨hmatched, hpush⟩⟩
  · rw [hsame]
    refine .inl ⟨h.toExploring, h.leads, h.next, fun e he hreq => ?_, h.done, h.count⟩
    rcases mem_append.mp he with he | he
    · exact h.visited e he hreq
    · obtain rfl := mem_singleton.mp he
      by_cases hout : m.outputAssigned i = j
      · -- the partner of an input on the stack was reached before it
        have hj := (mem_below.mp (ha.within i j hreq).2).1
        cases h.leads i hi with
        | free hfree => omega
        | back _ hfrom _ => rwa [hout] at hfrom
      · exact hold hreq hout
  · rw [hfound]
    have hself : update s.cameFrom j i j = i := update_self ..
    have hleads : Leads m (update s.cameFrom j i) k (update s.cameFrom j i j) := by
      rw [hself]
      exact (h.leads i hi).mono hfresh
    have hlast : (a.request (update s.cameFrom j i j) j).isSome = true := by rwa [hself]
    exact .inr ⟨j, k, rfl, hk, hleads, hfree, h.edge_update hreq, hlast⟩
  · rw [hpush]
    exact .inl (h.push ha hm hi hreq hfresh hmatched)

theorem Found.visit (h : a.Found m s) (e : ℤ × ℤ) : a.visit m s e = s := by
  obtain ⟨j, _, hfound, _⟩ := h
  exact if_pos (by rw [hfound]; rfl)

theorem Searched.start (ha : a.Sound) (m : Matching) :
    a.Searched m 0 { stack := a.unmatched m } where
  none := rfl
  edge _ h := absurd rfl h
  matched _ h := absurd rfl h
  leads i hi := .free (by simpa using (mem_filter.mp hi).2)
  done i hreached := by
    by_cases hi : i ∈ below a.inputs
    · have hfree := hreached.resolve_right fun hfrom => hfrom.2 rfl
      exact .inl (mem_filter.mpr ⟨mem_rotation.mpr hi, decide_eq_true hfree⟩)
    · exact .inr fun j hreq => absurd (ha.within i j hreq).1 hi
  count := .inr (Nat.zero_le _)

theorem mem_edges {stack : List ℤ} : (i, j) ∈ a.edges stack ↔ i ∈ stack ∧ j ∈ below a.outputs := by
  simp only [edges, mem_flatMap, mem_map, Prod.mk.injEq, mem_indices]
  constructor
  · rintro ⟨i', hi', j', hj', rfl, rfl⟩
    exact ⟨hi', hj'⟩
  · rintro ⟨hi, hj⟩
    exact ⟨i, hi, j, hj, rfl, rfl⟩

theorem Searched.layer (h : a.Searched m k s) (hk : k < a.inputs) (ha : a.Sound)
    (hm : PartialMatching a.request m) :
    a.Searched m (k + 1) (a.layer m s) ∨ a.Found m (a.layer m s) := by
  have hvisits : a.Visiting m k s (a.edges s.stack)
        ((a.edges s.stack).foldl (a.visit m) { s with next := [] }) ∨
      a.Found m ((a.edges s.stack).foldl (a.visit m) { s with next := [] }) := by
    refine foldl_seen_inv (I := fun seen s' => a.Visiting m k s seen s' ∨ a.Found m s')
      (.inl ⟨⟨h.none, h.edge, h.matched⟩, h.leads, nofun, nofun, ?_, le_rfl⟩)
      fun seen e rest s' hsplit hs' => ?_
    · exact fun i hreached => (h.done i hreached).imp_right .inr
    · rcases hs' with hs' | hs'
      · obtain ⟨i, j⟩ := e
        have he : (i, j) ∈ a.edges s.stack := by simp [hsplit]
        exact hs'.visit hk ha hm (mem_edges.mp he).1
      · rw [hs'.visit]
        exact .inr hs'
  have hempty : s.stack = [] →
      ((a.edges s.stack).foldl (a.visit m) { s with next := [] }).next = [] := by
    intro hempty
    rw [hempty]
    rfl
  unfold MaxSizeMatch.layer
  rw [if_neg (by simp [h.none])]
  generalize (a.edges s.stack).foldl (a.visit m) { s with next := [] } = s' at hvisits hempty
  rcases hvisits with hvisits | hfound
  · refine .inl ⟨⟨hvisits.none, hvisits.edge, hvisits.matched⟩, hvisits.next, fun i hreached =>
      ?_, ?_⟩
    · rcases hvisits.done i hreached with hstack | hnext | hall
      · refine .inr fun j hreq => hvisits.visited (i, j) ?_ hreq
        exact mem_edges.mpr ⟨hstack, (ha.within i j hreq).2⟩
      · exact .inl hnext
      · exact .inr hall
    · show s'.next = [] ∨ k + 1 ≤ (a.reachedOutputs s'.cameFrom).card
      -- a layer that leaves something on the stack has reached at least one output
      by_cases hnext : s'.next = []
      · exact .inl hnext
      · have hcount := h.count.resolve_left fun hstack => hnext (hempty hstack)
        have hgrown := hvisits.count
        have hpos := length_pos_iff.mpr hnext
        exact .inr (by omega)
  · exact .inr hfound

/-- When no path is found, everything that can be reached has been. -/
structure Closed (a : MaxSizeMatch) (m : Matching) (cameFrom : ℤ → ℤ) : Prop where
  matched : ∀ j, cameFrom j ≠ -1 → 0 ≤ m.inputAssigned j
  closed : ∀ i, Reached m cameFrom i → ∀ j, (a.request i j).isSome = true → cameFrom j ≠ -1

theorem search_spec (ha : a.Sound) (hsize : a.outputs ≤ a.inputs)
    (hm : PartialMatching a.request m) :
    ((a.search m).found = none ∧ a.Closed m (a.search m).cameFrom) ∨ a.Found m (a.search m) := by
  have hsearch : a.Searched m a.inputs (a.search m) ∨ a.Found m (a.search m) := by
    refine foldl_range_inv (I := fun k s => a.Searched m k s ∨ a.Found m s) (.inl (.start ha m))
      fun k s hk hs => ?_
    rcases hs with hs | hs
    · exact hs.layer hk ha hm
    · have hsame : a.layer m s = s := by
        obtain ⟨j, _, hfound, _⟩ := id hs
        exact if_pos (by rw [hfound]; rfl)
      rw [hsame]
      exact .inr hs
  rcases hsearch with h | h
  · refine .inl ⟨h.none, h.matched, fun i hreached j hreq => ?_⟩
    rcases h.done i hreached with hstack | hall
    · -- so many layers have reached all outputs
      have hcount := h.count.resolve_left (ne_nil_of_mem hstack)
      have hall : a.reachedOutputs (a.search m).cameFrom = below a.outputs :=
        Finset.eq_of_subset_of_card_le (Finset.filter_subset _ _)
          ((card_below _).le.trans (hsize.trans hcount))
      exact (Finset.mem_filter.mp (hall.symm.subset (ha.within i j hreq).2)).2
    · exact hall j hreq
  · exact .inr h

/-! ## The largest matching -/

/-- Of the requests of each pair that `m'` matches, one side is an input that was not reached or an
output that was, and `m` matches each of these with another. -/
theorem Closed.card_le {cameFrom : ℤ → ℤ} (h : a.Closed m cameFrom) (ha : a.Sound)
    (hm : PartialMatching a.request m) {m' : Matching} (hm' : IsMatching a.request m') :
    (m'.matchedInputs a.inputs).card ≤ (m.matchedInputs a.inputs).card := by
  have hcover : (m'.matchedInputs a.inputs).card ≤
      ({i ∈ below a.inputs | ¬ Reached m cameFrom i} : Finset ℤ).card +
        (a.reachedOutputs cameFrom).card := by
    rw [← Finset.card_filter_add_card_filter_not (s := m'.matchedInputs a.inputs)
      (fun i => ¬ Reached m cameFrom i)]
    refine Nat.add_le_add (Finset.card_le_card fun i hi => ?_)
      (Finset.card_le_card_of_injOn m'.outputAssigned (fun i hi => ?_) fun i hi i' hi' heq => ?_)
    · obtain ⟨hi, hreached⟩ := Finset.mem_filter.mp hi
      exact Finset.mem_filter.mpr ⟨(Finset.mem_filter.mp hi).1, hreached⟩
    · obtain ⟨hi, hreached⟩ := Finset.mem_filter.mp hi
      have hreq := hm'.requested i _ (Finset.mem_filter.mp hi).2 rfl
      exact Finset.mem_filter.mpr ⟨(ha.within _ _ hreq).2, h.closed i (not_not.mp hreached) _ hreq⟩
    · obtain ⟨hi, hpos⟩ := Finset.mem_filter.mp (Finset.mem_filter.mp hi).1
      obtain ⟨hi', -⟩ := Finset.mem_filter.mp (Finset.mem_filter.mp hi').1
      exact hm'.eq_of_output (mem_below.mp hi).1 (mem_below.mp hi').1 hpos rfl heq.symm
  have hmatched : ({i ∈ below a.inputs | ¬ Reached m cameFrom i} : Finset ℤ).card +
      (a.reachedOutputs cameFrom).card ≤ (m.matchedInputs a.inputs).card := by
    rw [← Finset.card_filter_add_card_filter_not (s := m.matchedInputs a.inputs)
      (fun i => ¬ Reached m cameFrom i)]
    refine Nat.add_le_add (Finset.card_le_card fun i hi => ?_)
      (Finset.card_le_card_of_injOn m.inputAssigned (fun j hj => ?_) fun j hj j' hj' heq => ?_)
    · obtain ⟨hi, hreached⟩ := Finset.mem_filter.mp hi
      refine Finset.mem_filter.mpr ⟨Finset.mem_filter.mpr ⟨hi, ?_⟩, hreached⟩
      exact not_lt.mp fun hlt => hreached (.inl (hm.output_eq (not_le.mpr hlt)))
    · obtain ⟨hj, hfrom⟩ := Finset.mem_filter.mp hj
      have hj₀ := (mem_below.mp hj).1
      have hpartner := hm.output_of_matched hj₀ (h.matched j hfrom)
      have hreq := hm.requested _ j hj₀ hpartner
      refine Finset.mem_filter.mpr ⟨Finset.mem_filter.mpr ⟨(ha.within _ _ hreq).1, ?_⟩, ?_⟩
      · rwa [hpartner]
      · rw [not_not, Reached, hpartner]
        exact .inr ⟨hj₀, hfrom⟩
    · obtain ⟨hj, hfrom⟩ := Finset.mem_filter.mp hj
      obtain ⟨hj', hfrom'⟩ := Finset.mem_filter.mp hj'
      rw [← hm.output_of_matched (mem_below.mp hj).1 (h.matched j hfrom), heq,
        hm.output_of_matched (mem_below.mp hj').1 (h.matched j' hfrom')]
  exact hcover.trans hmatched

/-- The loop of `Allocate` has no more turns than there are inputs to match, and one. -/
theorem augment_spec (ha : a.Sound) (hsize : a.outputs ≤ a.inputs) {fuel : ℕ}
    (hfuel : a.inputs < fuel) : ∀ {n : ℕ} {m : Matching}, PartialMatching a.request m →
      a.inputs < (m.matchedInputs a.inputs).card + n →
      ∃ m', a.augment fuel n m = some m' ∧ PartialMatching a.request m' ∧
        ∀ m'', IsMatching a.request m'' →
          (m''.matchedInputs a.inputs).card ≤ (m'.matchedInputs a.inputs).card := by
  intro n
  induction n with
  | zero =>
    intro m _ hroom
    have hle : (m.matchedInputs a.inputs).card ≤ a.inputs :=
      (Finset.card_filter_le _ _).trans (card_below _).le
    omega
  | succ n ih =>
    intro m hm hroom
    rcases search_spec ha hsize hm with ⟨hnone, hclosed⟩ |
      ⟨j, k, hfound, hk, hleads, hfree, hedge, hlast⟩
    · refine ⟨m, ?_, hm, fun m'' hm'' => hclosed.card_le ha hm hm''⟩
      rw [augment, shortestAugmenting]
      simp only [hnone]
    · obtain ⟨m₁, hflip, hm₁, hcard⟩ := flip_spec ha.within hedge (by omega : k < fuel) hleads hm
        hfree hlast
      obtain ⟨m', haugment, hm', hmax⟩ := ih hm₁ (by omega)
      refine ⟨m', ?_, hm', hmax⟩
      rw [augment, shortestAugmenting]
      simp only [hfound, hflip, Option.map_some]
      exact haugment

end PathSearch

end MaxSizeMatch

/-- After `Clear` and any calls of `AddRequest`, with no more outputs than inputs, `Allocate` comes
to an end and answers with a matching of requests, and no matching of requests is larger. -/
theorem maxSize_maximum {a : MaxSizeMatch} (hclean : a.Clean) {calls : List (ℤ × ℤ × Request)}
    {b : DenseAllocator} (hcalls : a.toDenseAllocator.clear.addRequests calls = .ok b)
    (hsize : b.outputs ≤ b.inputs) {fuel : ℕ} (hfuel : b.inputs < fuel) :
    ∃ allocated, MaxSizeMatch.allocate { a with toDenseAllocator := b } fuel = some allocated ∧
      IsMatching b.request allocated.matching ∧
      ∀ m, IsMatching b.request m → (m.matchedInputs b.inputs).card ≤
        (allocated.matching.matchedInputs b.inputs).card := by
  obtain ⟨hsound, hmatching⟩ := DenseAllocator.Sound.clear hclean
  obtain ⟨hb, hsame⟩ := hsound.addRequests hcalls
  have hstart : PartialMatching b.request b.matching := by
    rw [hsame, hmatching]
    exact .empty _
  obtain ⟨m', haugment, hm', hmax⟩ := MaxSizeMatch.augment_spec
    (a := { a with toDenseAllocator := b }) hb hsize hfuel hstart (by omega : b.inputs < _ + fuel)
  refine ⟨_, congrArg (Option.map _) haugment, hm'.toIsMatching, hmax⟩

theorem maxSize_maximum_two :
    let a : MaxSizeMatch := { inputs := 2, outputs := 2, prio := 1 }
    let calls : List (ℤ × ℤ × Request) := [(0, 0, ⟨1, 0, 0⟩), (1, 0, ⟨1, 0, 0⟩), (1, 1, ⟨1, 0, 0⟩)]
    ∃ b, a.toDenseAllocator.clear.addRequests calls = .ok b ∧ ∃ allocated,
      MaxSizeMatch.allocate { a with toDenseAllocator := b } 3 = some allocated ∧
        IsMatching b.request allocated.matching := by
  intro a calls
  obtain ⟨b, hb, hsize⟩ := exists_of_returns (x := a.toDenseAllocator.clear.addRequests calls)
    (p := fun b : DenseAllocator => decide (b.outputs ≤ b.inputs ∧ b.inputs < 3))
    (by decide +kernel)
  obtain ⟨hle, hlt⟩ := of_decide_eq_true hsize
  obtain ⟨allocated, hallocated, hmatching, -⟩ := maxSize_maximum (a := a) (fun _ => rfl) hb hle hlt
  exact ⟨b, hb, allocated, hallocated, hmatching⟩

end BookSim
