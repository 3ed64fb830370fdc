/-
# `BookSim.Lib.Table` — arrays of arrays as functions

An array is a function of its index and `Function.update` writes one entry.  For an array of
arrays `update₂` writes the entry of one row and one column:

    update₂_row       the row that is written, as an array
    update₂_row_ne    any other row
    update₂_apply     any entry
    update₂_eq_self   an entry that has the value already

`below n` are the indices of an array of length `n` that is indexed by integers, `indices n`
lists them, and `rotation` does so from some other number on.  `foldl_range_inv` is the rule for a
counting loop, and `foldl_seen_inv` that for a loop over a list.
-/
import Mathlib.Algebra.GroupWithZero.Nat
import Mathlib.Data.Finset.Card
import Mathlib.Logic.Function.Basic

namespace BookSim

open List

variable {α β γ : Type*} [DecidableEq α] [DecidableEq β]

/-- The table with one entry written. -/
def update₂ (f : α → β → γ) (a : α) (b : β) (v : γ) : α → β → γ :=
  Function.update f a (Function.update (f a) b v)

variable {f : α → β → γ} {a a' : α} {b b' : β} {v : γ}

@[simp] theorem update₂_row : update₂ f a b v a = Function.update (f a) b v :=
  Function.update_self ..

theorem update₂_row_ne (h : a' ≠ a) : update₂ f a b v a' = f a' :=
  Function.update_of_ne h ..

theorem update₂_apply : update₂ f a b v a' b' = if a' = a ∧ b' = b then v else f a' b' := by
  by_cases ha : a' = a
  · subst ha
    rw [update₂_row, Function.update_apply]
    simp
  · rw [update₂_row_ne ha, if_neg fun h => ha h.1]

theorem update₂_eq_self (h : f a b = v) : update₂ f a b v = f := by
  rw [update₂, ← h, Function.update_eq_self, Function.update_eq_self]

/-- Rows and columns change places. -/
theorem update₂_transpose :
    (fun b' a' => update₂ f a b v a' b') = update₂ (fun b' a' => f a' b') b a v := by
  funext b' a'
  rw [update₂_apply, update₂_apply]
  exact if_congr and_comm rfl rfl

/-- A loop that writes some of the cells it goes through. -/
theorem foldl_update_apply {α β : Type*} [DecidableEq α] {p : α → Prop} [DecidablePred p]
    (v : α → β) (l : List α) (f : α → β) (b : α) :
    l.foldl (fun f a => if p a then Function.update f a (v a) else f) f b =
      if b ∈ l ∧ p b then v b else f b := by
  induction l generalizing f with
  | nil => simp
  | cons a l ih =>
    rw [foldl_cons, ih]
    by_cases hba : b = a
    · subst hba
      split_ifs <;> simp_all
    · grind

/-- The numbers from 0 to `n - 1`. -/
def below (n : ℕ) : Finset ℤ := (Finset.range n).image fun k : ℕ => (k : ℤ)

theorem mem_below {n : ℕ} {v : ℤ} : v ∈ below n ↔ 0 ≤ v ∧ v < n := by
  simp only [below, Finset.mem_image, Finset.mem_range]
  exact ⟨fun ⟨k, hk, h⟩ => by omega, fun h => ⟨v.toNat, by omega, by omega⟩⟩

theorem card_below (n : ℕ) : (below n).card = n := by
  rw [below, Finset.card_image_of_injective _ fun _ _ h => Int.ofNat_inj.mp h, Finset.card_range]

/-- The same numbers in order, as a loop goes through them. -/
def indices (n : ℕ) : List ℤ := (List.range n).map fun k : ℕ => (k : ℤ)

theorem mem_indices {n : ℕ} {v : ℤ} : v ∈ indices n ↔ v ∈ below n := by
  rw [indices, below, mem_map, Finset.mem_image]
  simp only [mem_range, Finset.mem_range]

theorem nodup_indices (n : ℕ) : (indices n).Nodup :=
  nodup_range.map fun _ _ h => Int.ofNat_inj.mp h

/-- The same numbers from an offset on, and around. -/
def rotation (offset n : ℕ) : List ℤ := (indices n).map fun i => (i + offset) % n

theorem mem_rotation {offset n : ℕ} {v : ℤ} : v ∈ rotation offset n ↔ v ∈ below n := by
  rw [rotation, mem_map]
  constructor
  · rintro ⟨i, hi, rfl⟩
    have := mem_below.mp (mem_indices.mp hi)
    exact mem_below.mpr ⟨Int.emod_nonneg _ (by omega), Int.emod_lt_of_pos _ (by omega)⟩
  · intro hv
    have hv' := mem_below.mp hv
    refine ⟨(v - offset) % n, mem_indices.mpr (mem_below.mpr ⟨?_, ?_⟩), ?_⟩
    · exact Int.emod_nonneg _ (by omega)
    · exact Int.emod_lt_of_pos _ (by omega)
    · rw [Int.emod_add_emod, Int.sub_add_cancel, Int.emod_eq_of_lt hv'.1 hv'.2]

/-- A counting loop; the invariant may speak of the counter. -/
theorem foldl_range_inv {σ : Type*} {I : ℕ → σ → Prop} {f : σ → ℕ → σ} {s : σ} {n : ℕ}
    (hs : I 0 s) (hstep : ∀ k s, k < n → I k s → I (k + 1) (f s k)) :
    I n ((List.range n).foldl f s) := by
  induction n with
  | zero => exact hs
  | succ n ih =>
    rw [range_succ, foldl_append]
    exact hstep n _ (Nat.lt_succ_self n) (ih fun k s hk => hstep k s (by omega))

/-- A loop over a list; the invariant may speak of what has been seen of it. -/
theorem foldl_seen_inv {α σ : Type*} {I : List α → σ → Prop} {f : σ → α → σ} {s : σ} {l : List α}
    (hs : I [] s) (hstep : ∀ seen x rest s, l = seen ++ x :: rest → I seen s →
      I (seen ++ [x]) (f s x)) : I l (l.foldl f s) := by
  have hrest : ∀ rest seen s, l = seen ++ rest → I seen s → I l (rest.foldl f s) := by
    intro rest
    induction rest with
    | nil =>
      intro seen s hl h
      rwa [hl, append_nil]
    | cons x rest ih =>
      intro seen s hl h
      refine ih (seen ++ [x]) (f s x) ?_ (hstep seen x rest s hl h)
      rw [hl, append_assoc, singleton_append]
  exact hrest l [] s rfl hs

theorem mem_snoc {α : Type*} {l : List α} {x y : α} : y ∈ l ++ [x] ↔ y ∈ l ∨ y = x :=
  mem_append.trans (or_congr_right mem_singleton)

theorem not_mem_of_nodup_append {α : Type*} {l seen rest : List α} {x : α} (hl : l.Nodup)
    (hsplit : l = seen ++ x :: rest) : x ∉ seen := by
  intro hx
  rw [hsplit] at hl
  exact (nodup_append.mp hl).2.2 x hx x mem_cons_self rfl

/-- A quantity that each round of a loop increases by a known amount. -/
theorem foldl_grows {α σ : Type*} {μ : σ → ℕ} {f : σ → α → σ} {d : α → ℕ}
    (h : ∀ s a, μ (f s a) = μ s + d a) (l : List α) (s : σ) :
    μ (l.foldl f s) = μ s + (l.map d).sum := by
  induction l generalizing s with
  | nil => rfl
  | cons a l ih => rw [foldl_cons, ih, h, map_cons, sum_cons, Nat.add_assoc]

theorem iterate_grows {σ : Type*} {μ : σ → ℕ} {f : σ → σ} {d : ℕ} (h : ∀ s, μ (f s) = μ s + d)
    (k : ℕ) (s : σ) : μ (f^[k] s) = μ s + k * d := by
  induction k with
  | zero => rw [Nat.zero_mul]; rfl
  | succ k ih => rw [Function.iterate_succ_apply', h, ih, Nat.succ_mul, Nat.add_assoc]

/-- A loop that counts. -/
theorem foldl_count {α : Type*} {p : α → Prop} [DecidablePred p] (l : List α) (k : ℕ) :
    l.foldl (fun k a => if p a then k + 1 else k) k = k + l.countP (fun a => decide (p a)) := by
  induction l generalizing k with
  | nil => rfl
  | cons a l ih =>
    rw [foldl_cons, ih, countP_cons]
    by_cases ha : p a
    · simp [ha]
      omega
    · simp [ha]

/-- Counting, and noting only that there is something: the same when there is at most one. -/
theorem countP_eq_ite_iff {α : Type*} {p : α → Prop} [DecidablePred p] {l : List α} {q : Prop}
    [Decidable q] (hl : l.Nodup) (hq : q ↔ ∃ a ∈ l, p a) :
    l.countP (fun a => decide (p a)) = (if q then 1 else 0) ↔
      ∀ a ∈ l, ∀ b ∈ l, p a → p b → a = b := by
  classical
  have hcard : l.countP (fun a => decide (p a)) = ({a ∈ l.toFinset | p a} : Finset α).card := by
    rw [countP_eq_length_filter, ← toFinset_card_of_nodup (hl.filter _), toFinset_filter]
    simp
  have hone : ({a ∈ l.toFinset | p a} : Finset α).card ≤ 1 ↔
      ∀ a ∈ l, ∀ b ∈ l, p a → p b → a = b := by
    rw [Finset.card_le_one]
    simp only [Finset.mem_filter, mem_toFinset, and_imp]
    exact ⟨fun h a ha b hb hpa hpb => h a ha hpa b hb hpb,
      fun h a ha hpa b hb hpb => h a ha b hb hpa hpb⟩
  have hpos : 0 < ({a ∈ l.toFinset | p a} : Finset α).card ↔ q := by
    rw [Finset.card_pos, hq]
    simp [Finset.Nonempty]
  rw [hcard, ← hone]
  split
  · next h =>
      have := hpos.mpr h
      omega
  · next h =>
      have := hpos.not.mpr h
      omega

end BookSim
