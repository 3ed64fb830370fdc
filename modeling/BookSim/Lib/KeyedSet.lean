/-
# `BookSim.Lib.KeyedSet` — an ordered set whose comparator reads one key

The container behind every `std::set` with a hand-written `operator<`: the
elements are kept in increasing order of `key`, and an insertion finds its
place by comparing keys only.  Two elements with equal keys are therefore ONE
element for the set: the second insertion is dropped, whatever else differs.

    insert x s      the insertion; drops `x` when some `y ∈ s` has `key y = key x`
    insertAll xs    the set after inserting `xs` in order into the empty set

`mem_insertAll` says what survives (the first arrival of each key) and
`insertAll_perm_dedup` when nothing is lost (keys injective on what came in).
-/
import Mathlib.Data.List.Dedup
import Mathlib.Order.Lattice

namespace BookSim.KeyedSet

open List

variable {α κ : Type*} [LinearOrder κ] (key : α → κ)

/-- Insertion by key; an element whose key is present is not inserted. -/
def insert (x : α) : List α → List α
  | [] => [x]
  | y :: ys =>
    if key x < key y then x :: y :: ys
    else if key y < key x then y :: insert x ys
    else y :: ys

/-- The order of a set's iteration: strictly increasing keys. -/
def Sorted (s : List α) : Prop := s.Pairwise (fun a b => key a < key b)

variable {key}

theorem Sorted.nodup {s : List α} (h : Sorted key s) : s.Nodup :=
  List.Pairwise.imp (fun hab => fun heq => absurd (heq ▸ hab) (lt_irrefl _)) h

/-- Inside one set a key determines its element. -/
theorem Sorted.eq_of_key {s : List α} (h : Sorted key s) {a b : α}
    (ha : a ∈ s) (hb : b ∈ s) (hk : key a = key b) : a = b := by
  by_contra hne
  have hlt := pairwise_iff_getElem.mp h
  obtain ⟨i, hi, rfl⟩ := getElem_of_mem ha
  obtain ⟨j, hj, rfl⟩ := getElem_of_mem hb
  rcases Nat.lt_trichotomy i j with hij | hij | hij
  · exact absurd hk (ne_of_lt (hlt i j hi hj hij))
  · subst hij; exact hne rfl
  · exact absurd hk.symm (ne_of_lt (hlt j i hj hi hij))

theorem mem_insert {x z : α} : ∀ {s : List α}, Sorted key s →
    (z ∈ insert key x s ↔ z ∈ s ∨ (z = x ∧ ∀ y ∈ s, key y ≠ key x))
  | [], _ => by simp [insert]
  | y :: ys, h => by
    obtain ⟨hy, hys⟩ := pairwise_cons.mp h
    by_cases hxy : key x < key y
    · have hfresh : ∀ w ∈ y :: ys, key w ≠ key x := by
        intro w hw
        rcases mem_cons.mp hw with rfl | hw
        · exact ne_of_gt hxy
        · exact ne_of_gt (hxy.trans (hy w hw))
      simp only [insert, if_pos hxy, mem_cons]
      constructor
      · rintro (rfl | hz)
        · exact Or.inr ⟨rfl, fun w hw => hfresh w (mem_cons.mpr hw)⟩
        · exact Or.inl hz
      · rintro (hz | ⟨rfl, -⟩)
        · exact Or.inr hz
        · exact Or.inl rfl
    · by_cases hyx : key y < key x
      · simp only [insert, if_neg hxy, if_pos hyx, mem_cons, mem_insert hys, forall_eq_or_imp]
        constructor
        · grind
        · grind
      · have heq : key y = key x := le_antisymm (not_lt.mp hxy) (not_lt.mp hyx)
        simp only [insert, if_neg hxy, if_neg hyx]
        exact ⟨Or.inl, fun hz => hz.elim id (fun h' => absurd heq (h'.2 y mem_cons_self))⟩

/-- A set of plain values. -/
theorem mem_insert_id {x z : κ} {s : List κ} (h : Sorted id s) :
    z ∈ insert id x s ↔ z ∈ s ∨ z = x := by
  rw [mem_insert h]
  constructor
  · exact Or.imp_right And.left
  · rintro (hz | rfl)
    · exact .inl hz
    · by_cases hz : z ∈ s
      · exact .inl hz
      · exact .inr ⟨rfl, fun y hy (heq : y = z) => hz (heq ▸ hy)⟩

theorem sorted_insert {x : α} : ∀ {s : List α}, Sorted key s → Sorted key (insert key x s)
  | [], _ => pairwise_singleton _ _
  | y :: ys, h => by
    obtain ⟨hy, hys⟩ := pairwise_cons.mp h
    by_cases hxy : key x < key y
    · simp only [insert, if_pos hxy]
      refine pairwise_cons.mpr ⟨fun w hw => ?_, h⟩
      rcases mem_cons.mp hw with rfl | hw
      · exact hxy
      · exact hxy.trans (hy w hw)
    · by_cases hyx : key y < key x
      · simp only [insert, if_neg hxy, if_pos hyx]
        refine pairwise_cons.mpr ⟨fun w hw => ?_, sorted_insert hys⟩
        rcases (mem_insert hys).mp hw with hw | ⟨rfl, -⟩
        · exact hy w hw
        · exact hyx
      · simpa only [insert, if_neg hxy, if_neg hyx] using h

variable (key)

/-- The set after the insertions `xs`, first to last, into `s`. -/
def insertFrom (s : List α) (xs : List α) : List α :=
  xs.foldl (fun acc x => insert key x acc) s

/-- The set after the insertions `xs`, first to last, into the empty set. -/
def insertAll (xs : List α) : List α := insertFrom key [] xs

variable {key}

theorem sorted_insertFrom {s : List α} (h : Sorted key s) (xs : List α) :
    Sorted key (insertFrom key s xs) := by
  induction xs generalizing s with
  | nil => exact h
  | cons x xs ih => exact ih (sorted_insert h)

theorem sorted_insertAll (xs : List α) : Sorted key (insertAll key xs) :=
  sorted_insertFrom List.Pairwise.nil xs

/-- What the insertions keep: the old elements, and of the new keys the first
arrival of each. -/
theorem mem_insertFrom {e : α} {s : List α} (h : Sorted key s) (xs : List α) :
    e ∈ insertFrom key s xs ↔
      e ∈ s ∨ ((∀ y ∈ s, key y ≠ key e) ∧ ∃ pre post, xs = pre ++ e :: post ∧
        ∀ y ∈ pre, key y ≠ key e) := by
  induction xs generalizing s with
  | nil => simp [insertFrom]
  | cons x xs ih =>
    have hstep := ih (sorted_insert (x := x) h)
    rw [show insertFrom key s (x :: xs) = insertFrom key (insert key x s) xs from rfl, hstep]
    constructor
    · rintro (he | ⟨hfresh, pre, post, rfl, hpre⟩)
      · rcases (mem_insert h).mp he with he | ⟨rfl, hf⟩
        · exact Or.inl he
        · exact Or.inr ⟨hf, [], xs, rfl, by simp⟩
      · refine Or.inr ⟨fun y hy => hfresh y ((mem_insert h).mpr (Or.inl hy)),
          x :: pre, post, rfl, ?_⟩
        intro y hy
        rcases mem_cons.mp hy with rfl | hy
        · -- were `y` of the key of `e`, an element of that key would already be in the set
          intro hk
          by_cases hin : ∀ w ∈ s, key w ≠ key y
          · exact hfresh y ((mem_insert h).mpr (Or.inr ⟨rfl, hin⟩)) hk
          · obtain ⟨w, hw, hwk⟩ : ∃ w ∈ s, key w = key y := by simpa using hin
            exact hfresh w ((mem_insert h).mpr (Or.inl hw)) (hwk.trans hk)
        · exact hpre y hy
    · rintro (he | ⟨hfresh, pre, post, heq, hpre⟩)
      · exact Or.inl ((mem_insert h).mpr (Or.inl he))
      · cases pre with
        | nil =>
          obtain ⟨rfl, -⟩ := List.cons.inj heq
          exact Or.inl ((mem_insert h).mpr (Or.inr ⟨rfl, hfresh⟩))
        | cons p pre =>
          obtain ⟨rfl, rfl⟩ := List.cons.inj heq
          refine Or.inr ⟨fun y hy => ?_, pre, post, rfl, fun y hy => hpre y (mem_cons_of_mem _ hy)⟩
          rcases (mem_insert h).mp hy with hy | ⟨rfl, -⟩
          · exact hfresh y hy
          · exact hpre y mem_cons_self

theorem mem_of_mem_insertAll {e : α} {xs : List α} (he : e ∈ insertAll key xs) : e ∈ xs := by
  rcases (mem_insertFrom List.Pairwise.nil xs).mp he with h | ⟨-, pre, post, rfl, -⟩
  · exact absurd h not_mem_nil
  · exact mem_append_right _ mem_cons_self

/-- Nothing is lost when the keys tell the inserted elements apart. -/
theorem mem_insertAll_of_injOn {xs : List α}
    (hinj : ∀ a ∈ xs, ∀ b ∈ xs, key a = key b → a = b) {e : α} :
    e ∈ insertAll key xs ↔ e ∈ xs := by
  refine ⟨mem_of_mem_insertAll, fun he => ?_⟩
  refine (mem_insertFrom List.Pairwise.nil xs).mpr (Or.inr ⟨by simp, ?_⟩)
  obtain ⟨pre, post, rfl, hnot⟩ := eq_append_cons_of_mem he
  refine ⟨pre, post, rfl, fun y hy hk => hnot ?_⟩
  have : y = e := hinj y (mem_append_left _ hy) e he hk
  exact this ▸ hy

theorem insertAll_perm_dedup [DecidableEq α] {xs : List α}
    (hinj : ∀ a ∈ xs, ∀ b ∈ xs, key a = key b → a = b) :
    (insertAll key xs).Perm xs.dedup :=
  (perm_ext_iff_of_nodup (sorted_insertAll xs).nodup xs.nodup_dedup).mpr
    (fun e => by rw [mem_insertAll_of_injOn hinj, mem_dedup])

end BookSim.KeyedSet
