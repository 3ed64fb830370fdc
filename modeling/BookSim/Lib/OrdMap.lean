/-
# `BookSim.Lib.OrdMap` — ordered maps

A map that is iterated in the order of its keys, as a list of entries whose keys ascend.
`insert` writes an entry, whether or not the key is there already.

    get?_insert         what is found after a write
    get?_erase          what is found after a key is erased
    mem_entries_iff     the iteration meets exactly the entries that are found
    map, mapIdx         values that are renewed in the course of an iteration
    sum_entries         a sum over the entries as a sum over the keys there can be
-/
import Mathlib.Algebra.BigOperators.Group.Finset.Piecewise
import Mathlib.Algebra.GroupWithZero.Nat
import Mathlib.Data.List.Pairwise
import Mathlib.Data.List.Nodup
import Mathlib.Data.List.Sort
import Mathlib.Order.Defs.LinearOrder

namespace BookSim

open List

variable {κ ν μ : Type} [LinearOrder κ]

/-- Write an entry into a list of entries. -/
def insertEntry (k : κ) (v : ν) : List (κ × ν) → List (κ × ν)
  | [] => [(k, v)]
  | e :: es =>
    if k < e.1 then (k, v) :: e :: es
    else if k = e.1 then (k, v) :: es
    else e :: insertEntry k v es

theorem mem_insertEntry {k : κ} {v : ν} {x : κ × ν} : ∀ {es : List (κ × ν)},
    x ∈ insertEntry k v es → x = (k, v) ∨ x ∈ es
  | [], h => .inl (mem_singleton.mp h)
  | e :: es, h => by
    rw [insertEntry] at h
    split at h
    · exact mem_cons.mp h
    · split at h
      · exact (mem_cons.mp h).imp_right (mem_cons_of_mem e)
      · rcases mem_cons.mp h with rfl | h
        · exact .inr mem_cons_self
        · exact (mem_insertEntry h).imp_right (mem_cons_of_mem e)

theorem pairwise_insertEntry (k : κ) (v : ν) : ∀ {es : List (κ × ν)},
    es.Pairwise (fun a b => a.1 < b.1) → (insertEntry k v es).Pairwise (fun a b => a.1 < b.1)
  | [], _ => pairwise_singleton _ _
  | e :: es, h => by
    obtain ⟨hhead, htail⟩ := pairwise_cons.mp h
    rw [insertEntry]
    split
    next hlt =>
      refine pairwise_cons.mpr ⟨fun x hx => ?_, h⟩
      rcases mem_cons.mp hx with rfl | hx
      · exact hlt
      · exact lt_trans hlt (hhead x hx)
    next hge =>
      split
      next heq => exact pairwise_cons.mpr ⟨fun x hx => heq ▸ hhead x hx, htail⟩
      next hne =>
        refine pairwise_cons.mpr ⟨fun x hx => ?_, pairwise_insertEntry k v htail⟩
        rcases mem_insertEntry hx with rfl | hx
        · exact lt_of_le_of_ne (not_lt.mp hge) (Ne.symm hne)
        · exact hhead x hx

/-- The value of a key in a list of entries. -/
def lookupEntry (k : κ) : List (κ × ν) → Option ν
  | [] => none
  | e :: es => if k = e.1 then some e.2 else lookupEntry k es

theorem lookupEntry_insertEntry (k k' : κ) (v : ν) : ∀ es : List (κ × ν),
    lookupEntry k' (insertEntry k v es) = if k' = k then some v else lookupEntry k' es
  | [] => rfl
  | e :: es => by
    rw [insertEntry]
    split
    next => rfl
    next =>
      split
      next heq =>
        rw [lookupEntry, lookupEntry]
        by_cases h : k' = k
        · rw [if_pos h, if_pos h]
        · rw [if_neg h, if_neg h, if_neg (heq ▸ h)]
      next hne =>
        rw [lookupEntry, lookupEntry, lookupEntry_insertEntry k k' v es]
        by_cases he : k' = e.1
        · rw [if_pos he, if_pos he, if_neg fun h => hne (h.symm.trans he)]
        · rw [if_neg he, if_neg he]

theorem mem_iff_lookupEntry {k : κ} {v : ν} : ∀ {es : List (κ × ν)},
    es.Pairwise (fun a b => a.1 < b.1) → ((k, v) ∈ es ↔ lookupEntry k es = some v)
  | [], _ => by simp [lookupEntry]
  | e :: es, h => by
    obtain ⟨hhead, htail⟩ := pairwise_cons.mp h
    rw [mem_cons, lookupEntry]
    by_cases he : k = e.1
    · grind
    · rw [if_neg he, ← mem_iff_lookupEntry htail]
      exact or_iff_right fun heq => he (heq ▸ rfl)

theorem lookupEntry_filter (k k' : κ) (es : List (κ × ν)) :
    lookupEntry k' (es.filter fun e => e.1 ≠ k) = if k' = k then none else lookupEntry k' es := by
  induction es with
  | nil =>
    split
    · rfl
    · rfl
  | cons e es ih =>
    by_cases hek : e.1 = k
    · rw [filter_cons_of_neg (by simp [hek]), ih, lookupEntry]
      by_cases hkk : k' = k
      · rw [if_pos hkk, if_pos hkk]
      · rw [if_neg hkk, if_neg hkk, if_neg fun h => hkk (h.trans hek)]
    · rw [filter_cons_of_pos (by simp [hek]), lookupEntry, lookupEntry, ih]
      by_cases hke : k' = e.1
      · rw [if_pos hke, if_pos hke, if_neg fun h => hek (hke.symm.trans h)]
      · rw [if_neg hke, if_neg hke]

/-- A map from `κ` to `ν`, in the order of the keys. -/
structure OrdMap (κ ν : Type) [LinearOrder κ] where
  entries : List (κ × ν)
  sorted : entries.Pairwise (fun a b => a.1 < b.1)

namespace OrdMap

def empty : OrdMap κ ν := ⟨[], .nil⟩

/-- Write the value of a key. -/
def insert (m : OrdMap κ ν) (k : κ) (v : ν) : OrdMap κ ν :=
  ⟨insertEntry k v m.entries, pairwise_insertEntry k v m.sorted⟩

/-- The map without a key. -/
def erase (m : OrdMap κ ν) (k : κ) : OrdMap κ ν :=
  ⟨m.entries.filter fun e => e.1 ≠ k, m.sorted.filter _⟩

def get? (m : OrdMap κ ν) (k : κ) : Option ν := lookupEntry k m.entries

def keys (m : OrdMap κ ν) : List κ := m.entries.map Prod.fst

def size (m : OrdMap κ ν) : ℕ := m.entries.length

@[simp] theorem get?_empty (k : κ) : (empty : OrdMap κ ν).get? k = none := rfl

theorem get?_insert (m : OrdMap κ ν) (k k' : κ) (v : ν) :
    (m.insert k v).get? k' = if k' = k then some v else m.get? k' :=
  lookupEntry_insertEntry k k' v m.entries

theorem get?_erase (m : OrdMap κ ν) (k k' : κ) :
    (m.erase k).get? k' = if k' = k then none else m.get? k' :=
  lookupEntry_filter k k' m.entries

theorem mem_entries_iff {m : OrdMap κ ν} {k : κ} {v : ν} :
    (k, v) ∈ m.entries ↔ m.get? k = some v := mem_iff_lookupEntry m.sorted

theorem mem_keys_iff {m : OrdMap κ ν} {k : κ} : k ∈ m.keys ↔ (m.get? k).isSome := by
  rw [keys, mem_map, Option.isSome_iff_exists]
  constructor
  · rintro ⟨⟨_, v⟩, hmem, rfl⟩
    exact ⟨v, mem_entries_iff.mp hmem⟩
  · rintro ⟨v, hv⟩
    exact ⟨(k, v), mem_entries_iff.mpr hv, rfl⟩

theorem entries_ne_nil_iff {m : OrdMap κ ν} : m.entries ≠ [] ↔ ∃ k, (m.get? k).isSome := by
  constructor
  · intro h
    obtain ⟨⟨k, v⟩, hmem⟩ := exists_mem_of_ne_nil _ h
    exact ⟨k, Option.isSome_iff_exists.mpr ⟨v, mem_entries_iff.mp hmem⟩⟩
  · rintro ⟨k, hk⟩ hnil
    obtain ⟨v, hv⟩ := Option.isSome_iff_exists.mp hk
    exact absurd (mem_entries_iff.mpr hv) (hnil ▸ not_mem_nil)

/-- An iteration that renews the values. -/
def map (m : OrdMap κ ν) (f : κ → ν → μ) : OrdMap κ μ where
  entries := m.entries.map fun e => (e.1, f e.1 e.2)
  sorted := pairwise_map.mpr m.sorted

/-- The same with a count of the entries before. -/
def mapIdx (m : OrdMap κ ν) (f : ℕ → κ → ν → μ) : OrdMap κ μ where
  entries := m.entries.mapIdx fun i e => (e.1, f i e.1 e.2)
  sorted := by
    have h := pairwise_iff_getElem.mp m.sorted
    refine pairwise_iff_getElem.mpr fun i j hi hj hij => ?_
    rw [length_mapIdx] at hi hj
    rw [getElem_mapIdx, getElem_mapIdx]
    exact h i j hi hj hij

theorem keys_map (m : OrdMap κ ν) (f : κ → ν → μ) : (m.map f).keys = m.keys := by
  simp [keys, map]

theorem get?_map (m : OrdMap κ ν) (f : κ → ν → μ) (k : κ) :
    (m.map f).get? k = (m.get? k).map (f k) := by
  refine Option.ext fun w => ?_
  rw [← mem_entries_iff, Option.map_eq_some_iff]
  simp only [map, mem_map, Prod.mk.injEq, Prod.exists]
  constructor
  · rintro ⟨_, v, hmem, rfl, hw⟩
    exact ⟨v, mem_entries_iff.mp hmem, hw⟩
  · rintro ⟨v, hv, hw⟩
    exact ⟨k, v, mem_entries_iff.mpr hv, rfl, hw⟩

/-- A map is iterated in the order of its keys. -/
theorem keys_eq {m : OrdMap κ ν} {ks : List κ} (hks : ks.Pairwise (· < ·))
    (h : ∀ k, (m.get? k).isSome ↔ k ∈ ks) : m.keys = ks := by
  have hkeys : m.keys.Pairwise (· < ·) := pairwise_map.mpr m.sorted
  refine List.Perm.eq_of_pairwise' hkeys hks ?_
  refine (perm_ext_iff_of_nodup (hkeys.imp ne_of_lt) (hks.imp ne_of_lt)).mpr fun k => ?_
  rw [mem_keys_iff, h]

/-- A map whose keys are the numbers below `n` is iterated from 0 to `n - 1`. -/
theorem keys_eq_range {m : OrdMap ℕ ν} {n : ℕ} (h : ∀ k, (m.get? k).isSome ↔ k < n) :
    m.keys = List.range n :=
  keys_eq pairwise_lt_range fun k => (h k).trans mem_range.symm

/-- In a sum over the entries that counts one key only there is at most one term. -/
theorem sum_entries_key (m : OrdMap κ ν) (f : ν → ℕ) (k : κ) :
    (m.entries.map fun e => f e.2 * if k = e.1 then 1 else 0).sum = (m.get? k).elim 0 f := by
  obtain ⟨es, hes⟩ := m
  unfold get?
  induction es with
  | nil => rfl
  | cons e es ih =>
    obtain ⟨hhead, htail⟩ := pairwise_cons.mp hes
    rw [map_cons, sum_cons, ih htail, lookupEntry]
    by_cases hk : k = e.1
    · have hnone : lookupEntry k es = none := by
        rw [Option.eq_none_iff_forall_ne_some]
        intro v hv
        exact absurd hk.symm (hhead _ ((mem_iff_lookupEntry htail).mpr hv)).ne
      rw [if_pos hk, if_pos hk, hnone, Nat.mul_one]
      rfl
    · rw [if_neg hk, if_neg hk, Nat.mul_zero, Nat.zero_add]

/-- A sum over the entries, as a sum over all keys there can be. -/
theorem sum_entries {m : OrdMap ℕ ν} {n : ℕ} (h : ∀ k, (m.get? k).isSome → k < n) (f : ν → ℕ) :
    (m.entries.map fun e => f e.2).sum = ∑ k ∈ Finset.range n, (m.get? k).elim 0 f := by
  have hlt : ∀ e ∈ m.entries, e.1 < n := fun e he =>
    h e.1 (Option.isSome_of_eq_some (mem_entries_iff.mp he))
  simp only [← sum_entries_key]
  generalize m.entries = es at hlt ⊢
  induction es with
  | nil => simp
  | cons e es ih =>
    have he := Finset.mem_range.mpr (hlt e mem_cons_self)
    simp only [map_cons, sum_cons, Finset.sum_add_distrib,
      ih fun e' he' => hlt e' (mem_cons_of_mem e he')]
    simp [he]

end OrdMap

end BookSim
