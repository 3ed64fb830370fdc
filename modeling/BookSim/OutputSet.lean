/-
# `BookSim.OutputSet` — the route set a routing function fills

`outputset.hpp` declares the set of a flit's admissible outputs as
`set<sSetElement>`, ordered by

    bool operator<(se1, se2) { return se1.pri > se2.pri; }

so the comparator reads the priority and nothing else.  `SetElement` is the
element, `OutputSet` the set (iteration order: priorities strictly falling, kept
as a field), and `addRange`, `numVCs`, `getVC`, `outputEmpty`
follow the source loop by loop.

What a route set is *for* is said separately: `addedVCs calls port` lists the
VCs of all distinct ranges added for a port, and `HoldsAll calls s` says that
the three queries of `s` answer from exactly that.  `addRanges_holdsAll_iff`
is the condition under which they do.
-/
import BookSim.Lib.KeyedSet
import Mathlib.Algebra.BigOperators.Group.List.Basic
import Mathlib.Algebra.Order.Group.Unbundled.Int
import Mathlib.Algebra.Ring.Int.Defs
import Mathlib.Algebra.Ring.Nat

namespace BookSim

open List

/-- `OutputSet::sSetElement`: a VC range at an output port, with a priority. -/
structure SetElement where
  vcStart : Int
  vcEnd : Int
  pri : Int
  outputPort : Int
  deriving DecidableEq, Repr

/-- What `operator<` compares: higher priorities come first. -/
def SetElement.key (e : SetElement) : Int := -e.pri

/-- `vc_end - vc_start + 1`, as `NumVCs` and `GetVC` compute it. -/
def SetElement.range (e : SetElement) : Int := e.vcEnd - e.vcStart + 1

/-- The VCs of one range, in increasing order. -/
def SetElement.vcs (e : SetElement) : List Int :=
  (List.range e.range.toNat).map (fun i : ℕ => e.vcStart + i)

/-- `OutputSet`: the elements in the order `set` iterates over them. -/
structure OutputSet where
  outputs : List SetElement
  sorted : KeyedSet.Sorted SetElement.key outputs
  deriving DecidableEq

namespace OutputSet

/-- `OutputSet::Clear`. -/
def clear : OutputSet := ⟨[], List.Pairwise.nil⟩

/-- `_outputs.insert(s)`. -/
def insert (s : OutputSet) (e : SetElement) : OutputSet :=
  ⟨KeyedSet.insert SetElement.key e s.outputs, KeyedSet.sorted_insert s.sorted⟩

/-- `OutputSet::AddRange`. -/
def addRange (s : OutputSet) (outputPort vcStart vcEnd pri : Int) : OutputSet :=
  s.insert { vcStart := vcStart, vcEnd := vcEnd, pri := pri, outputPort := outputPort }

/-- `OutputSet::GetSet`. -/
def getSet (s : OutputSet) : List SetElement := s.outputs

@[simp] theorem getSet_addRange_clear (outputPort vcStart vcEnd pri : Int) :
    (clear.addRange outputPort vcStart vcEnd pri).getSet = [⟨vcStart, vcEnd, pri, outputPort⟩] :=
  rfl

/-- `OutputSet::NumVCs`. -/
def numVCs (s : OutputSet) (outputPort : Int) : Int :=
  s.outputs.foldl (fun total i => if i.outputPort = outputPort then total + i.range else total) 0

/-- The loop of `OutputSet::GetVC`: the VC found and its priority, both `-1`
when the index runs past the last range. -/
def getVCLoop (outputPort : Int) : List SetElement → Int → Int × Int
  | [], _ => (-1, -1)
  | i :: rest, remaining =>
    if i.outputPort = outputPort then
      if remaining ≥ i.range then getVCLoop outputPort rest (remaining - i.range)
      else (i.vcStart + remaining, i.pri)
    else getVCLoop outputPort rest remaining

/-- `OutputSet::GetVC`. -/
def getVC (s : OutputSet) (outputPort vcIndex : Int) : Int :=
  (getVCLoop outputPort s.outputs vcIndex).1

/-- `AddRange` once for each call, after `Clear`. -/
def addRanges (calls : List SetElement) : OutputSet :=
  calls.foldl (fun s c => s.addRange c.outputPort c.vcStart c.vcEnd c.pri) clear

/-! ## What the set is for -/

/-- The VCs of all distinct ranges added for a port. -/
def addedVCs (calls : List SetElement) (port : Int) : List Int :=
  (calls.dedup.filter (fun c => c.outputPort = port)).flatMap SetElement.vcs

/-- `s` holds everything that `calls` added: one element for each distinct call,
`NumVCs` counts and `GetVC` enumerates the VCs added for each port, and each
port that was added is offered. -/
structure HoldsAll (calls : List SetElement) (s : OutputSet) : Prop where
  getSet : s.getSet.Perm calls.dedup
  numVCs : ∀ port, s.numVCs port = (addedVCs calls port).length
  getVC : ∀ port, ((List.range (s.numVCs port).toNat).map
    (fun i : ℕ => s.getVC port i)).Perm (addedVCs calls port)
  offered : ∀ c ∈ calls, ∃ e ∈ s.getSet, e.outputPort = c.outputPort

theorem addRanges_outputs (calls : List SetElement) :
    (addRanges calls).outputs = KeyedSet.insertAll SetElement.key calls := by
  have hfold : ∀ (cs : List SetElement) (s : OutputSet),
      (cs.foldl (fun s c => s.addRange c.outputPort c.vcStart c.vcEnd c.pri) s).outputs =
        KeyedSet.insertFrom SetElement.key s.outputs cs := by
    intro cs
    induction cs with
    | nil => intro s; rfl
    | cons c cs ih => intro s; exact ih _
  exact hfold calls clear

theorem eq_of_pri {s : OutputSet} {a b : SetElement} (ha : a ∈ s.getSet) (hb : b ∈ s.getSet)
    (hp : a.pri = b.pri) : a = b :=
  s.sorted.eq_of_key ha hb (by simp [SetElement.key, hp])

theorem mem_getSet_addRange {s : OutputSet} {port vcStart vcEnd pri : Int} {e : SetElement} :
    e ∈ (s.addRange port vcStart vcEnd pri).getSet ↔
      e ∈ s.getSet ∨ e = ⟨vcStart, vcEnd, pri, port⟩ ∧ ∀ y ∈ s.getSet, y.pri ≠ pri := by
  have hmem := KeyedSet.mem_insert (x := ⟨vcStart, vcEnd, pri, port⟩) (z := e) s.sorted
  simpa [SetElement.key, getSet, addRange, insert] using hmem

theorem mem_vcs {e : SetElement} {v : Int} : v ∈ e.vcs ↔ e.vcStart ≤ v ∧ v ≤ e.vcEnd := by
  simp only [SetElement.vcs, SetElement.range, mem_map, mem_range]
  constructor
  · rintro ⟨i, hi, rfl⟩
    omega
  · rintro ⟨hlo, hhi⟩
    exact ⟨(v - e.vcStart).toNat, by omega, by omega⟩

theorem numVCs_eq_sum (s : OutputSet) (port : Int) : s.numVCs port =
      ((s.outputs.filter (fun e => e.outputPort = port)).map SetElement.range).sum := by
  have hfold : ∀ (l : List SetElement) (t : Int),
      l.foldl (fun total i => if i.outputPort = port then total + i.range else total) t =
        t + ((l.filter (fun e => e.outputPort = port)).map SetElement.range).sum := by
    intro l
    induction l with
    | nil => intro t; simp
    | cons e l ih =>
      intro t
      by_cases he : e.outputPort = port
      · simp [he, ih, Int.add_assoc]
      · simp [he, ih]
  simpa [numVCs] using hfold s.outputs 0

theorem length_addedVCs (calls : List SetElement) (port : Int) :
    (addedVCs calls port).length = ((calls.dedup.filter (fun c => c.outputPort = port)).map
      (fun e => e.range.toNat)).sum := by
  simp [addedVCs, length_flatMap, SetElement.vcs]

/-! ## Ranges that count down

`NumVCs` adds `vc_end - vc_start + 1` as it is, so a range with
`vc_end + 1 < vc_start` is subtracted.  The two lemmas compare that sum with
the number of VCs. -/

theorem sum_range_le (l : List SetElement) :
    (l.map SetElement.range).sum ≤ ((l.map (fun e => e.range.toNat)).sum : ℕ) := by
  induction l with
  | nil => simp
  | cons e l ih =>
    have he : e.range ≤ (e.range.toNat : Int) := Int.self_le_toNat _
    simp only [map_cons, sum_cons]
    push_cast at ih ⊢
    omega

theorem sum_range_eq_iff (l : List SetElement) :
    (l.map SetElement.range).sum = ((l.map (fun e => e.range.toNat)).sum : ℕ) ↔
      ∀ e ∈ l, 0 ≤ e.range := by
  induction l with
  | nil => simp
  | cons e l ih =>
    have hle := sum_range_le l
    have he : e.range ≤ (e.range.toNat : Int) := Int.self_le_toNat _
    simp only [map_cons, sum_cons, mem_cons, forall_eq_or_imp, ← ih]
    push_cast at hle ⊢
    omega

/-- `GetVC` at the indices below the number of VCs lists the ranges of the port
one after the other. -/
theorem getVCLoop_enum (port : Int) : ∀ (l : List SetElement), (∀ e ∈ l, 0 ≤ e.range) →
    (List.range ((l.filter (fun e => e.outputPort = port)).map
        (fun e => e.range.toNat)).sum).map (fun i : ℕ => (getVCLoop port l i).1) =
      (l.filter (fun e => e.outputPort = port)).flatMap SetElement.vcs
  | [], _ => by simp
  | e :: l, h => by
    have hrest := getVCLoop_enum port l (fun x hx => h x (mem_cons_of_mem _ hx))
    by_cases he : e.outputPort = port
    · have hcast : ((e.range.toNat : ℕ) : Int) = e.range :=
        Int.toNat_of_nonneg (h e mem_cons_self)
      simp only [filter_cons, he, decide_true, if_true, map_cons, sum_cons,
        range_add, map_append, map_map, flatMap_cons]
      congr 1
      · refine map_congr_left (fun i hi => ?_)
        have hlt : ¬ ((i : Int) ≥ e.range) := by
          have := mem_range.mp hi
          omega
        simp [getVCLoop, he, hlt]
      · rw [← hrest]
        refine map_congr_left (fun i _ => ?_)
        have hge : ((e.range.toNat + i : ℕ) : Int) ≥ e.range := by push_cast; omega
        have hsub : ((e.range.toNat + i : ℕ) : Int) - e.range = i := by push_cast; omega
        simp only [Function.comp_apply, getVCLoop, he, if_true, if_pos hge, hsub]
    · simpa [getVCLoop, he, filter_cons] using hrest

/-! ## When everything added is held -/

theorem holdsAll_of_distinct {calls : List SetElement}
    (hpri : ∀ a ∈ calls, ∀ b ∈ calls, a.pri = b.pri → a = b)
    (hrange : ∀ a ∈ calls, a.vcStart ≤ a.vcEnd + 1) : HoldsAll calls (addRanges calls) := by
  have hperm : (addRanges calls).outputs.Perm calls.dedup := by
    rw [addRanges_outputs]
    refine KeyedSet.insertAll_perm_dedup (fun a ha b hb hk => hpri a ha b hb ?_)
    simpa [SetElement.key] using hk
  have hnonneg : ∀ e ∈ (addRanges calls).outputs, 0 ≤ e.range := by
    intro e he
    have := hrange e (mem_dedup.mp (hperm.mem_iff.mp he))
    simp only [SetElement.range]
    omega
  have hnum : ∀ port, (addRanges calls).numVCs port =
      ((((addRanges calls).outputs.filter (fun e => e.outputPort = port)).map
        (fun e => e.range.toNat)).sum : ℕ) := by
    intro port
    rw [numVCs_eq_sum, sum_range_eq_iff]
    exact fun e he => hnonneg e (mem_of_mem_filter he)
  refine ⟨hperm, fun port => ?_, fun port => ?_, fun c hc => ?_⟩
  · rw [hnum, length_addedVCs, ((hperm.filter _).map _).sum_eq]
  · rw [hnum, Int.toNat_natCast]
    simp only [getVC]
    rw [getVCLoop_enum port _ hnonneg]
    exact (hperm.filter _).flatMap_right _
  · exact ⟨c, hperm.mem_iff.mpr (mem_dedup.mpr hc), rfl⟩

/-- An `OutputSet` holds everything that was added to it exactly when no two
different ranges were added with one priority and no added range counts down. -/
theorem addRanges_holdsAll_iff (calls : List SetElement) : HoldsAll calls (addRanges calls) ↔
      (∀ a ∈ calls, ∀ b ∈ calls, a.pri = b.pri → a = b) ∧
        (∀ a ∈ calls, a.vcStart ≤ a.vcEnd + 1) := by
  constructor
  · intro h
    have hmem : ∀ a ∈ calls, a ∈ (addRanges calls).getSet := fun a ha =>
      h.getSet.mem_iff.mpr (mem_dedup.mpr ha)
    refine ⟨fun a ha b hb hp => eq_of_pri (hmem a ha) (hmem b hb) hp, fun a ha => ?_⟩
    have hperm : (addRanges calls).outputs.Perm calls.dedup := h.getSet
    have hnum := h.numVCs a.outputPort
    rw [numVCs_eq_sum, length_addedVCs, ((hperm.filter _).map _).sum_eq, sum_range_eq_iff] at hnum
    have := hnum a (by simp [mem_filter, ha])
    simp only [SetElement.range] at this
    omega
  · rintro ⟨hpri, hrange⟩
    exact holdsAll_of_distinct hpri hrange

/-- Two ports at one priority, as a routing function with several minimal ports
adds them: the second is not offered. -/
theorem addRanges_equal_pri_lost :
    ¬ HoldsAll [⟨0, 3, 0, 5⟩, ⟨0, 3, 0, 6⟩] (addRanges [⟨0, 3, 0, 5⟩, ⟨0, 3, 0, 6⟩]) := by
  intro h
  obtain ⟨e, he, hport⟩ := h.offered ⟨0, 3, 0, 6⟩ (by decide)
  have hset : (addRanges [⟨0, 3, 0, 5⟩, ⟨0, 3, 0, 6⟩]).getSet = [⟨0, 3, 0, 5⟩] := by decide
  rw [hset, mem_singleton] at he
  subst he
  exact absurd hport (by decide)

end OutputSet
end BookSim
