/-
# Arbiter — one of several requests

An arbiter gathers requests, selects one of them, and remembers something, a pointer or a matrix,
from which later selections start.  `Arbiter` is the class with its virtual functions; a tree of
arbiters has others of the same kind inside, and all of them are among its parts.

    Gathers     some requests have been made, and nothing was selected yet
    Decided     one of them is selected
    Laws        what every arbiter does with these, whatever its kind

The request that is selected has the highest priority, and what the arbiter remembers changes in
`UpdateState` only, in those parts that selected the same.
-/
import BookSim.Flit
import BookSim.Lib.Fallible
import BookSim.Lib.Table

namespace BookSim

open Function (update update_apply update_of_ne)

/-- A request; `none` in the table of an arbiter stands for one that is not valid. -/
structure ArbEntry where
  id : ℤ
  pri : ℤ

abbrev Entries := ℤ → Option ArbEntry

/-- What an arbiter remembers from one selection to the next. -/
inductive Memory
  | pointer (p : ℤ)
  | matrix (m : ℤ → ℤ → Bool)

/-! ## The class -/

/-- The virtual functions of the class.  `arbitrate` gives the input it selects, or `-1`, and what
it writes to `*id` and `*pri`, if anything.  The last three are for speaking about an arbiter: its
parts, what each of them remembers, and the input of the whole that the selection of a part stands
for. -/
structure Arbiter where
  State : Type
  new : ℕ → Except Fault State
  addRequest : State → ℤ → ArbEntry → Except Fault State
  arbitrate : State → Except Fault (State × ℤ × Option ArbEntry)
  updateState : State → Except Fault State
  clear : State → State
  numReqs : State → ℕ
  lastWinner : State → ℤ
  Part : Type
  memory : State → Part → Memory
  choice : State → Part → ℤ

/-- The input with the highest priority, or one of them; `-1` when nothing was requested. -/
def Winner (r : Entries) (w : ℤ) : Prop :=
  (w = -1 ∧ ∀ i, r i = none) ∨ ∃ e, r w = some e ∧ ∀ i e', r i = some e' → e'.pri ≤ e.pri

theorem Winner.eq_neg_one {r : Entries} {w : ℤ} (h : Winner r w) (hempty : ∀ i, r i = none) :
    w = -1 := by
  rcases h with ⟨hw, -⟩ | ⟨e, he, -⟩
  · exact hw
  · rw [hempty w] at he
    cases he

/-- The requests are made at inputs of an arbiter of size `n`. -/
def Entries.Within (r : Entries) (n : ℕ) : Prop := ∀ i, (r i).isSome = true → i ∈ below n

structure Arbiter.Laws (A : Arbiter) where
  Gathers : ℕ → Entries → A.State → Prop
  Decided : ℕ → Entries → ℤ → A.State → Prop
  within : ∀ {n r s}, Gathers n r s → r.Within n
  numReqs : ∀ {n r s}, (Gathers n r s ∨ ∃ w, Decided n r w s) → (A.numReqs s = 0 ↔ ∀ i, r i = none)
  new : ∀ {n s}, A.new n = .ok s → Gathers n (fun _ => none) s
  addRequest : ∀ {n r s i} (e : ArbEntry), Gathers n r s → i ∈ below n → r i = none →
    ∃ s', A.addRequest s i e = .ok s' ∧ Gathers n (update r i (some e)) s' ∧
      A.memory s' = A.memory s
  arbitrate : ∀ {n r s}, Gathers n r s →
    ∃ s' w, A.arbitrate s = .ok (s', w, r w) ∧ Decided n r w s' ∧ Winner r w ∧
      A.memory s' = A.memory s
  lastWinner : ∀ {n r w s}, Decided n r w s → A.lastWinner s = w
  updateState : ∀ {n r w s}, Decided n r w s → ∃ s', A.updateState s = .ok s' ∧ Decided n r w s' ∧
      ∀ p, A.memory s' p ≠ A.memory s p → A.choice s' p = w
  clear : ∀ {n r s}, (Gathers n r s ∨ ∃ w, Decided n r w s) →
    Gathers n (fun _ => none) (A.clear s) ∧ A.memory (A.clear s) = A.memory s
  idle : ∀ {n w s}, Decided n (fun _ => none) w s → Gathers n (fun _ => none) s

/-! ## The base class -/

structure ArbiterBase where
  size : ℕ
  request : Entries := fun _ => none
  selected : ℤ := -1
  numReqs : ℕ := 0

namespace ArbiterBase

def addRequest (b : ArbiterBase) (input : ℤ) (e : ArbEntry) : Except Fault ArbiterBase := do
  require (.assertion "0 <= input && input < _size") (0 ≤ input ∧ input < b.size)
  require (.assertion "!_request[input].valid") (b.request input).isNone
  return { b with numReqs := b.numReqs + 1, request := update b.request input (some e) }

theorem addRequest_swap {b b₁ b₂ : ArbiterBase} {i j : ℤ} {e e' : ArbEntry} (hne : i ≠ j)
    (h₁ : b.addRequest i e = .ok b₁) (h₂ : b₁.addRequest j e' = .ok b₂) :
    (∃ b₁', b.addRequest j e' = .ok b₁' ∧ b₁'.addRequest i e = .ok b₂) ∧
      b₂.numReqs = b.numReqs + 2 := by
  obtain ⟨hi, h₁⟩ := require_ok.mp h₁
  obtain ⟨hfree, rfl⟩ := require_return_ok.mp h₁
  obtain ⟨hj, h₂⟩ := require_ok.mp h₂
  obtain ⟨hfree', rfl⟩ := require_return_ok.mp h₂
  dsimp only at hfree'
  rw [update_of_ne hne.symm] at hfree'
  refine ⟨⟨_, (require_bind hj _).trans (require_bind hfree' _), ?_⟩, rfl⟩
  have hfree'' : (update b.request j (some e') i).isNone = true := by
    rwa [update_of_ne hne]
  have hcomm : update (update b.request j (some e')) i (some e) =
      update (update b.request i (some e)) j (some e') := Function.update_comm hne.symm _ _ _
  rw [ArbiterBase.addRequest, require_bind hi, require_bind hfree'', hcomm]
  rfl

/-- What the functions of the derived classes end with. -/
def arbitrate (b : ArbiterBase) : Except Fault (ℤ × Option ArbEntry) := do
  require (.assertion "(_selected >= 0) || (_num_reqs == 0)") (0 ≤ b.selected ∨ b.numReqs = 0)
  return (b.selected, b.request b.selected)

def clear (b : ArbiterBase) : ArbiterBase :=
  if b.numReqs > 0 then { b with request := fun _ => none, numReqs := 0, selected := -1 } else b

/-- The requests are `r`, and are counted. -/
structure Holds (b : ArbiterBase) (n : ℕ) (r : Entries) : Prop where
  size : b.size = n
  request : b.request = r
  within : r.Within n
  count : b.numReqs = ({i ∈ below n | (r i).isSome = true} : Finset ℤ).card

namespace Holds

variable {b : ArbiterBase} {n : ℕ} {r : Entries} {i w : ℤ} {e : ArbEntry}

theorem new (n : ℕ) : Holds { size := n } n (fun _ => none) where
  size := rfl
  request := rfl
  within _ h := by cases h
  count := by simp

theorem numReqs_eq_zero (h : b.Holds n r) : b.numReqs = 0 ↔ ∀ i, r i = none := by
  rw [h.count, Finset.card_eq_zero, Finset.filter_eq_empty_iff]
  constructor
  · intro hnone i
    by_contra hne
    have hsome := Option.isSome_iff_ne_none.mpr hne
    exact hnone (h.within i hsome) hsome
  · intro hnone i _ hsome
    rw [hnone i] at hsome
    cases hsome

theorem addRequest (h : b.Holds n r) (hi : i ∈ below n) (hfree : r i = none) (e : ArbEntry) :
    ∃ b', b.addRequest i e = .ok b' ∧ b'.Holds n (update r i (some e)) ∧ b'.selected = b.selected ∧
      b'.numReqs ≠ 0 := by
  have hrange : 0 ≤ i ∧ i < b.size := by
    rw [h.size]
    exact mem_below.mp hi
  have hvalid : (b.request i).isNone = true := by
    rw [h.request, hfree]
    rfl
  refine ⟨_, (require_bind hrange _).trans (require_bind hvalid _), ⟨h.size, ?_, ?_, ?_⟩, rfl,
    Nat.succ_ne_zero _⟩
  · show update b.request i (some e) = _
    rw [h.request]
  · intro j hj
    rw [update_apply] at hj
    split at hj
    · next heq => exact heq ▸ hi
    · exact h.within j hj
  · show b.numReqs + 1 = _
    have hinsert : ({j ∈ below n | (update r i (some e) j).isSome = true} : Finset ℤ) =
        insert i ({j ∈ below n | (r j).isSome = true} : Finset ℤ) := by
      ext j
      simp only [Finset.mem_filter, Finset.mem_insert, update_apply]
      by_cases heq : j = i
      · simp [heq, hi]
      · simp [heq]
    rw [hinsert, Finset.card_insert_of_notMem, h.count]
    intro hmem
    have := (Finset.mem_filter.mp hmem).2
    rw [hfree] at this
    cases this

theorem addRequest_eq_ok {b' : ArbiterBase} (h : b.Holds n r) (hadd : b.addRequest i e = .ok b') :
    i ∈ below n ∧ r i = none := by
  obtain ⟨hrange, hadd⟩ := require_ok.mp hadd
  obtain ⟨hvalid, -⟩ := require_ok.mp hadd
  rw [h.size] at hrange
  rw [h.request, Option.isNone_iff_eq_none] at hvalid
  exact ⟨mem_below.mpr hrange, hvalid⟩

theorem winner_nonneg (h : b.Holds n r) (hw : Winner r w) : 0 ≤ w ∨ b.numReqs = 0 := by
  rcases hw with ⟨-, hnone⟩ | ⟨e, he, -⟩
  · exact .inr (h.numReqs_eq_zero.mpr hnone)
  · exact .inl (mem_below.mp (h.within w (by rw [he]; rfl))).1

theorem arbitrate (h : b.Holds n r) (hw : Winner r w) :
    ArbiterBase.arbitrate { b with selected := w } = .ok (w, r w) := by
  rw [← h.request]
  exact require_bind (h.winner_nonneg hw) _

theorem select (h : b.Holds n r) (w : ℤ) : Holds { b with selected := w } n r :=
  ⟨h.size, h.request, h.within, h.count⟩

theorem clear (h : b.Holds n r) (hselected : b.numReqs = 0 → b.selected = -1) :
    b.clear.Holds n (fun _ => none) ∧ b.clear.selected = -1 := by
  unfold ArbiterBase.clear
  split
  · refine ⟨⟨h.size, rfl, fun i hi => ?_, ?_⟩, rfl⟩
    · cases hi
    · simp
  · next hzero =>
      have hnone := Nat.eq_zero_of_not_pos hzero
      have hempty : r = fun _ => none := funext (h.numReqs_eq_zero.mp hnone)
      exact ⟨hempty ▸ h, hselected hnone⟩

end Holds

end ArbiterBase

end BookSim
