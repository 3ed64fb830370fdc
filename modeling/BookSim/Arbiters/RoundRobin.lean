/-
# RoundRobin — from a pointer on

The round-robin arbiter keeps the best request while they come in: the one with the highest
priority, and among those that have it the first from the pointer on.
-/
import BookSim.Allocators.Allocator
import BookSim.Arbiters.Arbiter

namespace BookSim

open Function (update)

structure RoundRobinState where
  base : ArbiterBase
  highestPri : ℤ := -2 ^ 31
  bestInput : ℤ := -1
  pointer : ℤ := 0

namespace RoundRobinState

def addRequest (s : RoundRobinState) (input : ℤ) (e : ArbEntry) : Except Fault RoundRobinState := do
  let better : Bool :=
    match s.base.request input with
    | none => true
    | some old => old.pri < e.pri
  let s' :=
    if better ∧ (s.base.numReqs = 0 ∨
        supersedes input e.pri s.bestInput s.highestPri s.pointer s.base.size) then
      { s with highestPri := e.pri, bestInput := input }
    else s
  let base ← s.base.addRequest input e
  return { s' with base := base }

def arbitrate (s : RoundRobinState) : Except Fault (RoundRobinState × ℤ × Option ArbEntry) := do
  let s' := { s with base := { s.base with selected := s.bestInput } }
  let (input, entry) ← s'.base.arbitrate
  return (s', input, entry)

def updateState (s : RoundRobinState) : RoundRobinState :=
  if s.base.selected > -1 then { s with pointer := (s.base.selected + 1) % s.base.size } else s

def clear (s : RoundRobinState) : RoundRobinState :=
  { s with highestPri := -2 ^ 31, bestInput := -1, base := s.base.clear }

/-- The best request so far. -/
def Best (r : Entries) (highestPri bestInput : ℤ) : Prop :=
  (bestInput = -1 ∧ ∀ i, r i = none) ∨ ∃ e, r bestInput = some e ∧ e.pri = highestPri ∧
    ∀ i e', r i = some e' → e'.pri ≤ highestPri

theorem Best.winner {r : Entries} {highestPri bestInput : ℤ} (h : Best r highestPri bestInput) :
    Winner r bestInput := by
  refine h.imp_right fun ⟨e, he, hpri, hbest⟩ => ⟨e, he, ?_⟩
  rwa [hpri]

structure Gathers (n : ℕ) (r : Entries) (s : RoundRobinState) : Prop where
  holds : s.base.Holds n r
  selected : s.base.selected = -1
  best : Best r s.highestPri s.bestInput

structure Decided (n : ℕ) (r : Entries) (w : ℤ) (s : RoundRobinState) : Prop where
  holds : s.base.Holds n r
  selected : s.base.selected = w
  best : Best r s.highestPri w
  kept : s.bestInput = w

variable {n : ℕ} {r : Entries} {s : RoundRobinState} {i w : ℤ} {e : ArbEntry}

theorem Gathers.addRequest (h : s.Gathers n r) (hi : i ∈ below n) (hfree : r i = none)
    (e : ArbEntry) : ∃ s', s.addRequest i e = .ok s' ∧ s'.Gathers n (update r i (some e)) ∧
      s'.pointer = s.pointer := by
  obtain ⟨base, hbase, hholds, hselected, -⟩ := h.holds.addRequest hi hfree e
  have hnone : s.base.request i = none := by rw [h.holds.request, hfree]
  have hother : ∀ {j e'}, update r i (some e) j = some e' → e' = e ∨ r j = some e' := by
    intro j e' hj
    rw [Function.update_apply] at hj
    split at hj
    · exact .inl (Option.some.inj hj).symm
    · exact .inr hj
  by_cases hnew : s.base.numReqs = 0 ∨
      supersedes i e.pri s.bestInput s.highestPri s.pointer s.base.size = true
  · refine ⟨{ s with highestPri := e.pri, bestInput := i, base := base }, ?_,
      ⟨hholds, hselected.trans h.selected, .inr ⟨e, Function.update_self .., rfl, ?_⟩⟩, rfl⟩
    · simp only [RoundRobinState.addRequest, hnone, hnew, and_true, if_true, hbase]
      rfl
    · intro j e' hj
      rcases hother hj with rfl | hj
      · exact le_rfl
      · rcases h.best with ⟨-, hempty⟩ | ⟨-, -, -, hbest⟩
        · rw [hempty j] at hj
          cases hj
        · rcases hnew with hzero | hsupersedes
          · rw [h.holds.numReqs_eq_zero.mp hzero j] at hj
            cases hj
          · have hle := hbest j e' hj
            simp only [supersedes, Bool.or_eq_true, decide_eq_true_eq,
              Bool.and_eq_true] at hsupersedes
            show e'.pri ≤ e.pri
            omega
  · refine ⟨{ s with base := base }, ?_, ⟨hholds, hselected.trans h.selected, .inr ?_⟩, rfl⟩
    · simp only [RoundRobinState.addRequest, hnone, hnew, and_false, if_false, hbase]
      rfl
    · obtain ⟨hcount, hsupersedes⟩ := not_or.mp hnew
      rcases h.best with ⟨-, hempty⟩ | ⟨e₀, he₀, hpri, hbest⟩
      · exact absurd (h.holds.numReqs_eq_zero.mpr hempty) hcount
      · have hne : s.bestInput ≠ i := by
          rintro heq
          rw [heq, hfree] at he₀
          cases he₀
        refine ⟨e₀, (Function.update_of_ne hne ..).trans he₀, hpri, fun j e' hj => ?_⟩
        rcases hother hj with rfl | hj
        · simp only [supersedes, Bool.or_eq_true, decide_eq_true_eq, not_or] at hsupersedes
          exact not_lt.mp hsupersedes.1
        · exact hbest j e' hj

theorem Gathers.arbitrate (h : s.Gathers n r) :
    s.arbitrate = .ok ({ s with base := { s.base with selected := s.bestInput } }, s.bestInput,
      r s.bestInput) := by
  unfold RoundRobinState.arbitrate
  dsimp only
  rw [h.holds.arbitrate h.best.winner]
  rfl

theorem updateState_eq (s : RoundRobinState) :
    s.updateState = { s with pointer := s.updateState.pointer } := by
  unfold updateState
  split <;> rfl

theorem clear_gathers (h : s.base.Holds n r)
    (hselected : s.base.numReqs = 0 → s.base.selected = -1) : s.clear.Gathers n (fun _ => none) :=
  ⟨(h.clear hselected).1, (h.clear hselected).2, .inl ⟨rfl, fun _ => rfl⟩⟩

end RoundRobinState

/-- `RoundRobinArbiter`. -/
def Arbiter.roundRobin : Arbiter where
  State := RoundRobinState
  new size := .ok { base := { size := size } }
  addRequest := RoundRobinState.addRequest
  arbitrate := RoundRobinState.arbitrate
  updateState s := .ok s.updateState
  clear := RoundRobinState.clear
  numReqs s := s.base.numReqs
  lastWinner s := s.base.selected
  Part := Unit
  memory s _ := .pointer s.pointer
  choice s _ := s.base.selected

open RoundRobinState in
def Arbiter.roundRobinLaws : Arbiter.roundRobin.Laws where
  Gathers n r s := RoundRobinState.Gathers n r s
  Decided n r w s := RoundRobinState.Decided n r w s
  within h := h.holds.within
  numReqs h := by
    rcases h with h | ⟨w, h⟩
    · exact h.holds.numReqs_eq_zero
    · exact h.holds.numReqs_eq_zero
  new h := by
    obtain rfl := Except.ok.inj h
    exact ⟨.new _, rfl, .inl ⟨rfl, fun _ => rfl⟩⟩
  addRequest e h hi hfree := by
    obtain ⟨s', hadd, hs', hpointer⟩ := h.addRequest hi hfree e
    exact ⟨s', hadd, hs', funext fun _ => congrArg Memory.pointer hpointer⟩
  arbitrate h := ⟨_, _, h.arbitrate, ⟨h.holds.select _, rfl, h.best, rfl⟩, h.best.winner, rfl⟩
  lastWinner h := h.selected
  updateState {n r w s} h := by
    have hsame := updateState_eq s
    refine ⟨_, rfl, ?_, fun _ _ => ?_⟩
    · rw [hsame]
      exact ⟨h.holds, h.selected, h.best, h.kept⟩
    · exact (congrArg (·.base.selected) hsame).trans h.selected
  clear h := by
    refine ⟨?_, rfl⟩
    rcases h with h | ⟨w, h⟩
    · exact clear_gathers h.holds fun _ => h.selected
    · refine clear_gathers h.holds fun hzero => ?_
      rw [h.selected]
      exact h.best.winner.eq_neg_one (h.holds.numReqs_eq_zero.mp hzero)
  idle h := by
    have hw := h.best.winner.eq_neg_one fun _ => rfl
    exact ⟨h.holds, h.selected.trans hw, .inl ⟨h.kept.trans hw, fun _ => rfl⟩⟩

end BookSim
