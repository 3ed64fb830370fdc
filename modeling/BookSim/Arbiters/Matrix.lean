/-
# Matrix — who has won less recently

The matrix arbiter keeps for every two inputs which of them comes first.  Whoever wins comes after
all others from then on, so that the matrix is always an order (`Ranking`), and among the requests
with the highest priority there is always one that no other comes before.
-/
import BookSim.Arbiters.Arbiter

namespace BookSim

open Function (update)

structure MatrixState where
  base : ArbiterBase
  matrix : ℤ → ℤ → Bool := fun i j => j < i
  lastReq : ℤ := -1

namespace MatrixState

def addRequest (s : MatrixState) (input : ℤ) (e : ArbEntry) : Except Fault MatrixState := do
  let base ← s.base.addRequest input e
  return { s with lastReq := input, base := base }

/-- The request of `i` comes before the request `e` of `input`. -/
def outranks (s : MatrixState) (i input : ℤ) (e : ArbEntry) : Bool :=
  match s.base.request i with
  | none => false
  | some e' => (e'.pri = e.pri && s.matrix i input) || e'.pri > e.pri

def grants (s : MatrixState) (input : ℤ) : Bool :=
  match s.base.request input with
  | none => false
  | some e => (indices s.base.size).all fun i => !s.outranks i input e

/-- `_selected` in `Arbitrate`; fewer than two requests are not compared. -/
def select (s : MatrixState) : ℤ :=
  if s.base.numReqs < 2 then s.lastReq else ((indices s.base.size).find? s.grants).getD (-1)

def arbitrate (s : MatrixState) : Except Fault (MatrixState × ℤ × Option ArbEntry) := do
  let s' := { s with base := { s.base with selected := s.select } }
  let (input, entry) ← s'.base.arbitrate
  return (s', input, entry)

/-- `w` comes after all others. -/
def demote (matrix : ℤ → ℤ → Bool) (w : ℤ) : ℤ → ℤ → Bool := fun i j =>
  if i = w ∧ j ≠ w then false else if j = w ∧ i ≠ w then true else matrix i j

def updateState (s : MatrixState) : MatrixState :=
  if s.base.selected > -1 then { s with matrix := demote s.matrix s.base.selected } else s

def clear (s : MatrixState) : MatrixState := { s with lastReq := -1, base := s.base.clear }

/-- The matrix is an order. -/
structure Ranking (matrix : ℤ → ℤ → Bool) : Prop where
  irrefl : ∀ i, matrix i i = false
  trans : ∀ i j k, matrix i j = true → matrix j k = true → matrix i k = true

theorem ranking_new : Ranking fun i j => j < i where
  irrefl i := by simp
  trans i j k hij hjk := by
    simp only [decide_eq_true_eq] at hij hjk ⊢
    omega

theorem Ranking.demote {matrix : ℤ → ℤ → Bool} (h : Ranking matrix) (w : ℤ) :
    Ranking (demote matrix w) where
  irrefl i := by
    unfold MatrixState.demote
    rw [if_neg (fun hi => hi.2 hi.1), if_neg (fun hi => hi.2 hi.1)]
    exact h.irrefl i
  trans i j k hij hjk := by
    unfold MatrixState.demote at hij hjk ⊢
    by_cases hi : i = w
    · simp_all
    · by_cases hk : k = w
      · simp [hi, hk]
      · by_cases hj : j = w
        · simp [hj, hk] at hjk
        · simp only [hi, hj, hk, false_and, if_false] at hij hjk ⊢
          exact h.trans i j k hij hjk

structure Gathers (n : ℕ) (r : Entries) (s : MatrixState) : Prop where
  holds : s.base.Holds n r
  selected : s.base.selected = -1
  ranking : Ranking s.matrix
  last : (∀ i, r i = none) ∧ s.lastReq = -1 ∨ (r s.lastReq).isSome = true

structure Decided (n : ℕ) (r : Entries) (w : ℤ) (s : MatrixState) : Prop where
  holds : s.base.Holds n r
  selected : s.base.selected = w
  ranking : Ranking s.matrix
  last : (∀ i, r i = none) ∧ s.lastReq = -1 ∨ (r s.lastReq).isSome = true
  winner : Winner r w

theorem exists_unbeaten {α : Type*} {beats : α → α → Prop} (hirrefl : ∀ x, ¬ beats x x)
    (htrans : ∀ x y z, beats x y → beats y z → beats x z) {s : Finset α} (hs : s.Nonempty) :
    ∃ x ∈ s, ∀ y ∈ s, ¬ beats y x := by
  induction hs using Finset.Nonempty.cons_induction with
  | singleton a =>
    refine ⟨a, Finset.mem_singleton_self a, fun y hy => ?_⟩
    rw [Finset.mem_singleton.mp hy]
    exact hirrefl a
  | cons a s ha hs ih =>
    obtain ⟨x, hx, hbest⟩ := ih
    by_cases hax : beats a x
    · refine ⟨a, Finset.mem_cons_self a s, fun y hy hya => ?_⟩
      rcases Finset.mem_cons.mp hy with rfl | hy
      · exact hirrefl y hya
      · exact hbest y hy (htrans y a x hya hax)
    · refine ⟨x, Finset.mem_cons_of_mem hx, fun y hy => ?_⟩
      rcases Finset.mem_cons.mp hy with rfl | hy
      · exact hax
      · exact hbest y hy

variable {n : ℕ} {r : Entries} {s : MatrixState} {i w : ℤ} {e : ArbEntry}

theorem outranks_iff (h : s.base.Holds n r) : s.outranks i w e = true ↔
    ∃ e', r i = some e' ∧ (e'.pri > e.pri ∨ e'.pri = e.pri ∧ s.matrix i w = true) := by
  unfold outranks
  rw [h.request]
  cases r i with
  | none => simp
  | some e' => simp [or_comm]

theorem grants_iff (h : s.base.Holds n r) : s.grants w = true ↔
    ∃ e, r w = some e ∧ ∀ i, s.outranks i w e = false := by
  have hall : ∀ e, ((indices s.base.size).all fun i => !s.outranks i w e) = true ↔
      ∀ i, s.outranks i w e = false := by
    intro e
    simp only [List.all_eq_true, mem_indices, Bool.not_eq_true']
    refine ⟨fun hall i => ?_, fun hall i _ => hall i⟩
    by_contra houtranks
    obtain ⟨e', he', -⟩ := (outranks_iff h).mp (by simpa using houtranks)
    have hi := h.within i (by rw [he']; rfl)
    exact houtranks (hall i (by rwa [h.size]))
  unfold grants
  rw [h.request]
  cases r w with
  | none => simp
  | some e => simp [hall]

theorem exists_grants (h : s.base.Holds n r) (hranking : Ranking s.matrix)
    (hcount : s.base.numReqs ≠ 0) : ∃ w ∈ below n, s.grants w = true := by
  let beats : ℤ → ℤ → Prop := fun i j => ∃ e, r j = some e ∧ s.outranks i j e = true
  have hbeats : ∀ {i j}, beats i j ↔ ∃ e' e, r i = some e' ∧ r j = some e ∧
      (e'.pri > e.pri ∨ e'.pri = e.pri ∧ s.matrix i j = true) := by
    intro i j
    constructor
    · rintro ⟨e, he, houtranks⟩
      obtain ⟨e', he', hbetter⟩ := (outranks_iff h).mp houtranks
      exact ⟨e', e, he', he, hbetter⟩
    · rintro ⟨e', e, he', he, hbetter⟩
      exact ⟨e, he, (outranks_iff h).mpr ⟨e', he', hbetter⟩⟩
  have hirrefl : ∀ i, ¬ beats i i := by
    intro i hi
    obtain ⟨e', e, he', he, hbetter⟩ := hbeats.mp hi
    obtain rfl := Option.some.inj (he'.symm.trans he)
    rw [hranking.irrefl] at hbetter
    simp at hbetter
  have htrans : ∀ i j k, beats i j → beats j k → beats i k := by
    intro i j k hij hjk
    obtain ⟨e₁, e₂, he₁, he₂, hij⟩ := hbeats.mp hij
    obtain ⟨e₂', e₃, he₂', he₃, hjk⟩ := hbeats.mp hjk
    obtain rfl := Option.some.inj (he₂.symm.trans he₂')
    refine hbeats.mpr ⟨e₁, e₃, he₁, he₃, ?_⟩
    rcases hij with hij | ⟨hij, hij'⟩
    · left
      rcases hjk with hjk | ⟨hjk, -⟩ <;> omega
    · rcases hjk with hjk | ⟨hjk, hjk'⟩
      · left
        omega
      · exact .inr ⟨hij.trans hjk, hranking.trans i j k hij' hjk'⟩
  have hsome : ({i ∈ below n | (r i).isSome = true} : Finset ℤ).Nonempty := by
    rw [← Finset.card_pos, ← h.count]
    exact Nat.pos_of_ne_zero hcount
  obtain ⟨w, hw, hbest⟩ := exists_unbeaten hirrefl htrans hsome
  obtain ⟨hw, hsome⟩ := Finset.mem_filter.mp hw
  obtain ⟨e, he⟩ := Option.isSome_iff_exists.mp hsome
  refine ⟨w, hw, (grants_iff h).mpr ⟨e, he, fun i => ?_⟩⟩
  by_contra houtranks
  rw [Bool.not_eq_false] at houtranks
  obtain ⟨e', he', -⟩ := (outranks_iff h).mp houtranks
  have hi : (r i).isSome = true := by
    rw [he']
    rfl
  exact hbest i (Finset.mem_filter.mpr ⟨h.within i hi, hi⟩) ⟨e, he, houtranks⟩

theorem unbeaten_select (h : s.base.Holds n r) (hranking : Ranking s.matrix)
    (hlast : (∀ i, r i = none) ∧ s.lastReq = -1 ∨ (r s.lastReq).isSome = true) :
    (s.select = -1 ∧ ∀ i, r i = none) ∨
      ∃ e, r s.select = some e ∧ ∀ i, s.outranks i s.select e = false := by
  unfold select
  split
  · next hfew =>
      rcases hlast with ⟨hnone, hlast⟩ | hlast
      · exact .inl ⟨hlast, hnone⟩
      · -- the request that came last is the only one
        obtain ⟨e, he⟩ := Option.isSome_iff_exists.mp hlast
        refine .inr ⟨e, he, fun i => ?_⟩
        by_contra houtranks
        obtain ⟨e', he', hbetter⟩ := (outranks_iff h).mp (by simpa using houtranks)
        have hi : (r i).isSome = true := by
          rw [he']
          rfl
        have hcard := Nat.le_of_lt_succ hfew
        rw [h.count] at hcard
        have heq := Finset.card_le_one.mp hcard i (Finset.mem_filter.mpr ⟨h.within i hi, hi⟩)
          s.lastReq (Finset.mem_filter.mpr ⟨h.within _ hlast, hlast⟩)
        rw [heq, he] at he'
        rw [heq, hranking.irrefl, Option.some.inj he'] at hbetter
        simp at hbetter
  · next hmany =>
      obtain ⟨w, hw, hgrants⟩ := exists_grants h hranking (by omega)
      cases hfind : (indices s.base.size).find? s.grants with
      | none =>
        refine absurd hgrants (List.find?_eq_none.mp hfind w (mem_indices.mpr ?_))
        rwa [h.size]
      | some w' => exact .inr ((grants_iff h).mp (List.find?_some hfind))

theorem Gathers.winner (h : s.Gathers n r) : Winner r s.select := by
  refine (unbeaten_select h.holds h.ranking h.last).imp_right fun ⟨e, he, hall⟩ => ?_
  refine ⟨e, he, fun i e' he' => not_lt.mp fun hlt => ?_⟩
  have := (outranks_iff (w := s.select) (e := e) h.holds).mpr ⟨e', he', .inl hlt⟩
  rw [hall i] at this
  cases this

theorem updateState_eq (s : MatrixState) :
    s.updateState = { s with matrix := s.updateState.matrix } := by
  unfold updateState
  split <;> rfl

theorem Ranking.updateState (h : Ranking s.matrix) : Ranking s.updateState.matrix := by
  unfold MatrixState.updateState
  split
  · exact h.demote _
  · exact h

theorem Gathers.addRequest (h : s.Gathers n r) (hi : i ∈ below n) (hfree : r i = none)
    (e : ArbEntry) :
    ∃ s', s.addRequest i e = .ok s' ∧ s'.Gathers n (update r i (some e)) ∧
      s'.matrix = s.matrix := by
  obtain ⟨base, hbase, hholds, hselected, -⟩ := h.holds.addRequest hi hfree e
  refine ⟨_, bind_ok.mpr ⟨base, hbase, rfl⟩, ⟨hholds, hselected.trans h.selected, h.ranking,
    .inr ?_⟩, rfl⟩
  show (update r i (some e) i).isSome = true
  rw [Function.update_self]
  rfl

theorem Gathers.arbitrate (h : s.Gathers n r) :
    s.arbitrate = .ok ({ s with base := { s.base with selected := s.select } }, s.select,
      r s.select) := by
  unfold MatrixState.arbitrate
  dsimp only
  rw [h.holds.arbitrate h.winner]
  rfl

theorem clear_gathers (h : s.base.Holds n r) (hselected : s.base.numReqs = 0 → s.base.selected = -1)
    (hranking : Ranking s.matrix) : s.clear.Gathers n (fun _ => none) :=
  ⟨(h.clear hselected).1, (h.clear hselected).2, hranking, .inl ⟨fun _ => rfl, rfl⟩⟩

end MatrixState

/-- `MatrixArbiter`. -/
def Arbiter.matrix : Arbiter where
  State := MatrixState
  new size := .ok { base := { size := size } }
  addRequest := MatrixState.addRequest
  arbitrate := MatrixState.arbitrate
  updateState s := .ok s.updateState
  clear := MatrixState.clear
  numReqs s := s.base.numReqs
  lastWinner s := s.base.selected
  Part := Unit
  memory s _ := .matrix s.matrix
  choice s _ := s.base.selected

open MatrixState in
def Arbiter.matrixLaws : Arbiter.matrix.Laws where
  Gathers n r s := MatrixState.Gathers n r s
  Decided n r w s := MatrixState.Decided n r w s
  within h := h.holds.within
  numReqs h := by
    rcases h with h | ⟨w, h⟩
    · exact h.holds.numReqs_eq_zero
    · exact h.holds.numReqs_eq_zero
  new h := by
    obtain rfl := Except.ok.inj h
    exact ⟨.new _, rfl, ranking_new, .inl ⟨fun _ => rfl, rfl⟩⟩
  addRequest e h hi hfree := by
    obtain ⟨s', hadd, hs', hmatrix⟩ := h.addRequest hi hfree e
    exact ⟨s', hadd, hs', funext fun _ => congrArg Memory.matrix hmatrix⟩
  arbitrate h :=
    ⟨_, _, h.arbitrate, ⟨h.holds.select _, rfl, h.ranking, h.last, h.winner⟩, h.winner, rfl⟩
  lastWinner h := h.selected
  updateState {n r w s} h := by
    have hsame := updateState_eq s
    refine ⟨_, rfl, ?_, fun _ _ => ?_⟩
    · rw [hsame]
      exact ⟨h.holds, h.selected, h.ranking.updateState, h.last, h.winner⟩
    · exact (congrArg (·.base.selected) hsame).trans h.selected
  clear h := by
    refine ⟨?_, rfl⟩
    rcases h with h | ⟨w, h⟩
    · exact clear_gathers h.holds (fun _ => h.selected) h.ranking
    · refine clear_gathers h.holds (fun hzero => ?_) h.ranking
      rw [h.selected]
      exact h.winner.eq_neg_one (h.holds.numReqs_eq_zero.mp hzero)
  idle h := ⟨h.holds, h.selected.trans (h.winner.eq_neg_one fun _ => rfl), h.ranking, h.last⟩

end BookSim
