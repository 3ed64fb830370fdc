/-
# LeastRecent — whom the matrix arbiter has granted least recently

Whatever calls are made of a matrix arbiter, its matrix says who has been updated less recently:

    never, never          the higher input comes first
    never, at some time   who has never been updated comes first
    at two times          who was updated at the earlier one comes first

A run of calls is recorded with the inputs that were updated, the last one in front.
-/
import BookSim.Arbiters.Matrix

namespace BookSim

open Function (update)

namespace MatrixState

/-! ## Calls -/

/-- A call of one of the functions of the arbiter. -/
inductive Call
  | addRequest (input : ℤ) (e : ArbEntry)
  | arbitrate
  | updateState
  | clear

/-- The arbiter, and the inputs that have been updated. -/
structure Recorded where
  state : MatrixState
  updates : List ℤ := []

def Recorded.call (c : Recorded) : Call → Except Fault Recorded
  | .addRequest input e => do
    let s ← c.state.addRequest input e
    return { c with state := s }
  | .arbitrate => do
    let (s, _) ← c.state.arbitrate
    return { c with state := s }
  | .updateState => return {
      state := c.state.updateState
      updates :=
        if c.state.base.selected > -1 then c.state.base.selected :: c.updates else c.updates }
  | .clear => return { c with state := c.state.clear }

/-- A new arbiter with `size` inputs, of which the calls are made one after the other. -/
def Recorded.run (size : ℕ) (calls : List Call) : Except Fault Recorded :=
  calls.foldlM Recorded.call { state := { base := { size := size } } }

/-! ## The order of the last updates -/

/-- How many updates there had been when `i` was updated last, that one included; none if it never
was. -/
def lastUpdate (i : ℤ) : List ℤ → ℕ
  | [] => 0
  | w :: updates => if i = w then updates.length + 1 else lastUpdate i updates

/-- The last update of `i` is older than that of `j`. -/
def Older (updates : List ℤ) (i j : ℤ) : Prop :=
  lastUpdate i updates < lastUpdate j updates ∨ lastUpdate i updates = lastUpdate j updates ∧ j < i

section Older

variable {updates : List ℤ} {i j k w : ℤ}

theorem lastUpdate_le (i : ℤ) (updates : List ℤ) : lastUpdate i updates ≤ updates.length := by
  induction updates with
  | nil => exact le_rfl
  | cons w updates ih =>
    rw [lastUpdate]
    split
    · exact le_rfl
    · exact ih.trans (Nat.le_succ _)

theorem Older.irrefl (i : ℤ) : ¬ Older updates i i := by
  unfold Older
  omega

theorem Older.trans (hij : Older updates i j) (hjk : Older updates j k) : Older updates i k := by
  unfold Older at hij hjk ⊢
  omega

theorem Older.total (updates : List ℤ) (hne : i ≠ j) : Older updates i j ∨ Older updates j i := by
  unfold Older
  omega

theorem older_cons : Older (w :: updates) i j ↔ i ≠ w ∧ (j = w ∨ Older updates i j) := by
  have hi := lastUpdate_le i updates
  have hj := lastUpdate_le j updates
  unfold Older
  rw [lastUpdate, lastUpdate]
  by_cases hiw : i = w
  · by_cases hjw : j = w
    · simp [hiw, hjw]
    · simp only [hiw, hjw, if_true, if_false, ne_eq, not_true, false_and, iff_false]
      omega
  · by_cases hjw : j = w
    · simp only [hiw, hjw, if_true, if_false, ne_eq, not_false_eq_true, true_and, true_or, iff_true]
      omega
    · simp [hiw, hjw]

end Older

theorem demote_iff {matrix : ℤ → ℤ → Bool} {i j w : ℤ} (hirrefl : matrix w w = false) :
    demote matrix w i j = true ↔ i ≠ w ∧ (j = w ∨ matrix i j = true) := by
  unfold demote
  by_cases hiw : i = w
  · by_cases hjw : j = w
    · simp [hiw, hjw, hirrefl]
    · simp [hiw, hjw]
  · by_cases hjw : j = w
    · simp [hiw, hjw]
    · simp [hiw, hjw]

/-! ## All runs -/

/-- What is known of the arbiter after any calls; its requests are `r`. -/
structure Recorded.Sound (n : ℕ) (r : Entries) (c : Recorded) : Prop where
  holds : c.state.base.Holds n r
  selected : c.state.base.selected = -1 ∨ (r c.state.base.selected).isSome = true
  last : (∀ i, r i = none) ∧ c.state.lastReq = -1 ∨ (r c.state.lastReq).isSome = true
  older : ∀ i j, c.state.matrix i j = true ↔ Older c.updates i j

variable {n : ℕ} {r : Entries} {c c' : Recorded}

namespace Recorded.Sound

theorem ranking (h : c.Sound n r) : Ranking c.state.matrix where
  irrefl i := by
    by_contra hi
    exact Older.irrefl i ((h.older i i).mp (by simpa using hi))
  trans i j k hij hjk :=
    (h.older i k).mpr (((h.older i j).mp hij).trans ((h.older j k).mp hjk))

theorem arbitrate (h : c.Sound n r) :
    ∃ s' w, c.state.arbitrate = .ok (s', w, r w) ∧ Recorded.Sound n r { c with state := s' } ∧
      ((w = -1 ∧ ∀ i, r i = none) ∨ ∃ e, r w = some e ∧ ∀ i e', r i = some e' →
        e'.pri < e.pri ∨ e'.pri = e.pri ∧ (i = w ∨ Older c.updates w i)) := by
  have hselect := unbeaten_select h.holds h.ranking h.last
  have hoff : ∀ {i e e'}, r i = some e' → c.state.outranks i c.state.select e = false →
      e'.pri < e.pri ∨ e'.pri = e.pri ∧
      (i = c.state.select ∨ Older c.updates c.state.select i) := by
    intro i e e' he' hbeaten
    have hno := (outranks_iff h.holds).not.mp (by simpa using hbeaten)
    simp only [he', Option.some.injEq, exists_eq_left', not_or, not_and, h.older] at hno
    rcases lt_trichotomy e'.pri e.pri with hlt | heq | hgt
    · exact .inl hlt
    · refine .inr ⟨heq, ?_⟩
      by_cases hi : i = c.state.select
      · exact .inl hi
      · exact .inr ((Older.total c.updates hi).resolve_left (hno.2 heq))
    · exact absurd hgt hno.1
  have hwinner : Winner r c.state.select := by
    refine hselect.imp_right fun ⟨e, he, hall⟩ => ⟨e, he, fun i e' he' => ?_⟩
    rcases hoff he' (hall i) with hlt | ⟨heq, -⟩
    · exact hlt.le
    · exact heq.le
  refine ⟨{ c.state with base := { c.state.base with selected := c.state.select } }, c.state.select,
    ?_, ⟨h.holds.select _, ?_, h.last, h.older⟩, ?_⟩
  · unfold MatrixState.arbitrate
    dsimp only
    rw [h.holds.arbitrate hwinner]
    rfl
  · rcases hwinner with ⟨hnone, -⟩ | ⟨e, he, -⟩
    · exact .inl hnone
    · refine .inr ?_
      show (r c.state.select).isSome = true
      rw [he]
      rfl
  · exact hselect.imp_right fun ⟨e, he, hall⟩ => ⟨e, he, fun i e' he' => hoff he' (hall i)⟩

theorem call {a : Call} (h : c.Sound n r) (hcall : c.call a = .ok c') : ∃ r', c'.Sound n r' := by
  cases a with
  | addRequest i e =>
    obtain ⟨s, hs, rfl⟩ := bind_return_ok.mp hcall
    obtain ⟨base, hbase, rfl⟩ := bind_return_ok.mp hs
    obtain ⟨hi, hfree⟩ := h.holds.addRequest_eq_ok hbase
    obtain ⟨base', hbase', hholds, hselected, -⟩ := h.holds.addRequest hi hfree e
    obtain rfl := Except.ok.inj (hbase.symm.trans hbase')
    refine ⟨update r i (some e), hholds, ?_, .inr ?_, h.older⟩
    · show base.selected = -1 ∨ (update r i (some e) base.selected).isSome = true
      rw [hselected, Function.update_apply]
      split
      · exact .inr rfl
      · exact h.selected
    · show (update r i (some e) i).isSome = true
      rw [Function.update_self]
      rfl
  | arbitrate =>
    obtain ⟨s', w, harbitrate, hsound, -⟩ := h.arbitrate
    obtain ⟨t, ht, rfl⟩ := bind_return_ok.mp hcall
    obtain rfl := Except.ok.inj (harbitrate.symm.trans ht)
    exact ⟨r, hsound⟩
  | updateState =>
    obtain rfl := return_ok.mp hcall
    refine ⟨r, ?_⟩
    unfold MatrixState.updateState
    split
    · refine ⟨h.holds, h.selected, h.last, fun i j => ?_⟩
      rw [older_cons, ← h.older]
      exact demote_iff (h.ranking.irrefl _)
    · exact h
  | clear =>
    obtain rfl := return_ok.mp hcall
    have hempty : c.state.base.numReqs = 0 → c.state.base.selected = -1 := by
      intro hzero
      refine h.selected.resolve_right fun hsome => ?_
      rw [h.holds.numReqs_eq_zero.mp hzero] at hsome
      cases hsome
    obtain ⟨hholds, hselected⟩ := h.holds.clear hempty
    exact ⟨_, hholds, .inl hselected, .inl ⟨fun _ => rfl, rfl⟩, h.older⟩

end Recorded.Sound

theorem Recorded.run_sound {size : ℕ} {calls : List Call} (h : Recorded.run size calls = .ok c) :
    ∃ r, c.Sound size r := by
  refine inv_of_foldlM_eq_ok (I := fun c => ∃ r, Recorded.Sound size r c) h
    (fun _ _ _ _ hcall ⟨_, hc⟩ => hc.call hcall)
    ⟨_, .new size, .inl rfl, .inl ⟨fun _ => rfl, rfl⟩, ?_⟩
  intro i j
  simp [Older, lastUpdate]

end MatrixState

open MatrixState in
/-- After any calls the matrix is a strict total order of the inputs, the one of their last updates;
and `Arbitrate` returns, selects an input if there is a request, and selects among the requests with
the highest priority the one whose last update is oldest. -/
theorem matrix_least_recent {size : ℕ} {calls : List MatrixState.Call} {c : Recorded}
    (h : Recorded.run size calls = .ok c) :
    (∀ i, c.state.matrix i i = false) ∧
    (∀ i j, i ≠ j → (c.state.matrix i j = true ↔ c.state.matrix j i = false)) ∧
    (∀ i j k, c.state.matrix i j = true → c.state.matrix j k = true → c.state.matrix i k = true) ∧
    (∀ i j, c.state.matrix i j = true ↔ Older c.updates i j) ∧
    ∃ s' w, c.state.arbitrate = .ok (s', w, c.state.base.request w) ∧
      ((∀ i, c.state.base.request i = none) → w = -1) ∧
      ∀ i₀ e₀, c.state.base.request i₀ = some e₀ → w ∈ below size ∧
        ∃ e, c.state.base.request w = some e ∧ ∀ i e', c.state.base.request i = some e' →
          e'.pri < e.pri ∨ e'.pri = e.pri ∧ (i = w ∨ Older c.updates w i) := by
  obtain ⟨r, hc⟩ := Recorded.run_sound h
  obtain ⟨s', w, harbitrate, -, hwinner⟩ := hc.arbitrate
  rw [hc.holds.request]
  refine ⟨hc.ranking.irrefl, fun i j hne => ?_, hc.ranking.trans, hc.older, s', w, harbitrate,
    fun hnone => ?_, fun i₀ e₀ h₀ => ?_⟩
  · rw [← Bool.not_eq_true, hc.older, hc.older]
    constructor
    · intro hij hji
      exact Older.irrefl i (hij.trans hji)
    · exact (Older.total c.updates hne).resolve_right
  · rcases hwinner with ⟨hw, -⟩ | ⟨e, he, -⟩
    · exact hw
    · rw [hnone w] at he
      cases he
  · rcases hwinner with ⟨-, hnone⟩ | ⟨e, he, hbest⟩
    · rw [hnone i₀] at h₀
      cases h₀
    · exact ⟨hc.holds.within w (by rw [he]; rfl), e, he, hbest⟩

/-- … as here, where the input that has been updated loses to the others. -/
theorem matrix_least_recent_three :
    let e : ArbEntry := ⟨0, 0⟩
    let calls : List MatrixState.Call :=
      [.addRequest 0 e, .addRequest 2 e, .arbitrate, .updateState,
      .clear, .addRequest 2 e, .addRequest 0 e]
    ∃ c, MatrixState.Recorded.run 3 calls = .ok c ∧ c.updates = [2] ∧
      ∃ s' w, c.state.arbitrate = .ok (s', w, c.state.base.request w) ∧ w ∈ below 3 := by
  intro e calls
  obtain ⟨c, hc, hcheck⟩ := exists_of_returns (x := MatrixState.Recorded.run 3 calls)
    (p := fun c => c.updates = [2] ∧ (c.state.base.request 2).isSome) (by decide +kernel)
  obtain ⟨hupdates, hsome⟩ := of_decide_eq_true hcheck
  obtain ⟨e₀, he₀⟩ := Option.isSome_iff_exists.mp hsome
  obtain ⟨-, -, -, -, s', w, harbitrate, -, hw⟩ := matrix_least_recent hc
  exact ⟨c, hc, hupdates, s', w, harbitrate, (hw 2 e₀ he₀).1⟩

end BookSim
