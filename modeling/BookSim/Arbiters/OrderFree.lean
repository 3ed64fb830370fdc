/-
# OrderFree — in which order the requests come

The selection of an arbiter does not depend on the order of the `AddRequest` calls.  Two calls can
be exchanged, up to what no other call can see:

    round robin    the state is the same
    matrix         the input that came last is not; it counts only when there is no other
    tree           the states of the arbiters inside are the same in this sense

`OrderFree` is what is asked of an arbiter for that, and a tree has it if its parts do.
-/
import BookSim.Arbiters.Tree

namespace BookSim

open List
open Function (update update_apply update_comm update_idem update_of_ne update_self)

namespace Arbiter

/-- `AddRequest` for all of a list. -/
def addRequests (A : Arbiter) (s : A.State) (l : List (ℤ × ArbEntry)) : Except Fault A.State :=
  l.foldlM (fun s x => A.addRequest s x.1 x.2) s

/-- A round: the requests, and the selection. -/
def select (A : Arbiter) (s : A.State) (l : List (ℤ × ArbEntry)) : Except Fault ℤ := do
  let s ← A.addRequests s l
  let (_, w, _) ← A.arbitrate s
  return w

structure OrderFree {A : Arbiter} (L : A.Laws) where
  Same : A.State → A.State → Prop
  refl : ∀ s, Same s s
  trans : ∀ {s s' s''}, Same s s' → Same s' s'' → Same s s''
  addRequest : ∀ {s s' t i e}, Same s s' → A.addRequest s i e = .ok t →
    ∃ t', A.addRequest s' i e = .ok t' ∧ Same t t'
  arbitrate : ∀ {s s' t w e}, Same s s' → A.arbitrate s = .ok (t, w, e) →
    ∃ t', A.arbitrate s' = .ok (t', w, e) ∧ Same t t'
  lastWinner : ∀ {s s'}, Same s s' → A.lastWinner s' = A.lastWinner s
  swap : ∀ {n r s s₁ s₂ i j e e'}, L.Gathers n r s → i ∈ below n → j ∈ below n → r i = none →
    r j = none → i ≠ j → A.addRequest s i e = .ok s₁ → A.addRequest s₁ j e' = .ok s₂ →
    ∃ s₁' s₂', A.addRequest s j e' = .ok s₁' ∧ A.addRequest s₁' i e = .ok s₂' ∧ Same s₂ s₂'

/-- The requests of `l` can be added to those of `r`, in an arbiter of size `n`. -/
structure Fits (n : ℕ) (r : Entries) (l : List (ℤ × ArbEntry)) : Prop where
  free : ∀ x ∈ l, x.1 ∈ below n ∧ r x.1 = none
  distinct : (l.map Prod.fst).Nodup

section Fits

variable {n : ℕ} {r : Entries} {x : ℤ × ArbEntry} {l l' : List (ℤ × ArbEntry)}

theorem Fits.perm (h : Fits n r l) (hperm : l.Perm l') : Fits n r l' :=
  ⟨fun x hx => h.free x (hperm.mem_iff.mpr hx), (hperm.map Prod.fst).nodup_iff.mp h.distinct⟩

theorem Fits.tail (h : Fits n r (x :: l)) : Fits n (update r x.1 (some x.2)) l := by
  obtain ⟨hx, hl⟩ := nodup_cons.mp h.distinct
  refine ⟨fun y hy => ?_, hl⟩
  obtain ⟨hy₁, hy₂⟩ := h.free y (mem_cons_of_mem x hy)
  refine ⟨hy₁, (update_of_ne (fun heq => hx ?_) ..).trans hy₂⟩
  exact heq ▸ mem_map_of_mem hy

end Fits

variable {A : Arbiter} {L : A.Laws} {n : ℕ} {r : Entries} {s t : A.State}
  {l l' : List (ℤ × ArbEntry)}

theorem addRequests_gathers {I : Entries → A.State → Prop} (hs : L.Gathers n r s) (hl : Fits n r l)
    (hI : I r s) (hstep : ∀ {r s s' i e}, L.Gathers n r s → i ∈ below n → r i = none →
      A.addRequest s i e = .ok s' → I r s → I (update r i (some e)) s') :
    ∃ t r', A.addRequests s l = .ok t ∧ L.Gathers n r' t ∧ I r' t ∧
      ∀ i e, r' i = some e ↔ r i = some e ∨ (i, e) ∈ l := by
  induction l generalizing s r with
  | nil => exact ⟨s, r, rfl, hs, hI, by simp⟩
  | cons x l ih =>
    obtain ⟨hx, hfree⟩ := hl.free x mem_cons_self
    obtain ⟨s₁, hs₁, hgathers, -⟩ := L.addRequest x.2 hs hx hfree
    obtain ⟨t, r', ht, hgathers', hI', hr'⟩ := ih hgathers hl.tail (hstep hs hx hfree hs₁ hI)
    refine ⟨t, r', ?_, hgathers', hI', fun i e => ?_⟩
    · rw [addRequests, foldlM_cons]
      exact bind_ok.mpr ⟨s₁, hs₁, ht⟩
    · grind

namespace OrderFree

variable (O : OrderFree L)

theorem addRequests {s' : A.State} (hs : O.Same s s') (h : A.addRequests s l = .ok t) :
    ∃ t', A.addRequests s' l = .ok t' ∧ O.Same t t' :=
  exists_foldlM_related (R := O.Same) (f := fun s (x : ℤ × ArbEntry) => A.addRequest s x.1 x.2)
    (fun hs h => O.addRequest hs h) hs h

theorem addRequests_perm (hperm : l.Perm l') (hs : L.Gathers n r s) (hl : Fits n r l)
    (h : A.addRequests s l = .ok t) : ∃ t', A.addRequests s l' = .ok t' ∧ O.Same t t' := by
  induction hperm generalizing r s t with
  | nil => exact ⟨t, h, O.refl t⟩
  | cons x _ ih =>
    rw [Arbiter.addRequests, foldlM_cons] at h ⊢
    obtain ⟨s₁, hs₁, h⟩ := bind_ok.mp h
    obtain ⟨hx, hfree⟩ := hl.free x mem_cons_self
    obtain ⟨s₁', hs₁', hgathers, -⟩ := L.addRequest x.2 hs hx hfree
    obtain rfl := Except.ok.inj (hs₁.symm.trans hs₁')
    obtain ⟨t', ht', hsame⟩ := ih hgathers hl.tail h
    exact ⟨t', bind_ok.mpr ⟨s₁, hs₁, ht'⟩, hsame⟩
  | swap x y l =>
    rw [Arbiter.addRequests, foldlM_cons] at h
    obtain ⟨s₁, hs₁, h⟩ := bind_ok.mp h
    rw [foldlM_cons] at h
    obtain ⟨s₂, hs₂, h⟩ := bind_ok.mp h
    obtain ⟨hy, hy'⟩ := hl.free y mem_cons_self
    obtain ⟨hx, hx'⟩ := hl.free x (mem_cons_of_mem y mem_cons_self)
    have hne : y.1 ≠ x.1 := by
      have := (nodup_cons.mp hl.distinct).1
      simp only [map_cons, mem_cons, not_or] at this
      exact this.1
    obtain ⟨s₁', s₂', hs₁', hs₂', hsame⟩ := O.swap hs hy hx hy' hx' hne hs₁ hs₂
    obtain ⟨t', ht', hsame'⟩ := O.addRequests hsame h
    refine ⟨t', ?_, hsame'⟩
    rw [Arbiter.addRequests, foldlM_cons]
    refine bind_ok.mpr ⟨s₁', hs₁', ?_⟩
    rw [foldlM_cons]
    exact bind_ok.mpr ⟨s₂', hs₂', ht'⟩
  | trans hperm₁ _ ih₁ ih₂ =>
    obtain ⟨t₁, ht₁, hsame₁⟩ := ih₁ hs hl h
    obtain ⟨t₂, ht₂, hsame₂⟩ := ih₂ hs (hl.perm hperm₁) ht₁
    exact ⟨t₂, ht₂, O.trans hsame₁ hsame₂⟩

theorem select_perm (O : OrderFree L) {w : ℤ} (hperm : l.Perm l') (hs : L.Gathers n r s)
    (hl : Fits n r l) (h : A.select s l = .ok w) : A.select s l' = .ok w := by
  obtain ⟨t, ht, h⟩ := bind_ok.mp h
  obtain ⟨⟨u, w', e⟩, hu, h⟩ := bind_ok.mp h
  obtain rfl := return_ok.mp h
  obtain ⟨t', ht', hsame⟩ := O.addRequests_perm hperm hs hl ht
  obtain ⟨u', hu', -⟩ := O.arbitrate hsame hu
  exact bind_ok.mpr ⟨t', ht', bind_ok.mpr ⟨_, hu', rfl⟩⟩

end OrderFree

end Arbiter

/-! ## Round robin -/

namespace RoundRobinState

/-- How far an input is from the pointer on. -/
def dist (s : RoundRobinState) (i : ℤ) : ℤ := (i - s.pointer + s.base.size).tmod s.base.size

/-- The better of two requests, each a priority and an input. -/
def better (d : ℤ → ℤ) (x y : ℤ × ℤ) : ℤ × ℤ :=
  if y.1 < x.1 ∨ x.1 = y.1 ∧ d x.2 < d y.2 then x else y

theorem better_comm {d : ℤ → ℤ} {x y : ℤ × ℤ} (hxy : d x.2 ≠ d y.2) :
    better d x y = better d y x := by
  unfold better
  split_ifs <;> first | rfl | omega

theorem better_left_comm {d : ℤ → ℤ} {x y z : ℤ × ℤ} (hxy : d x.2 ≠ d y.2) :
    better d x (better d y z) = better d y (better d x z) := by
  by_cases hy : z.1 < y.1 ∨ y.1 = z.1 ∧ d y.2 < d z.2
  · by_cases hx : z.1 < x.1 ∨ x.1 = z.1 ∧ d x.2 < d z.2
    · simp only [better, hx, hy, if_true]
      split_ifs <;> first | rfl | omega
    · simp only [better, hx, hy, if_true, if_false]
      split_ifs <;> first | rfl | omega
  · by_cases hx : z.1 < x.1 ∨ x.1 = z.1 ∧ d x.2 < d z.2
    · simp only [better, hx, hy, if_true, if_false]
      split_ifs <;> first | rfl | omega
    · simp only [better, hx, hy, if_false]

theorem better_least {d : ℤ → ℤ} (x y : ℤ × ℤ) :
    (x.1 < (better d x y).1 ∨ x.1 = (better d x y).1 ∧ d (better d x y).2 ≤ d x.2) ∧
      (y.1 < (better d x y).1 ∨ y.1 = (better d x y).1 ∧ d (better d x y).2 ≤ d y.2) := by
  unfold better
  split <;> omega

variable {n : ℕ} {r : Entries} {s : RoundRobinState} {i j w : ℤ} {e : ArbEntry}

theorem dist_inj (hs : s.base.size = n) (hi : i ∈ below n) (hj : j ∈ below n)
    (h : s.dist i = s.dist j) : i = j := by
  rw [mem_below] at hi hj
  unfold dist at h
  rw [hs] at h
  have hdvd : (n : ℤ) ∣ i - j := by
    refine ⟨(i - s.pointer + n).tdiv n - (j - s.pointer + n).tdiv n, ?_⟩
    have h₁ := Int.mul_tdiv_add_tmod (i - s.pointer + n) n
    have h₂ := Int.mul_tdiv_add_tmod (j - s.pointer + n) n
    rw [mul_sub]
    omega
  have hmod := Int.emod_eq_emod_iff_emod_sub_eq_zero.mpr (Int.emod_eq_zero_of_dvd hdvd)
  rwa [Int.emod_eq_of_lt hi.1 hi.2, Int.emod_eq_of_lt hj.1 hj.2] at hmod

theorem dist_eq (hs : s.base.size = n) (hp : 0 ≤ s.pointer ∧ s.pointer < n) (hi : 0 ≤ i ∧ i < n) :
    s.dist i = (i - s.pointer) % n := by
  unfold dist
  rw [hs, Int.tmod_eq_emod_of_nonneg (by omega), Int.add_emod_right]

/-- The best request, with one more. -/
def improved (s : RoundRobinState) (i pri : ℤ) : ℤ × ℤ :=
  if s.base.numReqs = 0 then (pri, i) else better s.dist (pri, i) (s.highestPri, s.bestInput)

theorem improved_eq (s : RoundRobinState) (i pri : ℤ) : s.improved i pri =
    if s.base.numReqs = 0 ∨ supersedes i pri s.bestInput s.highestPri s.pointer s.base.size = true
      then (pri, i) else (s.highestPri, s.bestInput) := by
  unfold improved
  split
  · next hzero => rw [if_pos (.inl hzero)]
  · next hsome =>
      refine if_congr ?_ rfl rfl
      simp [supersedes, hsome, dist]

theorem addRequest_eq_ok {base : ArbiterBase} (hfree : s.base.request i = none)
    (hbase : s.base.addRequest i e = .ok base) :
    s.addRequest i e = .ok { s with
      base := base, highestPri := (s.improved i e.pri).1, bestInput :=
        (s.improved i e.pri).2 } := by
  simp only [RoundRobinState.addRequest, hfree, hbase, improved_eq, true_and]
  split <;> rfl

theorem dist_next {base : ArbiterBase} {x : ℤ × ℤ} (hsize : base.size = s.base.size) :
    dist { s with base := base, highestPri := x.1, bestInput := x.2 } = s.dist := by
  funext k
  unfold dist
  rw [hsize]

theorem improved_next {base : ArbiterBase} {x : ℤ × ℤ} {q : ℤ} (hsize : base.size = s.base.size)
    (hcount : base.numReqs ≠ 0) :
    improved { s with base := base, highestPri := x.1, bestInput := x.2 } j q =
      better s.dist (q, j) x := by
  rw [improved, if_neg hcount, dist_next hsize]

theorem better_improved {p q : ℤ} (hij : s.dist i ≠ s.dist j) :
    better s.dist (q, j) (s.improved i p) = better s.dist (p, i) (s.improved j q) := by
  unfold improved
  split
  · exact better_comm hij.symm
  · exact better_left_comm hij.symm

/-- The other requests have a lower priority, or are further from the pointer on. -/
def First (r : Entries) (s : RoundRobinState) : Prop :=
  ∀ i e, r i = some e → e.pri < s.highestPri ∨ e.pri = s.highestPri ∧ s.dist s.bestInput ≤ s.dist i

theorem first_none (s : RoundRobinState) : First (fun _ => none) s := by
  intro i e h
  cases h

theorem First.addRequest {s' : RoundRobinState} (h : First r s) (hs : s.Gathers n r)
    (hi : i ∈ below n) (hfree : r i = none) (hadd : s.addRequest i e = .ok s') :
    First (update r i (some e)) s' ∧ s'.pointer = s.pointer := by
  obtain ⟨base, hbase, hholds, -⟩ := hs.holds.addRequest hi hfree e
  obtain rfl := Except.ok.inj (hadd.symm.trans
    (addRequest_eq_ok ((congrFun hs.holds.request i).trans hfree) hbase))
  refine ⟨fun j e' hj => ?_, rfl⟩
  rw [dist_next (hholds.size.trans hs.holds.size.symm)]
  dsimp only
  unfold improved
  rw [update_apply] at hj
  split at hj
  · next heq =>
      subst heq
      obtain rfl := Option.some.inj hj
      split
      · exact .inr ⟨rfl, le_rfl⟩
      · exact (better_least (e.pri, j) _).1
  · split
    · next hzero =>
        rw [hs.holds.numReqs_eq_zero.mp hzero j] at hj
        cases hj
    · have hkept := (better_least (d := s.dist) (e.pri, i) (s.highestPri, s.bestInput)).2
      have hbest := h j e' hj
      dsimp only at hkept
      omega

end RoundRobinState

open RoundRobinState in
def Arbiter.roundRobinOrderFree : Arbiter.OrderFree Arbiter.roundRobinLaws where
  Same s s' := s' = s
  refl _ := rfl
  trans h h' := h'.trans h
  addRequest hs h := ⟨_, hs ▸ h, rfl⟩
  arbitrate hs h := ⟨_, hs ▸ h, rfl⟩
  lastWinner hs := congrArg (·.base.selected) hs
  swap {n r s s₁ s₂ i j e e'} hs hi hj hfree hfree' hne h₁ h₂ := by
    obtain ⟨base₁, hbase₁, hholds₁, -, hcount₁⟩ := hs.holds.addRequest hi hfree e
    obtain ⟨base₁', hbase₁', hholds₁', -, hcount₁'⟩ := hs.holds.addRequest hj hfree' e'
    have hj₁ : update r i (some e) j = none := (update_of_ne hne.symm ..).trans hfree'
    have hi₁ : update r j (some e') i = none := (update_of_ne hne ..).trans hfree
    obtain ⟨base₂, hbase₂, -⟩ := hholds₁.addRequest hj hj₁ e'
    obtain ⟨⟨base₃, hbase₃, hbase₂'⟩, -⟩ := ArbiterBase.addRequest_swap hne hbase₁ hbase₂
    obtain rfl := Except.ok.inj (hbase₃.symm.trans hbase₁')
    obtain rfl := Except.ok.inj (h₁.symm.trans
      (addRequest_eq_ok ((congrFun hs.holds.request i).trans hfree) hbase₁))
    obtain rfl := Except.ok.inj (h₂.symm.trans
      (addRequest_eq_ok ((congrFun hholds₁.request j).trans hj₁) hbase₂))
    refine ⟨_, _, addRequest_eq_ok ((congrFun hs.holds.request j).trans hfree') hbase₁',
      addRequest_eq_ok ((congrFun hholds₁'.request i).trans hi₁) hbase₂', ?_⟩
    have hsize := hs.holds.size
    have hdist : s.dist i ≠ s.dist j := fun h => hne (dist_inj hsize hi hj h)
    dsimp only
    rw [improved_next (hholds₁.size.trans hsize.symm) hcount₁,
      improved_next (hholds₁'.size.trans hsize.symm) hcount₁', better_improved hdist]

/-! ## Matrix -/

namespace MatrixState

/-- The states differ at most in which input came last, which is not looked at. -/
structure Same (s s' : MatrixState) : Prop where
  base : s'.base = s.base
  matrix : s'.matrix = s.matrix
  last : s'.lastReq = s.lastReq ∨ 2 ≤ s.base.numReqs

theorem Same.select_eq {s s' : MatrixState} (h : Same s s') : s'.select = s.select := by
  obtain ⟨base, matrix, lastReq⟩ := s
  obtain ⟨base', matrix', lastReq'⟩ := s'
  obtain rfl : base' = base := h.base
  obtain rfl : matrix' = matrix := h.matrix
  unfold select
  dsimp only
  split
  · next hfew => exact h.last.resolve_right (not_le.mpr hfew)
  · rfl

end MatrixState

open MatrixState in
def Arbiter.matrixOrderFree : Arbiter.OrderFree Arbiter.matrixLaws where
  Same := Same
  refl s := ⟨rfl, rfl, .inl rfl⟩
  trans h h' := ⟨h'.base.trans h.base, h'.matrix.trans h.matrix, by
    rcases h.last with hlast | hmany
    · exact h'.last.imp (fun hlast' => hlast'.trans hlast) fun hmany => h.base ▸ hmany
    · exact .inr hmany⟩
  addRequest {s s' t i e} hs h := by
    obtain ⟨base, hbase, rfl⟩ := bind_return_ok.mp h
    rw [← hs.base] at hbase
    exact ⟨_, bind_ok.mpr ⟨base, hbase, rfl⟩, rfl, hs.matrix, .inl rfl⟩
  arbitrate {s s' t w e} hs h := by
    obtain ⟨⟨input, entry⟩, hx, h⟩ := bind_ok.mp h
    cases return_ok.mp h
    have hx' : ArbiterBase.arbitrate { s'.base with selected := s'.select } = .ok (w, e) := by
      rwa [hs.base, hs.select_eq]
    refine ⟨_, bind_ok.mpr ⟨(w, e), hx', rfl⟩, ?_, hs.matrix, hs.last⟩
    show ({ s'.base with selected := s'.select } : ArbiterBase) =
      { s.base with selected := s.select }
    rw [hs.base, hs.select_eq]
  lastWinner hs := congrArg ArbiterBase.selected hs.base
  swap {n r s s₁ s₂ i j e e'} _ _ _ _ _ hne h₁ h₂ := by
    obtain ⟨base₁, hbase₁, rfl⟩ := bind_return_ok.mp h₁
    obtain ⟨base₂, hbase₂, rfl⟩ := bind_return_ok.mp h₂
    obtain ⟨⟨base₁', hbase₁', hbase₂'⟩, hcount⟩ := ArbiterBase.addRequest_swap hne hbase₁ hbase₂
    refine ⟨_, _, bind_ok.mpr ⟨base₁', hbase₁', rfl⟩, bind_ok.mpr ⟨base₂, hbase₂', rfl⟩,
      rfl, rfl, .inr ?_⟩
    show 2 ≤ base₂.numReqs
    omega

/-! ## Tree -/

namespace TreeState

section Same

variable {sub : Arbiter} {L : sub.Laws} (O : Arbiter.OrderFree L)

/-- The arbiters inside are the same. -/
def Same (s s' : TreeState sub.State) : Prop :=
  ∃ arbs arb, s' = { s with groupArbiters := arbs, globalArbiter := arb } ∧
    (∀ k, O.Same (s.groupArbiters k) (arbs k)) ∧ O.Same s.globalArbiter arb

variable {O} {s s' t : TreeState sub.State} {i w : ℤ}

theorem same_update {arbs arbs' : ℤ → sub.State} {arb arb' : sub.State} {k : ℤ}
    (hgroup : ∀ k, O.Same (arbs k) (arbs' k)) (harb : O.Same arb arb') :
    ∀ k', O.Same (update arbs k arb k') (update arbs' k arb' k') := by
  intro k'
  rw [update_apply, update_apply]
  split
  · exact harb
  · exact hgroup k'

theorem Same.addRequest {e : ArbEntry} (hs : Same O s s')
    (h : TreeState.addRequest sub s i e = .ok t) :
    ∃ t', TreeState.addRequest sub s' i e = .ok t' ∧ Same O t t' := by
  obtain ⟨arbs, globalArb, rfl, hgroup, hglobal⟩ := hs
  obtain ⟨base, hbase, h⟩ := bind_ok.mp h
  obtain ⟨arb, harb, rfl⟩ := bind_return_ok.mp h
  obtain ⟨arb', harb', hsame⟩ := O.addRequest (hgroup _) harb
  exact ⟨_, bind_ok.mpr ⟨base, hbase, bind_ok.mpr ⟨arb', harb', rfl⟩⟩, _, _, rfl,
    same_update hgroup hsame, hglobal⟩

theorem Same.consult (hs : Same O s s') (h : TreeState.consult sub s i = .ok t) :
    ∃ t', TreeState.consult sub s' i = .ok t' ∧ Same O t t' := by
  obtain ⟨arbs, globalArb, rfl, hgroup, hglobal⟩ := hs
  unfold TreeState.consult at h ⊢
  split at h
  · next hreqs =>
      rw [if_pos hreqs]
      obtain ⟨⟨arb, j, entry⟩, harb, h⟩ := bind_ok.mp h
      obtain ⟨global₁, hadd, rfl⟩ := bind_return_ok.mp h
      obtain ⟨arb', harb', hsame⟩ := O.arbitrate (hgroup i) harb
      obtain ⟨global₁', hadd', hsame'⟩ := O.addRequest hglobal hadd
      exact ⟨_, bind_ok.mpr ⟨_, harb', bind_ok.mpr ⟨global₁', hadd', rfl⟩⟩, _, _, rfl,
        same_update hgroup hsame, hsame'⟩
  · next hreqs =>
      rw [if_neg hreqs]
      obtain rfl := return_ok.mp h
      exact ⟨_, rfl, _, _, rfl, hgroup, hglobal⟩

theorem Same.arbitrate {e : Option ArbEntry} (hs : Same O s s')
    (h : TreeState.arbitrate sub s = .ok (t, w, e)) :
    ∃ t', TreeState.arbitrate sub s' = .ok (t', w, e) ∧ Same O t t' := by
  have hstart := hs
  obtain ⟨arbs, globalArb, rfl, hgroup, hglobal⟩ := hs
  unfold TreeState.arbitrate at h ⊢
  split at h
  · next hzero =>
      rw [if_pos hzero]
      cases return_ok.mp h
      exact ⟨_, rfl, _, _, rfl, hgroup, hglobal⟩
  · next hsome =>
      rw [if_neg hsome]
      obtain ⟨s₁, hfold, h⟩ := bind_ok.mp h
      obtain ⟨⟨global₁, group, entry⟩, hwinner, h⟩ := bind_ok.mp h
      obtain ⟨hrange, h⟩ := require_ok.mp h
      obtain ⟨hrange', h⟩ := require_ok.mp h
      obtain ⟨hselected, h⟩ := require_ok.mp h
      obtain ⟨⟨input, entry'⟩, hbase, h⟩ := bind_ok.mp h
      cases return_ok.mp h
      obtain ⟨_, hfold', arbs₁, globalArb₁, rfl, hgroup₁, hglobal₁⟩ := exists_foldlM_related
        (R := Same O) (f := TreeState.consult sub) (fun hs h => hs.consult h) hstart hfold
      obtain ⟨global₁', hwinner', hsame⟩ := O.arbitrate hglobal₁ hwinner
      refine ⟨_, bind_ok.mpr ⟨_, hfold', bind_ok.mpr ⟨_, hwinner', ?_⟩⟩, _, _, rfl, hgroup₁, hsame⟩
      dsimp only
      rw [O.lastWinner (hgroup₁ group), require_bind hrange, require_bind hrange',
        require_bind hselected]
      exact bind_ok.mpr ⟨_, hbase, rfl⟩

/-- Requests in different groups go to different arbiters; those in one group can be exchanged
there. -/
theorem same_swap {n : ℕ} {r : Entries} {s₁ s₂ : TreeState sub.State} {j : ℤ} {e e' : ArbEntry}
    (hs : Gathers L n r s) (hi : i ∈ below n) (hj : j ∈ below n) (hfree : r i = none)
    (hfree' : r j = none) (hne : i ≠ j) (h₁ : TreeState.addRequest sub s i e = .ok s₁)
    (h₂ : TreeState.addRequest sub s₁ j e' = .ok s₂) :
    ∃ s₁' s₂', TreeState.addRequest sub s j e' = .ok s₁' ∧
      TreeState.addRequest sub s₁' i e = .ok s₂' ∧ Same O s₂ s₂' := by
  obtain ⟨base₁, hbase₁, h₁⟩ := bind_ok.mp h₁
  obtain ⟨arb₁, harb₁, rfl⟩ := bind_return_ok.mp h₁
  obtain ⟨base₂, hbase₂, h₂⟩ := bind_ok.mp h₂
  obtain ⟨arb₂, harb₂, rfl⟩ := bind_return_ok.mp h₂
  obtain ⟨⟨base₁', hbase₁', hbase₂'⟩, -⟩ := ArbiterBase.addRequest_swap hne hbase₁ hbase₂
  rw [hs.size] at hi hj
  dsimp only at harb₂ ⊢
  by_cases hgroup : j / s.groupSize = i / s.groupSize
  · obtain ⟨hk, hi', hplace⟩ := place_of_mem hi
    obtain ⟨-, hj', hplace'⟩ := place_of_mem hj
    have hne' : i % s.groupSize ≠ j % s.groupSize := by
      intro heq
      rw [← hplace, ← hplace', hgroup, heq] at hne
      exact hne rfl
    have hpart := (part_place hj).trans hfree'
    rw [hgroup] at harb₂ hpart
    rw [update_self] at harb₂
    obtain ⟨arb₁', arb₂', harb₁', harb₂', hsame⟩ := O.swap (hs.group _ hk) hi' hj'
      ((part_place hi).trans hfree) hpart hne' harb₁ harb₂
    rw [← hgroup] at harb₁'
    refine ⟨_, _, bind_ok.mpr ⟨base₁', hbase₁', bind_ok.mpr ⟨arb₁', harb₁', rfl⟩⟩,
      bind_ok.mpr ⟨base₂, hbase₂', bind_ok.mpr ⟨arb₂', ?_, rfl⟩⟩,
      update s.groupArbiters (i / s.groupSize) arb₂', _, ?_, ?_, O.refl _⟩
    · dsimp only
      rw [hgroup, update_self]
      exact harb₂'
    · dsimp only
      rw [hgroup, update_idem]
    · dsimp only
      rw [hgroup, update_idem]
      exact same_update (fun _ => O.refl _) hsame
  · rw [update_of_ne hgroup] at harb₂
    refine ⟨_, _, bind_ok.mpr ⟨base₁', hbase₁', bind_ok.mpr ⟨arb₂, harb₂, rfl⟩⟩,
      bind_ok.mpr ⟨base₂, hbase₂', bind_ok.mpr ⟨arb₁, ?_, rfl⟩⟩, _, _, ?_, fun _ => O.refl _,
      O.refl _⟩
    · dsimp only
      rwa [update_of_ne (Ne.symm hgroup)]
    · dsimp only
      rw [update_of_ne hgroup, update_of_ne (Ne.symm hgroup), update_comm hgroup,
        update_comm hgroup]

end Same

end TreeState

open TreeState in
def Arbiter.treeOrderFree (groups : ℕ) {sub : Arbiter} {L : sub.Laws} (O : Arbiter.OrderFree L) :
    Arbiter.OrderFree (Arbiter.treeLaws groups L) where
  Same s s' := TreeState.Same O s s'
  refl _ := ⟨_, _, rfl, fun _ => O.refl _, O.refl _⟩
  trans := by
    rintro s _ _ ⟨arbs, arb, rfl, hgroup, hglobal⟩ ⟨arbs', arb', rfl, hgroup', hglobal'⟩
    exact ⟨_, _, rfl, fun k => O.trans (hgroup k) (hgroup' k), O.trans hglobal hglobal'⟩
  addRequest hs h := hs.addRequest h
  arbitrate hs h := hs.arbitrate h
  lastWinner := by
    rintro s _ ⟨arbs, arb, rfl, -⟩
    rfl
  swap hs hi hj hfree hfree' hne h₁ h₂ := same_swap hs hi hj hfree hfree' hne h₁ h₂

def ArbType.orderFree : (arb : ArbType) → Arbiter.OrderFree arb.laws
  | .roundRobin => Arbiter.roundRobinOrderFree
  | .matrix => Arbiter.matrixOrderFree
  | .tree groups sub => Arbiter.treeOrderFree groups sub.orderFree

/-! ## A round from an idle arbiter -/

/-- No requests have been made; the pointers and matrices inside may be any. -/
def ArbType.Idle : (arb : ArbType) → ℕ → arb.arbiter.State → Prop
  | .roundRobin, n, (s : RoundRobinState) => s = { base := { size := n }, pointer := s.pointer }
  | .matrix, n, (s : MatrixState) => MatrixState.Ranking s.matrix ∧
      s = { base := { size := n }, matrix := s.matrix }
  | .tree _ sub, n, (s : TreeState sub.arbiter.State) => s.base = { size := n } ∧
      n = s.groups * s.groupSize ∧ s.groupReqs = (fun _ => 0) ∧
      (∀ k ∈ below s.groups, sub.Idle s.groupSize (s.groupArbiters k)) ∧
      sub.Idle s.groups s.globalArbiter

theorem ArbType.idle_new (arb : ArbType) {n : ℕ} {s : arb.arbiter.State}
    (h : arb.arbiter.new n = .ok s) : arb.Idle n s := by
  induction arb generalizing n with
  | roundRobin =>
    obtain rfl := Except.ok.inj h
    rfl
  | matrix =>
    obtain rfl := Except.ok.inj h
    exact ⟨MatrixState.ranking_new, rfl⟩
  | tree groups sub ih =>
    obtain ⟨hdvd, h⟩ := require_ok.mp h
    obtain ⟨groupArb, hgroup, h⟩ := bind_ok.mp h
    obtain ⟨globalArb, hglobal, rfl⟩ := bind_return_ok.mp h
    exact ⟨rfl, (Nat.mul_div_cancel' (Nat.dvd_of_mod_eq_zero hdvd)).symm, rfl,
      fun _ _ => ih hgroup, ih hglobal⟩

theorem ArbType.Idle.gathers {arb : ArbType} {n : ℕ} {s : arb.arbiter.State} (h : arb.Idle n s) :
    arb.laws.Gathers n (fun _ => none) s := by
  induction arb generalizing n with
  | roundRobin =>
    obtain ⟨base, highestPri, bestInput, pointer⟩ := s
    cases h
    exact ⟨.new n, rfl, .inl ⟨rfl, fun _ => rfl⟩⟩
  | matrix =>
    obtain ⟨base, matrix, lastReq⟩ := s
    obtain ⟨hranking, h⟩ := h
    cases h
    exact ⟨.new n, rfl, hranking, .inl ⟨fun _ => rfl, rfl⟩⟩
  | tree groups sub ih =>
    obtain ⟨hbase, hsize, hreqs, hgroup, hglobal⟩ := h
    refine ⟨?_, ?_, hsize, fun k hk => ?_, fun k _ => ?_, ih hglobal⟩
    · rw [hbase]
      exact .new n
    · rw [hbase]
    · rw [TreeState.part_none]
      exact ih (hgroup k hk)
    · rw [TreeState.part_none, hreqs]
      exact iff_of_true rfl fun _ => rfl

section Round

variable {n : ℕ} {r : Entries} {l : List (ℤ × ArbEntry)}

theorem fits_idle (hrange : ∀ x ∈ l, 0 ≤ x.1 ∧ x.1 < n) (hdistinct : (l.map Prod.fst).Nodup) :
    Arbiter.Fits n (fun _ => none) l :=
  ⟨fun x hx => ⟨mem_below.mpr (hrange x hx), rfl⟩, hdistinct⟩

theorem eq_nil_of_entries (hr : ∀ i e, r i = some e ↔ none = some e ∨ (i, e) ∈ l)
    (hnone : ∀ i, r i = none) : l = [] := by
  refine eq_nil_iff_forall_not_mem.mpr fun x hx => ?_
  have hsome := (hr x.1 x.2).mpr (.inr hx)
  rw [hnone] at hsome
  cases hsome

theorem mem_of_entries {i : ℤ} {e : ArbEntry}
    (hr : ∀ i e, r i = some e ↔ none = some e ∨ (i, e) ∈ l) (h : r i = some e) : (i, e) ∈ l :=
  ((hr i e).mp h).resolve_left (Option.some_ne_none e).symm

theorem ArbType.select_highest {arb : ArbType} {s : arb.arbiter.State} (hs : arb.Idle n s)
    (hl : Arbiter.Fits n (fun _ => none) l) :
    ∃ w, arb.arbiter.select s l = .ok w ∧
      (l = [] ∧ w = -1 ∨ ∃ e, (w, e) ∈ l ∧ ∀ x ∈ l, x.2.pri ≤ e.pri) := by
  obtain ⟨t, r, ht, hgathers, -, hr⟩ :=
    Arbiter.addRequests_gathers (I := fun _ _ => True) hs.gathers hl
    trivial fun _ _ _ _ _ => trivial
  obtain ⟨t', w, harbitrate, -, hwinner, -⟩ := arb.laws.arbitrate hgathers
  refine ⟨w, bind_ok.mpr ⟨t, ht, bind_ok.mpr ⟨_, harbitrate, rfl⟩⟩, ?_⟩
  rcases hwinner with ⟨hw, hnone⟩ | ⟨e, he, hbest⟩
  · exact .inl ⟨eq_nil_of_entries hr hnone, hw⟩
  · exact .inr ⟨e, mem_of_entries hr he, fun x hx => hbest x.1 x.2 ((hr x.1 x.2).mpr (.inr hx))⟩

theorem RoundRobinState.select_first {s : RoundRobinState} (hs : ArbType.roundRobin.Idle n s)
    (hpointer : 0 ≤ s.pointer ∧ s.pointer < n) (hrange : ∀ x ∈ l, 0 ≤ x.1 ∧ x.1 < n)
    (hl : Arbiter.Fits n (fun _ => none) l) (hne : l ≠ []) :
    ∃ w e, Arbiter.roundRobin.select s l = .ok w ∧ (w, e) ∈ l ∧ ∀ x ∈ l, x.2.pri < e.pri ∨
      x.2.pri = e.pri ∧ (w - s.pointer) % n ≤ (x.1 - s.pointer) % n := by
  obtain ⟨t, r, ht, hgathers, ⟨hfirst, hkept⟩, hr⟩ := Arbiter.addRequests_gathers
    (L := Arbiter.roundRobinLaws) hs.gathers hl
    (I := fun r (t : RoundRobinState) => First r t ∧ t.pointer = s.pointer)
    ⟨first_none s, rfl⟩
    fun hs hi hfree hadd h => (h.1.addRequest hs hi hfree hadd).imp_right fun h' => h'.trans h.2
  rw [← hkept] at hpointer
  rcases hgathers.best with ⟨-, hnone⟩ | ⟨e, he, hpri, -⟩
  · exact absurd (eq_nil_of_entries hr hnone) hne
  · refine ⟨t.bestInput, e, bind_ok.mpr ⟨t, ht, bind_ok.mpr ⟨_, hgathers.arbitrate, rfl⟩⟩,
      mem_of_entries hr he, fun x hx => ?_⟩
    have hw := hrange _ (mem_of_entries hr he)
    have hbest := hfirst x.1 x.2 ((hr x.1 x.2).mpr (.inr hx))
    have hsize : t.base.size = n := hgathers.holds.size
    rw [t.dist_eq hsize hpointer hw, t.dist_eq hsize hpointer (hrange x hx), hkept] at hbest
    rwa [hpri]

end Round

/-- Whatever order the requests are added in, the input that is selected is the same.  In a
round-robin arbiter it is, among those with the highest priority, the first at or after the pointer;
in every arbiter it has the highest priority of all. -/
theorem arbitration_order_free (n : ℕ) (l : List (ℤ × ArbEntry))
    (hrange : ∀ x ∈ l, 0 ≤ x.1 ∧ x.1 < n) (hdistinct : (l.map Prod.fst).Nodup) :
    (∀ s : RoundRobinState, ArbType.roundRobin.Idle n s → 0 ≤ s.pointer → s.pointer < n → l ≠ [] →
      ∃ w e, (∀ l', l.Perm l' → Arbiter.roundRobin.select s l' = .ok w) ∧ (w, e) ∈ l ∧
        ∀ x ∈ l, x.2.pri < e.pri ∨ x.2.pri = e.pri ∧ (w - s.pointer) % n ≤ (x.1 - s.pointer) % n) ∧
    (∀ (arb : ArbType) (s : arb.arbiter.State), arb.Idle n s →
      ∃ w, (∀ l', l.Perm l' → arb.arbiter.select s l' = .ok w) ∧
        (l = [] ∧ w = -1 ∨ ∃ e, (w, e) ∈ l ∧ ∀ x ∈ l, x.2.pri ≤ e.pri)) := by
  have hl := fits_idle hrange hdistinct
  constructor
  · intro s hs hlow hhigh hne
    obtain ⟨w, e, hselect, hbest⟩ := RoundRobinState.select_first hs ⟨hlow, hhigh⟩ hrange hl hne
    exact ⟨w, e, fun l' hperm =>
      Arbiter.roundRobinOrderFree.select_perm hperm hs.gathers hl hselect, hbest⟩
  · intro arb s hs
    obtain ⟨w, hselect, hbest⟩ := ArbType.select_highest hs hl
    exact ⟨w, fun l' hperm => arb.orderFree.select_perm hperm hs.gathers hl hselect, hbest⟩

/-- … as here, in a tree of trees. -/
theorem arbitration_order_free_nested :
    let arb : ArbType := .tree 2 (.tree 2 .roundRobin)
    let l : List (ℤ × ArbEntry) := [(5, ⟨0, 3⟩), (1, ⟨1, 3⟩), (6, ⟨2, 1⟩)]
    ∃ s, arb.arbiter.new 8 = .ok s ∧ ∃ w, arb.arbiter.select s l = .ok w ∧
      arb.arbiter.select s l.reverse = .ok w ∧ ∃ e, (w, e) ∈ l ∧ ∀ x ∈ l, x.2.pri ≤ e.pri := by
  intro arb l
  obtain ⟨s, hs, -⟩ := exists_of_returns (x := arb.arbiter.new 8) (p := fun _ => true)
    (by decide +kernel)
  obtain ⟨w, hw, hbest⟩ := (arbitration_order_free 8 l (by decide) (by decide)).2 arb s
    (arb.idle_new hs)
  exact ⟨s, hs, w, hw l (.refl l), hw l.reverse (reverse_perm l).symm,
    hbest.resolve_left fun h => cons_ne_nil _ _ h.1⟩

end BookSim
