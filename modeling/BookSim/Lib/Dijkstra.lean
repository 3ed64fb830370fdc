/-
# `BookSim.Lib.Dijkstra` — shortest paths with a work list

The algorithm in its plainest form: an array of tentative distances, an array of
predecessors, and a list of the vertices that are not done.  A round takes the first vertex
of least distance off the list and relaxes its edges.  The distance `far` marks a vertex that
was not reached, and `plus` is the addition of the machine: it may wrap around, so what is
proved of the distances supposes that the sums it forms are true sums (`Exact`).

    Walk s v d      there is a path of total weight `d` from `s` to `v`
    Inv s           what holds of the arrays after every round
    ends_iff        the list gets empty exactly if every vertex can be reached at a
                    distance below `far`
    dist_isLeast    and then the distances are those of the shortest paths

A round that finds no vertex below `far` changes nothing, so a list that is not emptied stays
as it is for ever.
-/
import Mathlib.Data.List.Nodup
import Mathlib.Data.List.Range
import Mathlib.Data.Int.Order.Basic
import Mathlib.Logic.Function.Iterate
import Mathlib.Order.Bounds.Basic

namespace BookSim.Dijkstra

open List
open Function (update iterate_succ_apply' update_of_ne update_self)

/-- The arrays and the work list. -/
structure Search where
  dist : ℕ → ℤ
  prev : ℕ → Option ℕ
  rlist : List ℕ

/-- Total weights of the paths from `s` to `v`. -/
inductive Walk (adj : ℕ → List (ℕ × ℤ)) (s : ℕ) : ℕ → ℤ → Prop
  | nil : Walk adj s s 0
  | snoc {u v : ℕ} {d w : ℤ} : Walk adj s u d → (v, w) ∈ adj u → Walk adj s v (d + w)

section Algorithm

variable (far : ℤ) (plus : ℤ → ℤ → ℤ) (adj : ℕ → List (ℕ × ℤ))

/-- The loop for the minimum: the best distance so far, and the vertex it belongs to. -/
def nearestFrom (dist : ℕ → ℤ) : List ℕ → ℤ × Option ℕ → ℤ × Option ℕ
  | [], best => best
  | v :: vs, best => nearestFrom dist vs (if dist v < best.1 then (dist v, some v) else best)

def nearest (dist : ℕ → ℤ) (vs : List ℕ) : Option ℕ := (nearestFrom dist vs (far, none)).2

/-- Relax one edge from `u`. -/
def relaxEdge (u : ℕ) (s : Search) (e : ℕ × ℤ) : Search :=
  let newDist := plus (s.dist u) e.2
  if newDist < s.dist e.1 then
    { s with dist := update s.dist e.1 newDist, prev := update s.prev e.1 (some u) }
  else s

/-- One round.  Without a vertex below `far` nothing is taken off the list. -/
def step (s : Search) : Search :=
  match nearest far s.dist s.rlist with
  | none => s
  | some u => (adj u).foldl (relaxEdge plus u) { s with rlist := s.rlist.erase u }

def init (size start : ℕ) : Search where
  dist i := if i = start then 0 else far
  prev _ := none
  rlist := List.range size

/-- The state after that many rounds. -/
def run (size start m : ℕ) : Search := (step far plus adj)^[m] (init far size start)

/-- The loop comes to its end. -/
def Ends (size start : ℕ) : Prop := ∃ m, (run far plus adj size start m).rlist = []

end Algorithm

variable {far : ℤ} {plus : ℤ → ℤ → ℤ} {adj : ℕ → List (ℕ × ℤ)}

/-! ## The minimum -/

theorem nearestFrom_spec (dist : ℕ → ℤ) : ∀ (vs : List ℕ) (best : ℤ × Option ℕ),
    (nearestFrom dist vs best = best ∨ ∃ u ∈ vs, nearestFrom dist vs best = (dist u, some u) ∧
      dist u < best.1) ∧ (nearestFrom dist vs best).1 ≤ best.1 ∧
      ∀ v ∈ vs, (nearestFrom dist vs best).1 ≤ dist v
  | [], best => ⟨.inl rfl, le_rfl, fun _ hv => absurd hv not_mem_nil⟩
  | v :: vs, best => by
    rw [nearestFrom]
    by_cases hlt : dist v < best.1
    · rw [if_pos hlt]
      obtain ⟨hcases, hle, hall⟩ := nearestFrom_spec dist vs (dist v, some v)
      refine ⟨.inr ?_, hle.trans hlt.le, fun x hx => ?_⟩
      · grind
      · rcases mem_cons.mp hx with rfl | hx
        · exact hle
        · exact hall x hx
    · rw [if_neg hlt]
      obtain ⟨hcases, hle, hall⟩ := nearestFrom_spec dist vs best
      refine ⟨hcases.imp_right fun ⟨u, hu, h⟩ => ⟨u, mem_cons_of_mem v hu, h⟩, hle, fun x hx => ?_⟩
      rcases mem_cons.mp hx with rfl | hx
      · exact hle.trans (not_lt.mp hlt)
      · exact hall x hx

theorem nearest_eq_none_iff {dist : ℕ → ℤ} {vs : List ℕ} :
    nearest far dist vs = none ↔ ∀ v ∈ vs, far ≤ dist v := by
  obtain ⟨hcases, -, hall⟩ := nearestFrom_spec dist vs (far, none)
  rw [nearest]
  rcases hcases with heq | ⟨u, hu, heq, hlt⟩
  · rw [heq] at hall ⊢
    exact iff_of_true rfl hall
  · rw [heq]
    exact iff_of_false (Option.some_ne_none u) fun h => absurd (h u hu) (not_le.mpr hlt)

theorem nearest_eq_some {dist : ℕ → ℤ} {vs : List ℕ} {u : ℕ} (h : nearest far dist vs = some u) :
    u ∈ vs ∧ dist u < far ∧ ∀ v ∈ vs, dist u ≤ dist v := by
  obtain ⟨hcases, -, hall⟩ := nearestFrom_spec dist vs (far, none)
  rw [nearest] at h
  rcases hcases with heq | ⟨u', hu, heq, hlt⟩
  · rw [heq] at h
    cases h
  · rw [heq] at h hall
    cases h
    exact ⟨hu, hlt, hall⟩

/-! ## Relaxing the edges of a vertex -/

/-- **The loop over the edges of `u`.**  A distance either stays, with its predecessor, or is
now the one by way of `u`; and no edge of `u` can make it any smaller. -/
theorem foldl_relaxEdge_spec (u : ℕ) : ∀ (es : List (ℕ × ℤ)) (s : Search),
    (∀ e ∈ es, 0 ≤ e.2 ∧ plus (s.dist u) e.2 = s.dist u + e.2) →
    let t := es.foldl (relaxEdge plus u) s
    t.rlist = s.rlist ∧ t.dist u = s.dist u ∧ (∀ e ∈ es, t.dist e.1 ≤ s.dist u + e.2) ∧
      ∀ v, t.dist v = s.dist v ∧ t.prev v = s.prev v ∨
        ∃ w, (v, w) ∈ es ∧ t.dist v = s.dist u + w ∧ t.prev v = some u ∧ t.dist v < s.dist v
  | [], s, _ => ⟨rfl, rfl, fun _ he => absurd he not_mem_nil, fun _ => .inl ⟨rfl, rfl⟩⟩
  | (x, w) :: es, s, hes => by
    obtain ⟨hw, hplus⟩ := hes (x, w) mem_cons_self
    have hrest : ∀ e ∈ es, 0 ≤ e.2 ∧ plus (s.dist u) e.2 = s.dist u + e.2 :=
      fun e he => hes e (mem_cons_of_mem _ he)
    rw [foldl_cons]
    by_cases hlt : s.dist u + w < s.dist x
    · have hstep : relaxEdge plus u s (x, w) = { s with
          dist := update s.dist x (s.dist u + w), prev := update s.prev x (some u) } := by
        rw [relaxEdge, hplus, if_pos hlt]
      have hux : u ≠ x := by
        rintro rfl
        omega
      rw [hstep]
      obtain ⟨hlist, hu, hedges, hall⟩ := foldl_relaxEdge_spec u es { s with
        dist := update s.dist x (s.dist u + w), prev := update s.prev x (some u) } (by
          simpa only [update_of_ne hux] using hrest)
      simp only [update_of_ne hux] at hu hedges hall
      refine ⟨hlist, hu, ?_, fun v => ?_⟩
      · grind
      · grind
    · have hstep : relaxEdge plus u s (x, w) = s := by
        rw [relaxEdge, hplus, if_neg hlt]
      rw [hstep]
      obtain ⟨hlist, hu, hedges, hall⟩ := foldl_relaxEdge_spec u es s hrest
      have hle : ∀ v, (es.foldl (relaxEdge plus u) s).dist v ≤ s.dist v := by
        intro v
        rcases hall v with ⟨h, -⟩ | ⟨-, -, -, -, h⟩
        · exact h.le
        · exact h.le
      refine ⟨hlist, hu, ?_, fun v => ?_⟩
      · intro e he
        rcases mem_cons.mp he with rfl | he
        · exact (hle x).trans (not_lt.mp hlt)
        · exact hedges e he
      · exact (hall v).imp_right fun ⟨w', hmem, h⟩ => ⟨w', mem_cons_of_mem _ hmem, h⟩

/-! ## Paths -/

section Walks

variable {a b v : ℕ} {d d' : ℤ}

theorem Walk.trans (h : Walk adj a b d) (h' : Walk adj b v d') : Walk adj a v (d + d') := by
  induction h' with
  | nil => rwa [Int.add_zero]
  | snoc _ he ih =>
    rw [← Int.add_assoc]
    exact .snoc ih he

theorem Walk.single {w : ℤ} (h : (v, w) ∈ adj a) : Walk adj a v w := by
  have hsnoc : Walk adj a v (0 + w) := .snoc .nil h
  rwa [Int.zero_add] at hsnoc

theorem Walk.nonneg (hnonneg : ∀ u, ∀ e ∈ adj u, 0 ≤ e.2) (h : Walk adj a v d) : 0 ≤ d := by
  induction h with
  | nil => exact le_rfl
  | snoc _ he ih => exact Int.add_nonneg ih (hnonneg _ _ he)

theorem Walk.lt {size : ℕ} (hclosed : ∀ u < size, ∀ e ∈ adj u, e.1 < size) (ha : a < size)
    (h : Walk adj a v d) : v < size := by
  induction h with
  | nil => exact ha
  | snoc _ he ih => exact hclosed _ ih _ he

end Walks

/-! ## What every round keeps -/

/-- A search that has gone right so far. -/
structure Inv (far : ℤ) (adj : ℕ → List (ℕ × ℤ)) (size start : ℕ) (s : Search) : Prop where
  nodup : s.rlist.Nodup
  rlist_lt : ∀ v ∈ s.rlist, v < size
  start_eq : s.dist start = 0 ∧ s.prev start = none
  le_far : ∀ v, s.dist v ≤ far
  walk : ∀ v, s.dist v < far → Walk adj start v (s.dist v)
  done : ∀ u < size, u ∉ s.rlist → s.dist u < far
  nearer : ∀ u < size, u ∉ s.rlist → ∀ v ∈ s.rlist, s.dist u ≤ s.dist v
  relaxed : ∀ u < size, u ∉ s.rlist → ∀ e ∈ adj u, s.dist e.1 ≤ s.dist u + e.2
  /-- A vertex that was reached has its distance by way of its predecessor. -/
  pred : ∀ v, v ≠ start → s.dist v < far →
    ∃ u w, s.prev v = some u ∧ (v, w) ∈ adj u ∧ s.dist v = s.dist u + w ∧ u < size ∧ u ∉ s.rlist

section Rounds

variable {size start : ℕ} {s : Search}

theorem inv_init (hfar : 0 < far) : Inv far adj size start (init far size start) where
  nodup := nodup_range
  rlist_lt v hv := mem_range.mp hv
  start_eq := ⟨if_pos rfl, rfl⟩
  le_far v := by
    simp only [init]
    split
    · exact hfar.le
    · exact le_rfl
  walk v hv := by
    simp only [init] at hv ⊢
    split at hv
    next h =>
      rw [if_pos h, h]
      exact .nil
    next => exact absurd hv (lt_irrefl far)
  done u hu hmem := absurd (mem_range.mpr hu) hmem
  nearer u hu hmem := absurd (mem_range.mpr hu) hmem
  relaxed u hu hmem := absurd (mem_range.mpr hu) hmem
  pred v hne hv := by
    simp only [init, if_neg hne] at hv
    exact absurd hv (lt_irrefl far)

variable (hnonneg : ∀ u, ∀ e ∈ adj u, 0 ≤ e.2)

include hnonneg

/-- A round that takes `u` off the list and whose sums are true sums. -/
theorem Inv.relax (h : Inv far adj size start s) {u : ℕ} (hu : u ∈ s.rlist) (hlt : s.dist u < far)
    (hmin : ∀ v ∈ s.rlist, s.dist u ≤ s.dist v)
    (hexact : ∀ e ∈ adj u, plus (s.dist u) e.2 = s.dist u + e.2) :
    Inv far adj size start
      ((adj u).foldl (relaxEdge plus u) { s with rlist := s.rlist.erase u }) := by
  obtain ⟨hlist, hdistu, hedges, hall⟩ := foldl_relaxEdge_spec u (adj u)
    { s with rlist := s.rlist.erase u } fun e he => ⟨hnonneg u e he, hexact e he⟩
  generalize (adj u).foldl (relaxEdge plus u) { s with rlist := s.rlist.erase u } = t at *
  simp only at hlist hdistu hedges hall
  have hmem : ∀ v, v ∈ t.rlist ↔ v ≠ u ∧ v ∈ s.rlist := fun v => by
    rw [hlist, h.nodup.mem_erase_iff]
  have hle : ∀ v, t.dist v ≤ s.dist v := by
    intro v
    rcases hall v with ⟨h', -⟩ | ⟨-, -, -, -, h'⟩
    · exact h'.le
    · exact h'.le
  -- Vertices that are done are no further away than `u`, so their distance stays.
  have hdone : ∀ x < size, x ∉ t.rlist → t.dist x = s.dist x ∧ s.dist x ≤ s.dist u := by
    intro x hx hxt
    have hxu : s.dist x ≤ s.dist u := by
      by_cases hx' : x ∈ s.rlist
      · obtain rfl : x = u := by
          by_contra hne
          exact hxt ((hmem x).mpr ⟨hne, hx'⟩)
        exact le_rfl
      · exact h.nearer x hx hx' u hu
    refine ⟨?_, hxu⟩
    rcases hall x with ⟨h', -⟩ | ⟨w, hw, heq, -, hless⟩
    · exact h'
    · have := hnonneg u _ hw
      omega
  have hcases : ∀ x < size, x ∉ t.rlist → x = u ∨ x ∉ s.rlist := by
    intro x _ hxt
    by_cases hx : x = u
    · exact .inl hx
    · exact .inr fun hmem' => hxt ((hmem x).mpr ⟨hx, hmem'⟩)
  have hu_nonneg : 0 ≤ s.dist u := (h.walk u hlt).nonneg hnonneg
  refine ⟨?_, ?_, ?_, ?_, ?_, ?_, ?_, ?_, ?_⟩
  · rw [hlist]
    exact h.nodup.erase u
  · exact fun v hv => h.rlist_lt v ((hmem v).mp hv).2
  · rcases hall start with ⟨hd, hp⟩ | ⟨w, hw, heq, -, hless⟩
    · exact ⟨hd.trans h.start_eq.1, hp.trans h.start_eq.2⟩
    · have := hnonneg u _ hw
      have := h.start_eq.1
      omega
  · exact fun v => (hle v).trans (h.le_far v)
  · intro v hv
    rcases hall v with ⟨hd, -⟩ | ⟨w, hw, heq, -, -⟩
    · rw [hd] at hv ⊢
      exact h.walk v hv
    · rw [heq]
      exact .snoc (h.walk u hlt) hw
  · intro x hx hxt
    rw [(hdone x hx hxt).1]
    exact (hdone x hx hxt).2.trans_lt hlt
  · grind
  · intro x hx hxt e he
    rw [(hdone x hx hxt).1]
    rcases hcases x hx hxt with rfl | hxs
    · exact hedges e he
    · exact (hle e.1).trans (h.relaxed x hx hxs e he)
  · intro v hne hv
    rcases hall v with ⟨hd, hp⟩ | ⟨w, hw, heq, hp, -⟩
    · rw [hd] at hv ⊢
      obtain ⟨x, w, hprev, hedge, hsum, hx, hxs⟩ := h.pred v hne hv
      have hxt : x ∉ t.rlist := fun hx' => hxs ((hmem x).mp hx').2
      exact ⟨x, w, hp.trans hprev, hedge, by rw [hsum, (hdone x hx hxt).1], hx, hxt⟩
    · refine ⟨u, w, hp, hw, by rw [heq, hdistu], h.rlist_lt u hu, fun hu' => ?_⟩
      exact ((hmem u).mp hu').1 rfl

variable (hstart : start < size) (hclosed : ∀ u < size, ∀ e ∈ adj u, e.1 < size)

include hstart hclosed

/-- A path leads to a vertex that is done and no further away, or past one of the list that is
no further away. -/
theorem Inv.walk_cases (h : Inv far adj size start s) {v : ℕ} {d : ℤ} (hwalk : Walk adj start v d) :
    v ∉ s.rlist ∧ s.dist v ≤ d ∨ ∃ b ∈ s.rlist, s.dist b ≤ d := by
  induction hwalk with
  | nil =>
    by_cases hmem : start ∈ s.rlist
    · exact .inr ⟨start, hmem, h.start_eq.1.le⟩
    · exact .inl ⟨hmem, h.start_eq.1.le⟩
  | @snoc u v d w hu he ih =>
    have hw := hnonneg u _ he
    rcases ih with ⟨hmem, hle⟩ | ⟨b, hb, hle⟩
    · have hrelaxed : s.dist v ≤ s.dist u + w := h.relaxed u (hu.lt hclosed hstart) hmem _ he
      by_cases hv : v ∈ s.rlist
      · exact .inr ⟨v, hv, by omega⟩
      · exact .inl ⟨hv, by omega⟩
    · exact .inr ⟨b, hb, by omega⟩

/-- The next vertex, and every vertex that is done, has the distance of a shortest path. -/
theorem Inv.isLeast_of_nearest (h : Inv far adj size start s) {u : ℕ} (hlt : s.dist u < far)
    (hmin : ∀ v ∈ s.rlist, s.dist u ≤ s.dist v) :
    IsLeast {d | Walk adj start u d} (s.dist u) := by
  refine ⟨h.walk u hlt, fun d hd => ?_⟩
  rcases h.walk_cases hnonneg hstart hclosed hd with ⟨-, hle⟩ | ⟨b, hb, hle⟩
  · exact hle
  · exact (hmin b hb).trans hle

/-- The sums that are formed are true sums. -/
def Exact (far : ℤ) (plus : ℤ → ℤ → ℤ) (adj : ℕ → List (ℕ × ℤ)) (start : ℕ) : Prop :=
  ∀ u, ∀ d < far, IsLeast {d | Walk adj start u d} d → ∀ e ∈ adj u, plus d e.2 = d + e.2

theorem Inv.step (h : Inv far adj size start s) (hexact : Exact far plus adj start) :
    Inv far adj size start (step far plus adj s) := by
  unfold Dijkstra.step
  cases hnear : nearest far s.dist s.rlist with
  | none => exact h
  | some u =>
    obtain ⟨hu, hlt, hmin⟩ := nearest_eq_some hnear
    exact h.relax hnonneg hu hlt hmin
      (hexact u _ hlt (h.isLeast_of_nearest hnonneg hstart hclosed hlt hmin))

theorem inv_run (hfar : 0 < far) (hexact : Exact far plus adj start) (m : ℕ) :
    Inv far adj size start (run far plus adj size start m) := by
  induction m with
  | zero => exact inv_init hfar
  | succ m ih =>
    rw [run, iterate_succ_apply']
    exact ih.step hnonneg hstart hclosed hexact

end Rounds

/-! ## The end of the loop -/

section Ends

variable {size start : ℕ}

/-- Whatever the sums may be, only vertices that can be reached are ever below `far`, and only
such are taken off the list. -/
structure Marks (far : ℤ) (adj : ℕ → List (ℕ × ℤ)) (size start : ℕ) (s : Search) : Prop where
  le_far : ∀ v, s.dist v ≤ far
  reached : ∀ v, s.dist v < far → ∃ d, Walk adj start v d
  done : ∀ v < size, v ∉ s.rlist → s.dist v < far

theorem Marks.relaxEdge {s : Search} (h : Marks far adj size start s) {u : ℕ} {e : ℕ × ℤ}
    (hu : s.dist u < far) (he : e ∈ adj u) :
    Marks far adj size start (relaxEdge plus u s e) ∧ (relaxEdge plus u s e).dist u < far := by
  by_cases hlt : plus (s.dist u) e.2 < s.dist e.1
  · simp only [Dijkstra.relaxEdge, if_pos hlt]
    have hle : ∀ v, update s.dist e.1 (plus (s.dist u) e.2) v ≤ s.dist v := by
      intro v
      by_cases hv : v = e.1
      · rw [hv, update_self]
        exact hlt.le
      · rw [update_of_ne hv]
    refine ⟨⟨fun v => (hle v).trans (h.le_far v), fun v hv => ?_, fun v hv hmem =>
      (hle v).trans_lt (h.done v hv hmem)⟩, (hle u).trans_lt hu⟩
    by_cases heq : v = e.1
    · obtain ⟨d, hd⟩ := h.reached u hu
      exact ⟨d + e.2, heq ▸ .snoc hd he⟩
    · simp only [update_of_ne heq] at hv
      exact h.reached v hv
  · simp only [Dijkstra.relaxEdge, if_neg hlt]
    exact ⟨h, hu⟩

theorem Marks.foldl {u : ℕ} : ∀ (es : List (ℕ × ℤ)) (s : Search), Marks far adj size start s →
    s.dist u < far → (∀ e ∈ es, e ∈ adj u) →
    Marks far adj size start (es.foldl (Dijkstra.relaxEdge plus u) s)
  | [], _, h, _, _ => h
  | e :: es, s, h, hu, hes => by
    obtain ⟨h', hu'⟩ := @Marks.relaxEdge far plus adj _ _ s h u e hu (hes e mem_cons_self)
    exact Marks.foldl es _ h' hu' fun e' he' => hes e' (mem_cons_of_mem _ he')

theorem marks_run (hfar : 0 < far) (m : ℕ) :
    Marks far adj size start (run far plus adj size start m) := by
  induction m with
  | zero =>
    refine ⟨fun v => ?_, fun v hv => ?_, fun v hv hmem => absurd (mem_range.mpr hv) hmem⟩
    · exact (@inv_init far adj size start hfar).le_far v
    · exact ⟨_, (@inv_init far adj size start hfar).walk v hv⟩
  | succ m ih =>
    rw [run, iterate_succ_apply', ← run, step]
    cases hnear : nearest far _ _ with
    | none => exact ih
    | some u =>
      obtain ⟨-, hlt, -⟩ := nearest_eq_some hnear
      refine Marks.foldl _ _ ⟨ih.le_far, ih.reached, fun v hv hmem => ?_⟩ hlt fun _ => id
      by_cases hvu : v = u
      · exact hvu ▸ hlt
      · exact ih.done v hv fun h => hmem ((mem_erase_of_ne hvu).mpr h)

/-- A vertex that cannot be reached keeps the loop from ending. -/
theorem not_ends (hfar : 0 < far) {v : ℕ} (hv : v < size) (hun : ∀ d, ¬ Walk adj start v d) :
    ¬ Ends far plus adj size start := by
  rintro ⟨m, hm⟩
  have hmarks := @marks_run far plus adj size start hfar m
  obtain ⟨d, hd⟩ := hmarks.reached v (hmarks.done v hv (by rw [hm]; exact not_mem_nil))
  exact hun d hd

/-- A round that finds a vertex takes exactly that one off the list. -/
theorem rlist_step {s : Search} {u : ℕ} (h : nearest far s.dist s.rlist = some u) :
    (step far plus adj s).rlist = s.rlist.erase u := by
  have hfold : ∀ (es : List (ℕ × ℤ)) (s : Search),
      (es.foldl (relaxEdge plus u) s).rlist = s.rlist := by
    intro es
    induction es with
    | nil => exact fun _ => rfl
    | cons e es ih =>
      intro s
      rw [foldl_cons, ih]
      simp only [relaxEdge]
      split <;> rfl
  rw [step, h]
  exact hfold _ _

/-- A round that finds nothing is the last to change anything. -/
theorem run_of_stalled {m : ℕ}
    (h : nearest far (run far plus adj size start m).dist (run far plus adj size start m).rlist =
    none) : ∀ k, run far plus adj size start (m + k) = run far plus adj size start m
  | 0 => rfl
  | k + 1 => by
    rw [run, ← Nat.add_assoc, iterate_succ_apply', ← run, run_of_stalled h k, step, h]

theorem length_run : ∀ {m : ℕ}, (∀ j < m, nearest far (run far plus adj size start j).dist
      (run far plus adj size start j).rlist ≠ none) →
    (run far plus adj size start m).rlist.length = size - m
  | 0, _ => length_range
  | m + 1, h => by
    obtain ⟨u, hu⟩ := Option.ne_none_iff_exists'.mp (h m (Nat.lt_succ_self m))
    rw [run, iterate_succ_apply', ← run, rlist_step hu, length_erase_of_mem (nearest_eq_some hu).1,
      length_run fun j hj => h j (Nat.lt_succ_of_lt hj)]
    omega

/-- If the list gets empty at all, it is so after a round for each vertex. -/
theorem ends_iff_run :
    Ends far plus adj size start ↔ (run far plus adj size start size).rlist = [] := by
  refine ⟨fun ⟨m, hm⟩ => ?_, fun h => ⟨size, h⟩⟩
  have hempty : nearest far (run far plus adj size start m).dist
      (run far plus adj size start m).rlist = none := by
    rw [hm]
    rfl
  by_cases hall : ∀ j < size, nearest far (run far plus adj size start j).dist
      (run far plus adj size start j).rlist ≠ none
  · exact eq_nil_of_length_eq_zero (by rw [length_run hall, Nat.sub_self])
  · push Not at hall
    obtain ⟨j, hj, hstalled⟩ := hall
    -- Both stand still from then on, so they are the same.
    have hsame := (run_of_stalled hstalled m).symm.trans
      ((congrArg _ (Nat.add_comm j m)).trans (run_of_stalled hempty j))
    have hsize := run_of_stalled hstalled (size - j)
    rw [Nat.add_sub_cancel' hj.le] at hsize
    rw [hsize, hsame, hm]

variable (hnonneg : ∀ u, ∀ e ∈ adj u, 0 ≤ e.2) (hstart : start < size)
  (hclosed : ∀ u < size, ∀ e ∈ adj u, e.1 < size)

include hnonneg hstart hclosed

/-- **When the loop ends.**  The list gets empty exactly if every vertex can be reached at a
distance below `far`. -/
theorem ends_iff (hfar : 0 < far) (hexact : Exact far plus adj start) :
    Ends far plus adj size start ↔ ∀ v < size, ∃ d < far, Walk adj start v d := by
  have hinv := fun m => inv_run hnonneg hstart hclosed hfar hexact m
  constructor
  · rintro ⟨m, hm⟩ v hv
    have hlt := (hinv m).done v hv (by rw [hm]; exact not_mem_nil)
    exact ⟨_, hlt, (hinv m).walk v hlt⟩
  · intro hreach
    by_cases hall : ∀ j < size, nearest far (run far plus adj size start j).dist
        (run far plus adj size start j).rlist ≠ none
    · exact ⟨size, eq_nil_of_length_eq_zero (by rw [length_run hall, Nat.sub_self])⟩
    · push Not at hall
      obtain ⟨j, -, hstalled⟩ := hall
      refine ⟨j, eq_nil_iff_forall_not_mem.mpr fun v hv => ?_⟩
      obtain ⟨d, hd, hwalk⟩ := hreach v ((hinv j).rlist_lt v hv)
      rcases (hinv j).walk_cases hnonneg hstart hclosed hwalk with ⟨hmem, -⟩ | ⟨b, hb, hle⟩
      · exact hmem hv
      · exact absurd (nearest_eq_none_iff.mp hstalled b hb) (not_le.mpr (hle.trans_lt hd))

/-- **Shortest paths.**  At the end the distances are those of the shortest paths. -/
theorem dist_isLeast (hfar : 0 < far) (hexact : Exact far plus adj start) {m : ℕ}
    (hend : (run far plus adj size start m).rlist = []) {v : ℕ} (hv : v < size) :
    IsLeast {d | Walk adj start v d} ((run far plus adj size start m).dist v) := by
  have hinv := inv_run hnonneg hstart hclosed hfar hexact m
  refine hinv.isLeast_of_nearest hnonneg hstart hclosed (hinv.done v hv ?_) fun b hb => ?_
  · rw [hend]
    exact not_mem_nil
  · rw [hend] at hb
    exact absurd hb not_mem_nil

end Ends

/-! ## The first hop -/

/-- Follow the predecessors back until the next one is `start`; `back` is a check of each step. -/
def firstHop (back : ℕ → ℕ → Bool) (prev : ℕ → Option ℕ) (start : ℕ) : ℕ → ℕ → Option ℕ
  | 0, _ => none
  | fuel + 1, v =>
    match prev v with
    | none => none
    | some u =>
      if u = start then some v
      else if back v u then firstHop back prev start fuel u else none

/-- With positive weights a vertex at distance `d` is at most `d` steps away, and what the steps
lead back to is the first hop of a path of that length. -/
theorem Inv.firstHop_spec {size start : ℕ} {s : Search} (h : Inv far adj size start s)
    (hpos : ∀ u, ∀ e ∈ adj u, 0 < e.2) {back : ℕ → ℕ → Bool}
    (hback : ∀ u < size, ∀ e ∈ adj u, back e.1 u = true) :
    ∀ {fuel v : ℕ}, v ≠ start → s.dist v < far → s.dist v ≤ fuel →
      ∃ hop w d, firstHop back s.prev start fuel v = some hop ∧ (hop, w) ∈ adj start ∧
        Walk adj hop v d ∧ s.dist v = w + d
  | fuel, v, hne, hv, hfuel => by
    have hnonneg : ∀ u, ∀ e ∈ adj u, 0 ≤ e.2 := fun u e he => (hpos u e he).le
    obtain ⟨u, w, hprev, hedge, hsum, hu, hdone⟩ := h.pred v hne hv
    have hw : 0 < w := hpos u _ hedge
    have hufar : s.dist u < far := h.done u hu hdone
    have hu_nonneg : 0 ≤ s.dist u := (h.walk u hufar).nonneg hnonneg
    obtain ⟨fuel, rfl⟩ : ∃ m, fuel = m + 1 := ⟨fuel - 1, by omega⟩
    by_cases hstart : u = start
    · refine ⟨v, w, 0, ?_, hstart ▸ hedge, .nil, ?_⟩
      · simp only [firstHop, hprev, if_pos hstart]
      · rw [hsum, hstart, h.start_eq.1]
        omega
    · obtain ⟨hop, w', d, hhop, hmem, hwalk, hsum'⟩ :=
        Inv.firstHop_spec h hpos hback hstart hufar (show s.dist u ≤ fuel by omega)
      refine ⟨hop, w', d + w, ?_, hmem, .snoc hwalk hedge, by omega⟩
      simp only [firstHop, hprev, if_neg hstart, hback u hu _ hedge, if_true, hhop]

end BookSim.Dijkstra
