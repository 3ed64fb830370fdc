/-
# `BookSim.Networks.BinaryTree` — the hops of the binary tree of a DGX-1

The nodes of the tree are numbered as in a heap, `2i + 1` and `2i + 2` below `i`.  `next_hop` looks
for the nodes next to the two ends of the path between `x` and `y`, on the numbers from one, where
the parent is the half:

    while dep(x) < dep(y)     the deeper end goes up, and its first half is its neighbour
    x == y                    the last `y` before it is the neighbour of `x`
    while x != y              both ends go up, and the first half of `x` is the neighbour of `x`

The last loop never sets the neighbour of `y`, which is then still `y` for two nodes of one depth.
-/
import BookSim.Lib.RootedTree

namespace BookSim.BinaryTree

/-- The loop of `dep`. -/
def depLoop (d x : ℕ) : ℕ :=
  if x > 0 then depLoop (d + 1) (x / 2) else d
termination_by x

/-- `dep`: the number of binary digits. -/
def dep (x : ℕ) : ℕ := depLoop 0 x

theorem depLoop_add (d e x : ℕ) : depLoop (d + e) x = d + depLoop e x := by
  fun_induction depLoop e x with
  | case1 e x hpos ih => rw [depLoop, if_pos hpos, ← ih, Nat.add_assoc]
  | case2 e x hzero => rw [depLoop, if_neg hzero]

@[simp] theorem dep_zero : dep 0 = 0 := by
  rw [dep, depLoop, if_neg (lt_irrefl 0)]

theorem dep_of_pos {x : ℕ} (hpos : 0 < x) : dep x = dep (x / 2) + 1 := by
  rw [dep, depLoop, if_pos hpos, Nat.add_comm 0 1, depLoop_add, dep, Nat.add_comm]

theorem dep_one : dep 1 = 1 := by
  rw [dep_of_pos Nat.one_pos, show 1 / 2 = 0 from rfl, dep_zero]

theorem pos_of_dep_pos {x : ℕ} (hpos : 0 < dep x) : 0 < x := by
  rcases Nat.eq_zero_or_pos x with rfl | h
  · exact absurd hpos (by rw [dep_zero]; exact lt_irrefl 0)
  · exact h

/-- The first loop of `next_hop`, with `y`, `last_hop_y` and `first_hop_y`. -/
def riseLoop (x y lastHopY firstHopY : ℕ) (flag1 : Bool) : ℕ × ℕ × ℕ :=
  if dep x < dep y then
    riseLoop x (y / 2) y (if flag1 then firstHopY else y / 2) true
  else (y, lastHopY, firstHopY)
termination_by y
decreasing_by exact Nat.div_lt_self (pos_of_dep_pos (by omega)) Nat.one_lt_two

/-- The last loop of `next_hop`, with `first_hop_x`. -/
def meetLoop (x y firstHopX : ℕ) (flag2 : Bool) : ℕ :=
  if x ≠ y then meetLoop (x / 2) (y / 2) (if flag2 then firstHopX else x / 2) true
  else firstHopX
termination_by x + y
decreasing_by omega

/-- `next_hop`. -/
def nextHop (x y : ℕ) : ℕ × ℕ :=
  let flag := decide (dep (x + 1) > dep (y + 1))
  let (x, y) := if flag then (y + 1, x + 1) else (x + 1, y + 1)
  let (y', lastHopY, firstHopY) := riseLoop x y y y false
  let firstHopX := if x = y' then lastHopY else x
  let firstHopX := meetLoop x y' firstHopX false
  let (firstHopX, firstHopY) :=
    if flag then (firstHopY, firstHopX) else (firstHopX, firstHopY)
  (firstHopX - 1, firstHopY - 1)

/-- The tree itself. -/
def heapTree : RootedTree ℕ where
  root := 0
  parent i := (i - 1) / 2
  level i := i
  parent_root := rfl
  level_parent := by
    intro i hi
    omega

theorem parent_eq (v : ℕ) : heapTree.parent v = (v + 1) / 2 - 1 := by
  change (v - 1) / 2 = _
  omega

/-! ## Depths -/

theorem dep_succ_pos (v : ℕ) : 0 < dep (v + 1) := by
  rw [dep_of_pos (Nat.succ_pos v)]
  exact Nat.succ_pos _

theorem eq_zero_of_dep_le {v : ℕ} (hdep : dep (v + 1) ≤ 1) : v = 0 := by
  by_contra hv
  rw [dep_of_pos (Nat.succ_pos v), dep_of_pos (x := (v + 1) / 2) (by omega)] at hdep
  omega

theorem half_eq {v : ℕ} (hv : v ≠ 0) : (v + 1) / 2 = heapTree.parent v + 1 := by
  rw [parent_eq]
  omega

theorem dep_parent (v : ℕ) : dep (heapTree.parent v + 1) = max 1 (dep (v + 1) - 1) := by
  by_cases hv : v = 0
  · subst hv
    rw [show heapTree.parent 0 = 0 from rfl, dep_one]
    rfl
  · have hpos := dep_succ_pos (heapTree.parent v)
    rw [dep_of_pos (Nat.succ_pos v), half_eq hv]
    omega

theorem dep_iterate (n v : ℕ) : dep (heapTree.parent^[n] v + 1) = max 1 (dep (v + 1) - n) := by
  induction n generalizing v with
  | zero =>
    have hpos := dep_succ_pos v
    change dep (v + 1) = _
    omega
  | succ n ih =>
    rw [Function.iterate_succ_apply, ih, dep_parent]
    omega

theorem below_iff_iterate {x y n : ℕ} (hn : dep (y + 1) = dep (x + 1) + n) :
    heapTree.Below x y ↔ heapTree.parent^[n] y = x := by
  constructor
  · rintro ⟨m, hm⟩
    have hdepm := dep_iterate m y
    rw [hm] at hdepm
    have hdepn := dep_iterate n y
    have hpos := dep_succ_pos x
    by_cases hroot : dep (x + 1) ≤ 1
    · rw [eq_zero_of_dep_le hroot]
      exact eq_zero_of_dep_le (by omega)
    · rw [show n = m by omega, hm]
  · exact fun h => ⟨n, h⟩

variable {x y : ℕ}

theorem dep_le_of_below (h : heapTree.Below x y) : dep (x + 1) ≤ dep (y + 1) := by
  obtain ⟨n, rfl⟩ := h
  have hpos := dep_succ_pos y
  rw [dep_iterate]
  omega

/-! ## The loops -/

theorem riseLoop_of_not_lt (h : ¬ dep x < dep y) (last first : ℕ) (flag : Bool) :
    riseLoop x y last first flag = (y, last, first) := by
  rw [riseLoop, if_neg h]

theorem riseLoop_step (h : dep (x + 1) < dep (y + 1)) (last first : ℕ) (flag : Bool) :
    riseLoop (x + 1) (y + 1) last first flag = riseLoop (x + 1) (heapTree.parent y + 1) (y + 1)
        (if flag then first else heapTree.parent y + 1) true := by
  have hy : y ≠ 0 := by
    rintro rfl
    have hpos := dep_succ_pos x
    rw [dep_one] at h
    omega
  rw [riseLoop, if_pos h, half_eq hy]

theorem riseLoop_eq {x n : ℕ} (y : ℕ) (hn : dep (y + 1) = dep (x + 1) + (n + 1)) (last first : ℕ)
    (flag : Bool) : riseLoop (x + 1) (y + 1) last first flag =
      (heapTree.parent^[n + 1] y + 1, heapTree.parent^[n] y + 1,
        if flag then first else heapTree.parent y + 1) := by
  have hpos := dep_succ_pos x
  have hparent := dep_parent y
  rw [riseLoop_step (by omega)]
  induction n generalizing y last first flag with
  | zero => rw [riseLoop_of_not_lt (by omega)]; rfl
  | succ n ih =>
    have hparent' := dep_parent (heapTree.parent y)
    rw [riseLoop_step (by omega)]
    exact ih (heapTree.parent y) (by omega) (y + 1) _ true hparent'

theorem meetLoop_true (x y first : ℕ) : meetLoop x y first true = first := by
  induction hs : x + y using Nat.strong_induction_on generalizing x y with
  | _ s ih =>
    rw [meetLoop]
    split
    case isTrue hne => exact ih _ (by omega) _ _ rfl
    case isFalse => rfl

theorem meetLoop_false (x y first : ℕ) :
    meetLoop x y first false = if x = y then first else x / 2 := by
  rw [meetLoop]
  by_cases h : x = y
  · rw [if_neg (not_not.mpr h), if_pos h]
  · rw [if_pos h, if_neg h]
    exact meetLoop_true _ _ _

/-! ## The hops -/

theorem nextHop_eq {x y n : ℕ} (hn : dep (y + 1) = dep (x + 1) + (n + 1)) :
    nextHop x y = (if heapTree.parent^[n + 1] y = x then heapTree.parent^[n] y
      else heapTree.parent x, heapTree.parent y) := by
  simp only [nextHop, decide_eq_true_eq, if_neg (show ¬ dep (x + 1) > dep (y + 1) by omega),
    riseLoop_eq y hn, meetLoop_false, Bool.false_eq_true, if_false]
  by_cases h : heapTree.parent^[n + 1] y = x
  · rw [if_pos h, h, if_pos rfl, if_pos rfl]
    rfl
  · rw [if_neg h, if_neg (fun hx => h (Nat.succ_inj.mp hx).symm), ← parent_eq]
    rfl

theorem nextHop_swap {x y n : ℕ} (hn : dep (y + 1) = dep (x + 1) + (n + 1)) :
    nextHop y x = (nextHop x y).swap := by
  simp only [nextHop, decide_eq_true_eq, if_neg (show ¬ dep (x + 1) > dep (y + 1) by omega),
    if_pos (show dep (y + 1) > dep (x + 1) by omega), Prod.swap]

theorem nextHop_snd_of_eq (hdep : dep (x + 1) = dep (y + 1)) : (nextHop x y).2 = y := by
  simp only [nextHop, decide_eq_true_eq, if_neg (show ¬ dep (x + 1) > dep (y + 1) by omega),
    riseLoop_of_not_lt (show ¬ dep (x + 1) < dep (y + 1) by omega)]
  rfl

open SimpleGraph

theorem nextHop_path {x y n : ℕ} (hn : dep (y + 1) = dep (x + 1) + (n + 1))
    {p : heapTree.graph.Walk x y} (hp : p.IsPath) : nextHop x y = (p.snd, p.penultimate) := by
  have hne : x ≠ y := by rintro rfl; omega
  rw [nextHop_eq hn, Prod.mk.injEq]
  constructor
  · rcases RootedTree.snd_of_isPath hp hne with ⟨hbelow, hz, hzne, hzy⟩ | ⟨hout, hz⟩
    · have hx := (below_iff_iterate hn).mp hbelow
      rw [if_pos hx]
      refine RootedTree.child_unique ?_ ?_ ⟨n, rfl⟩ hz hzne hzy
      · rw [← hx, Function.iterate_succ_apply']
      · intro heq
        have hdep := dep_iterate n y
        rw [heq] at hdep
        omega
    · rw [if_neg (mt (below_iff_iterate hn).mpr hout), hz]
  · rcases RootedTree.snd_of_isPath hp.reverse hne.symm with ⟨hbelow, -⟩ | ⟨-, hz⟩
    · have hle := dep_le_of_below hbelow
      omega
    · rw [← p.snd_reverse, hz]

/-- Both ends of the path between `x` and `y`, and the same pair from the other side. -/
def FindsEnds (x y : ℕ) : Prop :=
  (∃ p : heapTree.graph.Walk x y, p.IsPath ∧ (∀ q : heapTree.graph.Walk x y, q.IsPath → q = p) ∧
    nextHop x y = (p.snd, p.penultimate)) ∧
  nextHop y x = (nextHop x y).swap

theorem findsEnds_of_lt (hlt : dep (x + 1) < dep (y + 1)) : FindsEnds x y := by
  obtain ⟨n, hn⟩ := Nat.exists_eq_add_of_lt hlt
  obtain ⟨p, hp⟩ := RootedTree.exists_isPath (T := heapTree) x y
  exact ⟨⟨p, hp, fun q hq => RootedTree.isPath_unique hq hp, nextHop_path hn hp⟩, nextHop_swap hn⟩

theorem FindsEnds.symm (h : FindsEnds x y) : FindsEnds y x := by
  obtain ⟨⟨p, hp, hunique, hpair⟩, hswap⟩ := h
  refine ⟨⟨p.reverse, hp.reverse, fun q hq => ?_, ?_⟩, ?_⟩
  · rw [← hunique q.reverse hq.reverse, q.reverse_reverse]
  · rw [hswap, hpair, p.snd_reverse, p.penultimate_reverse]
    rfl
  · rw [hswap, Prod.swap_swap]

theorem not_findsEnds_of_eq (hne : x ≠ y) (hdep : dep (x + 1) = dep (y + 1)) : ¬ FindsEnds x y := by
  rintro ⟨⟨p, -, -, hpair⟩, -⟩
  have hlast : p.penultimate = y := by
    calc p.penultimate = (nextHop x y).2 := by rw [hpair]
      _ = y := nextHop_snd_of_eq hdep
  exact (p.adj_penultimate (Walk.not_nil_of_ne hne)).ne hlast

/-- `next_hop` finds the ends of the path of two nodes exactly when their depths differ. -/
theorem nextHop_findsEnds {x y : ℕ} (hne : x ≠ y) : FindsEnds x y ↔ dep (x + 1) ≠ dep (y + 1) := by
  constructor
  · exact fun h hdep => not_findsEnds_of_eq hne hdep h
  · intro hdep
    rcases Nat.lt_or_gt_of_ne hdep with hlt | hlt
    · exact findsEnds_of_lt hlt
    · exact (findsEnds_of_lt hlt).symm

theorem nextHop_findsEnds_leaf : 0 ≠ 5 ∧ FindsEnds 0 5 := by
  refine ⟨by decide, (nextHop_findsEnds (by decide)).mpr ?_⟩
  rw [dep_one, dep_of_pos (by decide), dep_of_pos (by decide)]
  omega

/-- Of the two nodes below the root, the second end is not moved. -/
theorem nextHop_misses_end : 1 ≠ 2 ∧ nextHop 1 2 = (0, 2) ∧ ¬ FindsEnds 1 2 := by
  have hdep : dep (1 + 1) = dep (2 + 1) := by
    rw [dep_of_pos (by decide), dep_of_pos (x := 2 + 1) (by decide)]
  have hfirst : (nextHop 1 2).1 = 0 := by
    simp [nextHop, hdep, riseLoop_of_not_lt, meetLoop_false]
  exact ⟨by decide, Prod.ext hfirst (nextHop_snd_of_eq hdep), not_findsEnds_of_eq (by decide) hdep⟩

end BookSim.BinaryTree
