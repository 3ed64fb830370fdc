/-
# FlatFlyOnChip — the wires of the flattened butterfly

The routers are the points of a grid with `n` dimensions of `k` positions, and each has a
channel to every router that differs from it in one coordinate.  `c` nodes share a router,
in a square on the chip, so the nodes of a router are not numbered one after the other.
`_BuildNet` computes the router at the other end of a channel by a formula of its own for
each dimension and number of dimensions (`other`), and skips the router itself.

    output port q < c of r             the q-th node of r            `channelAt_node`
    output port c + (k-1)·dim + j      channel (k-1)·n·r + (k-1)·dim + j
                                                                     `channelAt_hop`
    that channel                       r with the coordinate of dim set to the j-th
                                       of the other positions        `sink_hop`
-/
import BookSim.Networks.KNCube

namespace BookSim

open List

/-- The parameters that `_ComputeSize` reads and its assertions let through. -/
structure FlatFlyOnChip where
  /-- Routers per dimension, dimensions and nodes per router. -/
  k : ℕ
  n : ℕ
  c : ℕ
  /-- Routers per row and column of the chip, and nodes per row and column at a router. -/
  xcount : ℕ
  ycount : ℕ
  xrouter : ℕ
  yrouter : ℕ
  k_pos : 0 < k
  xcount_eq : xcount = ycount
  xrouter_eq : xrouter = yrouter
  c_eq : c = xrouter * yrouter
  /-- `_BuildNet` asserts this of every dimension. -/
  n_le : n ≤ 4

namespace FlatFlyOnChip

open MixedRadix Routing

variable (net : FlatFlyOnChip)

/-! ## Building the network -/

def size : ℕ := net.k ^ net.n

def nodes : ℕ := net.k ^ net.n * net.c

/-- The number of the node at place `(x, y)` of a router. -/
def link (node y x : ℕ) : ℕ :=
  let yIndex := node / net.xcount
  let xIndex := node % net.xcount
  net.xcount * net.xrouter * (net.yrouter * yIndex + y) + (net.xrouter * xIndex + x)

/-- The router in position `cnt` of a dimension. -/
def other (node dim cnt : ℕ) : ℕ :=
  let xcurr := node % net.k
  let ycurr := node / net.k
  let curr3 := node % (net.k * net.k)
  let curr4 := node / (net.k * net.k)
  let curr5 := node / (net.k * net.k * net.k)
  let curr6 := node % (net.k * net.k * net.k)
  match dim with
  | 0 => ycurr * net.k + cnt
  | 1 =>
    if net.n = 3 then cnt * net.k + xcurr + curr4 * net.k * net.k
    else if net.n = 4 then
      cnt * net.k + xcurr + (curr4 % net.k * net.k * net.k + curr5 * net.k * net.k * net.k)
    else cnt * net.k + xcurr
  | 2 =>
    if net.n = 4 then cnt * net.k * net.k + curr3 + curr5 * net.k * net.k * net.k
    else cnt * net.k * net.k + curr3
  | 3 => cnt * net.k * net.k * net.k + curr6
  | _ => 0

/-- The channel to it. -/
def output (node dim cnt : ℕ) : ℕ :=
  (net.k - 1) * net.n * node + (net.k - 1) * dim + cnt -
    if node < net.other node dim cnt then 1 else 0

/-- The calls for the nodes of a router. -/
def attachNodes (node : ℕ) : List Attach :=
  (List.range net.yrouter).flatMap fun y => (List.range net.xrouter).flatMap fun x =>
    [.input node (.inject (net.link node y x)), .output node (.eject (net.link node y x))]

/-- The calls for its channels in one dimension. -/
def attachDim (node dim : ℕ) : List Attach :=
  (List.range net.k).flatMap fun cnt =>
    if net.other node dim cnt = node then []
    else [.output node (.chan (net.output node dim cnt)),
      .input (net.other node dim cnt) (.chan (net.output node dim cnt))]

def buildNet : List Attach :=
  (List.range net.size).flatMap net.attachNodes ++
  (List.range net.size).flatMap fun node => (List.range net.n).flatMap (net.attachDim node)

def wiring : Wiring := Wiring.wire net.buildNet

/-! ## Positions -/

/-- The coordinates of a router are those of a `k`-ary `n`-cube. -/
def cube : KNCube := ⟨net.k, net.n, net.k_pos⟩

/-- The coordinate of a router in one dimension. -/
def coordOf (node dim : ℕ) : ℕ := (net.cube.position node).getD dim 0

variable {net} {node dim cnt : ℕ}

theorem coordOf_eq (hdim : dim < net.n) :
    net.coordOf node dim = node / net.k ^ dim % net.k := KNCube.getD_position hdim

theorem coordOf_lt (hdim : dim < net.n) : net.coordOf node dim < net.k :=
  KNCube.getD_position_lt hdim

theorem div_pow_last (h : node < net.size) (hlast : net.n = dim + 1) :
    node / net.k ^ (dim + 1) = 0 :=
  Nat.div_eq_of_lt (by rwa [size, hlast] at h)

theorem other_eq (h : node < net.size) (hdim : dim < net.n) (cnt : ℕ) :
    net.other node dim cnt =
      node / net.k ^ (dim + 1) * net.k ^ (dim + 1) + cnt * net.k ^ dim + node % net.k ^ dim := by
  have hn := net.n_le
  have hsq : net.k ^ 2 = net.k * net.k := by ring
  have hcube : net.k ^ 3 = net.k * net.k * net.k := by ring
  match dim with
  | 0 => simp [other, Nat.mod_one]
  | 1 =>
    simp only [other, pow_one, hsq, Nat.reduceAdd]
    rcases (by omega : net.n = 2 ∨ net.n = 3 ∨ net.n = 4) with h2 | h3 | h4
    · have hzero := div_pow_last h h2
      simp only [Nat.reduceAdd, hsq] at hzero
      rw [if_neg (by omega), if_neg (by omega), hzero]
      ring
    · rw [if_pos h3]
      ring
    · have hdigit := Nat.div_add_mod (node / (net.k * net.k)) net.k
      rw [Nat.div_div_eq_div_mul] at hdigit
      rw [if_neg (by omega), if_pos h4]
      conv_rhs => rw [← hdigit]
      ring
  | 2 =>
    simp only [other, hsq, hcube, Nat.reduceAdd]
    rcases (by omega : net.n = 3 ∨ net.n = 4) with h3 | h4
    · have hzero := div_pow_last h h3
      simp only [Nat.reduceAdd, hcube] at hzero
      rw [if_neg (by omega), hzero]
      ring
    · rw [if_pos h4]
      ring
  | 3 =>
    have hzero := div_pow_last h (show net.n = 3 + 1 by omega)
    rw [hzero, other, hcube]
    ring
  | dim + 4 => omega

theorem other_add (h : node < net.size) (hdim : dim < net.n) (cnt : ℕ) :
    net.other node dim cnt + net.k ^ dim * net.coordOf node dim = node + net.k ^ dim * cnt := by
  have hlow := Nat.div_add_mod node (net.k ^ dim)
  have hdigit := Nat.div_add_mod (node / net.k ^ dim) net.k
  rw [Nat.div_div_eq_div_mul, ← pow_succ, ← coordOf_eq hdim] at hdigit
  calc net.other node dim cnt + net.k ^ dim * net.coordOf node dim
      = net.k ^ dim * (net.k * (node / net.k ^ (dim + 1)) + net.coordOf node dim) +
          node % net.k ^ dim + net.k ^ dim * cnt := by
        rw [other_eq h hdim]
        ring
    _ = node + net.k ^ dim * cnt := by rw [hdigit, hlow]

theorem position_other (h : node < net.size) (hdim : dim < net.n) (hcnt : cnt < net.k) :
    net.other node dim cnt < net.size ∧ net.cube.position (net.other node dim cnt) =
      (net.cube.position node).set dim cnt :=
  @KNCube.position_of_value net.cube node dim _ cnt h hdim hcnt (other_add h hdim cnt)

theorem other_eq_self_iff (h : node < net.size) (hdim : dim < net.n) :
    net.other node dim cnt = node ↔ cnt = net.coordOf node dim := by
  have hadd := other_add h hdim cnt
  have hpow : 0 < net.k ^ dim := Nat.pow_pos net.k_pos
  constructor
  · intro heq
    exact Nat.eq_of_mul_eq_mul_left hpow (by omega)
  · rintro rfl
    omega

theorem lt_other_iff (h : node < net.size) (hdim : dim < net.n) :
    node < net.other node dim cnt ↔ net.coordOf node dim < cnt := by
  have hadd := other_add h hdim cnt
  have hmul : net.k ^ dim * net.coordOf node dim < net.k ^ dim * cnt ↔ net.coordOf node dim < cnt :=
    Nat.mul_lt_mul_left (Nat.pow_pos net.k_pos)
  omega

/-! ## The ports of a router -/

/-- The `j`-th of the positions other than `e`. -/
def skip (e j : ℕ) : ℕ := if j < e then j else j + 1

/-- The place of a position among those other than `e`. -/
def rankBeside (e cnt : ℕ) : ℕ := if e < cnt then cnt - 1 else cnt

/-- The channel at a place of a dimension. -/
def chanAt (net : FlatFlyOnChip) (node dim j : ℕ) : ℕ :=
  (net.k - 1) * net.n * node + ((net.k - 1) * dim + j)

theorem output_skip (h : node < net.size) (hdim : dim < net.n) (j : ℕ) :
    net.output node dim (skip (net.coordOf node dim) j) = net.chanAt node dim j := by
  rw [output, chanAt]
  simp only [lt_other_iff h hdim]
  unfold skip
  split_ifs <;> omega

/-- The node in the `q`-th place of a router. -/
def nodeAt (net : FlatFlyOnChip) (node q : ℕ) : ℕ :=
    net.link node (q / net.xrouter) (q % net.xrouter)

theorem filterMap_attachDim (h : node < net.size) (hdim : dim < net.n) :
    (net.attachDim node dim).filterMap (Wiring.outputOf node) =
      (List.range (net.k - 1)).map fun j => .chan (net.chanAt node dim j) := by
  have hone : ∀ cnt, (if net.other node dim cnt = node then []
      else [.output node (.chan (net.output node dim cnt)),
        .input (net.other node dim cnt) (.chan (net.output node dim cnt))]).filterMap
          (Wiring.outputOf node) =
      if cnt = net.coordOf node dim then [] else [.chan (net.output node dim cnt)] := by
    intro cnt
    rw [apply_ite (List.filterMap (Wiring.outputOf node)),
      if_congr (other_eq_self_iff h hdim) rfl rfl]
    simp [Wiring.outputOf, filterMap_cons]
  rw [attachDim, filterMap_flatMap]
  simp only [hone]
  rw [flatMap_range_skip (fun cnt => Channel.chan (net.output node dim cnt)) (coordOf_lt hdim)]
  exact map_congr_left fun j _ => congrArg Channel.chan (output_skip h hdim j)

theorem filterMap_attachDim_of_ne {r : ℕ} (hr : r ≠ node) (dim : ℕ) :
    (net.attachDim r dim).filterMap (Wiring.outputOf node) = [] := by
  rw [filterMap_eq_nil_iff]
  intro call hmem
  simp only [attachDim, mem_flatMap, mem_range, mem_ite_nil_left, mem_cons,
    not_mem_nil, or_false] at hmem
  obtain ⟨cnt, -, -, rfl | rfl⟩ := hmem
  · exact if_neg hr
  · rfl

theorem outputs_eq (h : node < net.size) :
    net.wiring.outputChannels node =
      ((List.range net.yrouter).flatMap fun y =>
        (List.range net.xrouter).map fun x => .eject (net.link node y x)) ++
      (List.range net.n).flatMap fun dim =>
        (List.range (net.k - 1)).map fun j => .chan (net.chanAt node dim j) := by
  have hnodes : ∀ r, (net.attachNodes r).filterMap (Wiring.outputOf node) = if r = node then
      ((List.range net.yrouter).flatMap fun y =>
        (List.range net.xrouter).map fun x => .eject (net.link node y x)) else [] := by
    intro r
    by_cases hr : r = node
    · subst hr
      simp [attachNodes, filterMap_flatMap, Wiring.outputOf, filterMap_cons,
        map_eq_flatMap]
    · simp [attachNodes, filterMap_flatMap, Wiring.outputOf, filterMap_cons, hr]
  have hdims : ∀ r, ((List.range net.n).flatMap (net.attachDim r)).filterMap
      (Wiring.outputOf node) = if r = node then (List.range net.n).flatMap fun dim =>
        (List.range (net.k - 1)).map fun j => .chan (net.chanAt node dim j) else [] := by
    intro r
    rw [filterMap_flatMap]
    by_cases hr : r = node
    · subst hr
      rw [if_pos rfl]
      exact flatMap_congr fun dim hdim => filterMap_attachDim h (mem_range.mp hdim)
    · rw [if_neg hr, flatMap_eq_nil_iff]
      exact fun dim _ => filterMap_attachDim_of_ne hr dim
  rw [wiring, Wiring.outputChannels_wire, buildNet, filterMap_append, filterMap_flatMap,
    filterMap_flatMap]
  simp only [hnodes, hdims]
  rw [flatMap_range_ite, flatMap_range_ite, if_pos h, if_pos h]

theorem length_ejects (node : ℕ) :
    ((List.range net.yrouter).flatMap fun y =>
      (List.range net.xrouter).map fun x => Channel.eject (net.link node y x)).length = net.c := by
  simp [length_flatMap, net.c_eq, Nat.mul_comm]

theorem channelAt_node {q : ℕ} (h : node < net.size) (hq : q < net.c) :
    net.wiring.channelAt node q = some (.eject (net.nodeAt node q)) := by
  have hx : 0 < net.xrouter := by
    rw [net.c_eq] at hq
    exact Nat.pos_of_mul_pos_right (Nat.zero_lt_of_lt hq)
  have hy : q / net.xrouter < net.yrouter := Nat.div_lt_of_lt_mul (by rwa [← net.c_eq])
  have hmod : q % net.xrouter < net.xrouter := Nat.mod_lt _ hx
  have hblock : ((List.range net.yrouter).flatMap fun y =>
      (List.range net.xrouter).map fun x => Channel.eject (net.link node y x))[q]? =
      ((List.range net.xrouter).map fun x =>
        Channel.eject (net.link node (q / net.xrouter) x))[q % net.xrouter]? := by
    conv_lhs => rw [← Nat.div_add_mod q net.xrouter]
    exact getElem?_flatMap_blocks (by simp) hy hmod
  rw [Wiring.channelAt_natCast, outputs_eq h,
    List.getElem?_append_left (by rwa [length_ejects]), hblock]
  simp [nodeAt, hmod]

theorem channelAt_hop {j : ℕ} (h : node < net.size) (hdim : dim < net.n) (hj : j < net.k - 1) :
    net.wiring.channelAt node (net.c + ((net.k - 1) * dim + j) : ℕ) =
      some (.chan (net.chanAt node dim j)) := by
  rw [Wiring.channelAt_natCast, outputs_eq h,
    List.getElem?_append_right (by rw [length_ejects]; omega), length_ejects,
    Nat.add_sub_cancel_left, getElem?_flatMap_blocks (by simp) hdim hj]
  simp [hj]

/-! ## Where the channels lead -/

theorem skip_lt {e j k : ℕ} (hj : j < k - 1) : skip e j < k := by
  unfold skip
  split <;> omega

theorem skip_ne (e j : ℕ) : skip e j ≠ e := by
  unfold skip
  split <;> omega

theorem exists_skip {e cnt k : ℕ} (hcnt : cnt < k) (he : e < k) (hne : cnt ≠ e) :
    ∃ j < k - 1, cnt = skip e j := by
  refine ⟨rankBeside e cnt, ?_, ?_⟩
  · unfold rankBeside
    split <;> omega
  · unfold skip rankBeside
    split_ifs <;> omega

theorem input_chan_mem {r index : ℕ} : Attach.input r (.chan index) ∈ net.buildNet ↔
    ∃ node < net.size, ∃ dim < net.n, ∃ j < net.k - 1, index = net.chanAt node dim j ∧
      r = net.other node dim (skip (net.coordOf node dim) j) := by
  simp only [buildNet, attachNodes, attachDim, mem_append, mem_flatMap, mem_range,
    mem_ite_nil_left, mem_cons, Attach.input.injEq, reduceCtorEq, and_false,
    not_mem_nil, or_false, exists_false, false_or, Channel.chan.injEq]
  constructor
  · rintro ⟨node, hnode, dim, hdim, cnt, hcnt, hne, rfl, rfl⟩
    rw [other_eq_self_iff hnode hdim] at hne
    obtain ⟨j, hj, rfl⟩ := exists_skip hcnt (coordOf_lt hdim) hne
    exact ⟨node, hnode, dim, hdim, j, hj, output_skip hnode hdim j, rfl⟩
  · rintro ⟨node, hnode, dim, hdim, j, hj, rfl, rfl⟩
    refine ⟨node, hnode, dim, hdim, _, skip_lt hj, ?_, rfl, (output_skip hnode hdim j).symm⟩
    rw [other_eq_self_iff hnode hdim]
    exact skip_ne _ _

theorem chanAt_inj {node' dim' j j' : ℕ} (hdim : dim < net.n) (hdim' : dim' < net.n)
    (hj : j < net.k - 1) (hj' : j' < net.k - 1)
    (h : net.chanAt node dim j = net.chanAt node' dim' j') : node = node' ∧ dim = dim' ∧
      j = j' := by
  obtain ⟨rfl, hrest⟩ := eq_of_mul_add_eq (mul_add_lt_mul hdim hj) (mul_add_lt_mul hdim' hj') h
  obtain ⟨rfl, rfl⟩ := eq_of_mul_add_eq hj hj' hrest
  exact ⟨rfl, rfl, rfl⟩

theorem sink_hop {j : ℕ} (h : node < net.size) (hdim : dim < net.n) (hj : j < net.k - 1) :
    ∃ inPort, net.wiring.sink (.chan (net.chanAt node dim j)) =
      some (net.other node dim (skip (net.coordOf node dim) j), inPort) := by
  have hrouter := Wiring.sink_wire
    (input_chan_mem.mpr ⟨node, h, dim, hdim, j, hj, rfl, rfl⟩) fun r hr => ?_
  · obtain ⟨⟨r, inPort⟩, hsink, rfl⟩ := Option.map_eq_some_iff.mp hrouter
    exact ⟨inPort, hsink⟩
  · obtain ⟨node', -, dim', hdim', j', hj', heq, rfl⟩ := input_chan_mem.mp hr
    obtain ⟨rfl, rfl, rfl⟩ := chanAt_inj hdim hdim' hj hj' heq
    rfl

theorem of_sink_inject {src r inPort : ℕ} (h : net.wiring.sink (.inject src) = some (r, inPort)) :
    r < net.size ∧ ∃ q < net.c, src = net.nodeAt r q := by
  have hlisted := Wiring.sinksListed_wire net.buildNet _ _ _ h
  rw [Wiring.inputChannels_wire] at hlisted
  have hmem := Wiring.mem_filterMap_inputOf.mp (mem_of_getElem? hlisted)
  simp only [buildNet, attachNodes, attachDim, mem_append, mem_flatMap, mem_range,
    mem_ite_nil_left, mem_cons, Attach.input.injEq, reduceCtorEq, and_false,
    not_mem_nil, or_false, exists_false, Channel.inject.injEq] at hmem
  obtain ⟨node, hnode, y, hy, x, hx, rfl, rfl⟩ := hmem
  have hpos : 0 < net.xrouter := by omega
  refine ⟨hnode, net.xrouter * y + x, ?_, ?_⟩
  · rw [net.c_eq]
    exact mul_add_lt_mul hy hx
  · rw [nodeAt, Nat.mul_add_div hpos, Nat.div_eq_of_lt hx, Nat.add_zero, Nat.mul_add_mod,
      Nat.mod_eq_of_lt hx]

end FlatFlyOnChip

end BookSim
