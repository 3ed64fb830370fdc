/-
# DragonFlyNew — the wires of the dragonfly

A dragonfly of `p` nodes per router has `a = 2·p` routers per group and `g = a·p + 1` groups.
The routers of a group are all connected with each other, and each of the `a·p` optical
channels of a group goes to one of the other groups.  `_BuildNet` numbers the channels by
the router they leave,

    output port q < p of r        node p·r + q
    output port p + i of r        channel (3·p - 1)·r + i       i < 2·p - 1: in the group
                                                                otherwise:   optical

and attaches each to the router it enters by formulas of its own, in the coordinates of
that router.  `target r i` is where they meet: `sink_chan` shows that channel `i` of `r`
enters exactly that router.
-/
import Mathlib.Tactic.Ring
import BookSim.Flight

namespace BookSim

open List

/-- The parameter `_ComputeSize` reads; `n` has to be 1. -/
structure DragonFlyNew where
  p : ℕ
  p_pos : 0 < p

namespace DragonFlyNew

open Routing

variable (net : DragonFlyNew)

/-! ## Building the network -/

/-- Routers per group, groups, routers and nodes. -/
def a : ℕ := 2 * net.p

def g : ℕ := net.a * net.p + 1

def size : ℕ := net.a * net.g

def nodes : ℕ := net.a * net.p * net.g

/-- The radix `_k`, and the channels to other routers among it. -/
def k : ℕ := net.p + net.p + 2 * net.p - 1

def numPortsPerSwitch : ℕ := net.k - net.p

/-- The channel that enters `node` from another router of its group. -/
def intraInput (node cnt : ℕ) : ℤ :=
  let grpID : ℤ := node / net.a
  let dimID : ℤ := node % net.a
  let ports : ℤ := net.numPortsPerSwitch
  if (cnt : ℤ) < dimID then
    grpID * ports * net.a - (dimID - cnt) * ports + dimID * ports + (dimID - 1)
  else grpID * ports * net.a + dimID * ports + (cnt - dimID + 1) * ports + dimID

/-- The channel that enters it from another group. -/
def opticalInput (node cnt : ℕ) : ℕ :=
  let grpID := node / net.a
  let grpOutput := node % net.a * net.p + cnt
  let ports := net.numPortsPerSwitch
  if grpID > grpOutput then
    grpOutput * ports * net.a + (ports - net.p) * ((grpID - 1) / net.p) + (ports - net.p) +
      grpID - 1
  else
    (grpOutput + 1) * ports * net.a + (ports - net.p) * (grpID / net.p) + (ports - net.p) + grpID

/-- The calls `_BuildNet` makes for one router. -/
def attachRouter (node : ℕ) : List Attach :=
  (List.range net.p).map (fun cnt => .input node (.inject (net.p * node + cnt))) ++
  (List.range net.p).map (fun cnt => .output node (.eject (net.p * node + cnt))) ++
  (List.range (2 * net.p - 1)).map
    (fun cnt => .output node (.chan ((2 * net.p - 1 + net.p) * node + cnt))) ++
  (List.range net.p).map
    (fun cnt => .output node (.chan ((2 * net.p - 1 + net.p) * node + (2 * net.p - 1) + cnt))) ++
  (List.range (2 * net.p - 1)).map
  (fun cnt => .input node (.chan (net.intraInput node cnt).toNat)) ++
  (List.range net.p).map (fun cnt => .input node (.chan (net.opticalInput node cnt)))

def buildNet : List Attach := (List.range net.size).flatMap net.attachRouter

def wiring : Wiring := Wiring.wire net.buildNet

/-- The globals the routing functions read on this network. -/
def globals (vcs : ClassVCs) : Globals where
  gK := net.p
  gN := 1
  gNodes := net.nodes
  gP := net.p
  gA := net.a
  gG := net.g
  vcs := vcs

/-- The flits a registered routing function sends over the network. -/
def flights (vcs : ClassVCs) (fn : RoutingFunction) : RouteSystem Flight Sent ℕ :=
  Routing.flights net.wiring net.nodes (gRoutingFunctionMap fn (net.globals vcs))

/-! ## Groups -/

/-- Router `j` of a group. -/
def router (group j : ℕ) : ℕ := net.a * group + j

/-- The place of group `other` among the optical channels of `group`. -/
def grpOutput (group other : ℕ) : ℕ := if group > other then other else other - 1

/-- The router of `group` that has the optical channel to `other`. -/
def exit (group other : ℕ) : ℕ := grpOutput group other / net.p

/-- The group at the far end of the optical channel in that place. -/
def groupAt (group place : ℕ) : ℕ := if place < group then place else place + 1

/-- The router that channel `i` of a router enters. -/
def target (r i : ℕ) : ℕ :=
  let group := r / net.a
  let j := r % net.a
  if i < 2 * net.p - 1 then net.router group (if i < j then i else i + 1)
  else
    let other := groupAt group (j * net.p + (i - (2 * net.p - 1)))
    net.router other (net.exit other group)

variable {net}

theorem a_pos : 0 < net.a := by
  have := net.p_pos
  unfold a
  omega

theorem numPortsPerSwitch_eq : net.numPortsPerSwitch = 2 * net.p - 1 + net.p := by
  have := net.p_pos
  unfold numPortsPerSwitch k
  omega

theorem router_div {group j : ℕ} (hj : j < net.a) : net.router group j / net.a = group := by
  rw [router, Nat.mul_add_div a_pos, Nat.div_eq_of_lt hj, Nat.add_zero]

theorem router_mod {group j : ℕ} (hj : j < net.a) : net.router group j % net.a = j := by
  rw [router, Nat.mul_add_mod, Nat.mod_eq_of_lt hj]

theorem router_eta (r : ℕ) : net.router (r / net.a) (r % net.a) = r := Nat.div_add_mod r net.a

theorem router_lt {group j : ℕ} (hgroup : group < net.g) (hj : j < net.a) :
    net.router group j < net.size := by
  have hmul : net.a * (group + 1) ≤ net.a * net.g := Nat.mul_le_mul_left _ hgroup
  rw [Nat.mul_add_one] at hmul
  unfold router size
  omega

theorem group_lt {r : ℕ} (h : r < net.size) : r / net.a < net.g :=
  Nat.div_lt_of_lt_mul h

theorem grpOutput_lt {group other : ℕ} (hgroup : group < net.g) (hother : other < net.g)
    (hne : group ≠ other) : grpOutput group other < net.a * net.p := by
  unfold grpOutput
  unfold g at hgroup hother
  split <;> omega

theorem exit_lt {group other : ℕ} (hgroup : group < net.g) (hother : other < net.g)
    (hne : group ≠ other) : net.exit group other < net.a :=
  Nat.div_lt_of_lt_mul (by rw [Nat.mul_comm]; exact grpOutput_lt hgroup hother hne)

theorem groupAt_grpOutput {group other : ℕ} (hne : group ≠ other) :
    groupAt group (grpOutput group other) = other := by
  unfold groupAt grpOutput
  split_ifs <;> omega

theorem grpOutput_groupAt (group place : ℕ) : grpOutput group (groupAt group place) = place := by
  unfold groupAt grpOutput
  split_ifs <;> omega

theorem groupAt_ne (group place : ℕ) : group ≠ groupAt group place := by
  unfold groupAt
  split <;> omega

/-! ## The input formulas -/

section Inputs

variable {group j cnt : ℕ} (hj : j < net.a)

include hj

theorem intraInput_router : net.intraInput (net.router group j) cnt =
      (net.numPortsPerSwitch * net.router group (if cnt < j then cnt else cnt + 1) +
        (if cnt < j then j - 1 else j) : ℕ) := by
  unfold intraInput
  rw [← Int.natCast_ediv, ← Int.natCast_emod, router_div hj, router_mod hj]
  by_cases h : cnt < j
  · rw [if_pos (by exact_mod_cast h), if_pos h, if_pos h]
    unfold router
    push_cast [Nat.sub_add_cancel, show 1 ≤ j by omega]
    ring
  · rw [if_neg (by exact_mod_cast h), if_neg h, if_neg h]
    unfold router
    push_cast
    ring

theorem opticalInput_router : net.opticalInput (net.router group j) cnt =
      net.numPortsPerSwitch * net.router (groupAt group (j * net.p + cnt))
          (net.exit (groupAt group (j * net.p + cnt)) group) +
        (2 * net.p - 1 + grpOutput (groupAt group (j * net.p + cnt)) group % net.p) := by
  have hports : net.numPortsPerSwitch - net.p = 2 * net.p - 1 := by
    rw [numPortsPerSwitch_eq]
    omega
  simp only [opticalInput, router_div hj, router_mod hj, hports]
  rw [numPortsPerSwitch_eq]
  generalize j * net.p + cnt = place
  generalize 2 * net.p - 1 = q
  -- With `x` the place of `group` seen from the other one, `x = p · (x / p) + x % p`.
  have hsum : ∀ other x, other * (q + net.p) * net.a + q * (x / net.p) + q + x =
      (q + net.p) * net.router other (x / net.p) + (q + x % net.p) := by
    intro other x
    unfold router
    calc other * (q + net.p) * net.a + q * (x / net.p) + q + x
        = other * (q + net.p) * net.a + q * (x / net.p) + q +
            (net.p * (x / net.p) + x % net.p) := by rw [Nat.div_add_mod]
      _ = _ := by ring
  by_cases h : group > place
  · rw [if_pos h, groupAt, if_pos h, exit, grpOutput, if_neg (by omega), ← hsum]
    omega
  · rw [if_neg h, groupAt, if_neg h, exit, grpOutput, if_pos (by omega), ← hsum]

end Inputs

theorem input_chan_mem {r index : ℕ} : Attach.input r (.chan index) ∈ net.buildNet ↔
    r < net.size ∧ ((∃ cnt < 2 * net.p - 1, index = (net.intraInput r cnt).toNat) ∨
      ∃ cnt < net.p, index = net.opticalInput r cnt) := by
  simp only [buildNet, attachRouter, mem_flatMap, mem_range, mem_append,
    mem_map, Attach.input.injEq, Channel.chan.injEq, reduceCtorEq, and_false, exists_false,
    false_or, or_false]
  constructor
  · grind
  · rintro ⟨hr, ⟨cnt, hcnt, rfl⟩ | ⟨cnt, hcnt, rfl⟩⟩
    · exact ⟨r, hr, .inl ⟨cnt, hcnt, rfl, rfl⟩⟩
    · exact ⟨r, hr, .inr ⟨cnt, hcnt, rfl, rfl⟩⟩

theorem target_router_of_lt {group j i : ℕ} (hj : j < net.a) (hi : i < 2 * net.p - 1) :
    net.target (net.router group j) i = net.router group (if i < j then i else i + 1) := by
  rw [target, router_div hj, router_mod hj, if_pos hi]

/-- The optical channels of the exit to a group lead to its exit on the other side. -/
theorem target_exit {group other : ℕ} (hgroup : group < net.g) (hother : other < net.g)
    (hne : group ≠ other) :
    net.target (net.router group (net.exit group other))
      (2 * net.p - 1 + grpOutput group other % net.p) =
        net.router other (net.exit other group) := by
  have hplace : net.exit group other * net.p + grpOutput group other % net.p =
      grpOutput group other := by
    rw [exit, Nat.mul_comm]
    exact Nat.div_add_mod _ _
  have hj := exit_lt hgroup hother hne
  simp only [target, router_div hj, router_mod hj, if_neg (show ¬ 2 * net.p - 1 +
    grpOutput group other % net.p < 2 * net.p - 1 by omega), Nat.add_sub_cancel_left, hplace,
    groupAt_grpOutput hne]

theorem target_of_input {r src i : ℕ} (hi : i < net.numPortsPerSwitch)
    (h : Attach.input r (.chan (net.numPortsPerSwitch * src + i)) ∈ net.buildNet) :
    r = net.target src i := by
  obtain ⟨hr, hcases⟩ := input_chan_mem.mp h
  have hj : r % net.a < net.a := Nat.mod_lt _ a_pos
  have hgroup := group_lt hr
  have hp := net.p_pos
  rw [numPortsPerSwitch_eq] at hi
  rw [← net.router_eta r] at hcases
  rcases hcases with ⟨cnt, hcnt, heq⟩ | ⟨cnt, hcnt, heq⟩
  · rw [intraInput_router hj, Int.toNat_natCast, numPortsPerSwitch_eq] at heq
    have ha : net.a = 2 * net.p := rfl
    obtain ⟨rfl, rfl⟩ := eq_of_mul_add_eq hi (by split <;> omega) heq
    rw [target_router_of_lt (by split <;> omega) (by split <;> omega)]
    conv_lhs => rw [← net.router_eta r]
    congr 1
    split_ifs <;> omega
  · rw [opticalInput_router hj, numPortsPerSwitch_eq] at heq
    have hplace : r % net.a * net.p + cnt < net.a * net.p := by
      have := Nat.mul_le_mul_right net.p (show r % net.a + 1 ≤ net.a from hj)
      rw [Nat.add_mul] at this
      omega
    have hother : groupAt (r / net.a) (r % net.a * net.p + cnt) < net.g := by
      unfold groupAt g
      split <;> omega
    have hmod : grpOutput (groupAt (r / net.a) (r % net.a * net.p + cnt)) (r / net.a) % net.p <
      net.p := Nat.mod_lt _ hp
    obtain ⟨rfl, rfl⟩ := eq_of_mul_add_eq hi (by omega) heq
    rw [target_exit hother hgroup (groupAt_ne _ _).symm, exit, grpOutput_groupAt,
      Nat.add_comm, Nat.add_mul_div_right _ _ hp, Nat.div_eq_of_lt hcnt, Nat.zero_add,
      router_eta]

theorem input_target_mem {src i : ℕ} (hsrc : src < net.size) (hi : i < net.numPortsPerSwitch) :
    Attach.input (net.target src i) (.chan (net.numPortsPerSwitch * src + i)) ∈ net.buildNet := by
  have hj : src % net.a < net.a := Nat.mod_lt _ a_pos
  have hgroup := group_lt hsrc
  have hp := net.p_pos
  have ha : net.a = 2 * net.p := rfl
  rw [numPortsPerSwitch_eq] at hi
  rw [input_chan_mem]
  by_cases hlocal : i < 2 * net.p - 1
  · have htarget : net.target src i =
        net.router (src / net.a) (if i < src % net.a then i else i + 1) := if_pos hlocal
    have hj' : (if i < src % net.a then i else i + 1) < net.a := by split <;> omega
    rw [htarget]
    refine ⟨router_lt hgroup hj', .inl ⟨if i < src % net.a then src % net.a - 1 else src % net.a,
      by split <;> omega, ?_⟩⟩
    rw [intraInput_router hj', Int.toNat_natCast]
    by_cases h : i < src % net.a
    · rw [if_pos h, if_pos h, if_neg (by omega), if_neg (by omega), Nat.sub_add_cancel (by omega),
        router_eta]
    · rw [if_neg h, if_neg h, if_pos (by omega), if_pos (by omega), router_eta]
      rfl
  · generalize hplace : src % net.a * net.p + (i - (2 * net.p - 1)) = place
    have hplace_lt : place < net.a * net.p := by
      have := Nat.mul_le_mul_right net.p (show src % net.a + 1 ≤ net.a from hj)
      rw [Nat.add_mul] at this
      omega
    have htarget : net.target src i = net.router (groupAt (src / net.a) place)
        (net.exit (groupAt (src / net.a) place) (src / net.a)) := by
      rw [← hplace]
      exact if_neg hlocal
    have hother : groupAt (src / net.a) place < net.g := by
      unfold groupAt g
      split <;> omega
    have hne := groupAt_ne (src / net.a) place
    have hj' := exit_lt hother hgroup hne.symm
    have hback : net.exit (groupAt (src / net.a) place) (src / net.a) * net.p +
        grpOutput (groupAt (src / net.a) place) (src / net.a) % net.p =
        grpOutput (groupAt (src / net.a) place) (src / net.a) := by
      rw [exit, Nat.mul_comm]
      exact Nat.div_add_mod _ _
    rw [htarget]
    refine ⟨router_lt hother hj', .inr ⟨_, Nat.mod_lt (grpOutput (groupAt (src / net.a) place)
      (src / net.a)) hp, ?_⟩⟩
    have hlast : i - (2 * net.p - 1) < net.p := by omega
    have hdiv : place / net.p = src % net.a := by
      rw [← hplace, Nat.add_comm, Nat.add_mul_div_right _ _ hp, Nat.div_eq_of_lt hlast,
        Nat.zero_add]
    have hmod : place % net.p = i - (2 * net.p - 1) := by
      rw [← hplace, Nat.add_comm, Nat.add_mul_mod_self_right, Nat.mod_eq_of_lt hlast]
    rw [opticalInput_router hj', hback, groupAt_grpOutput hne.symm, exit, grpOutput_groupAt, hdiv,
      hmod, router_eta]
    omega

/-! ## The ports of a router -/

theorem filterMap_buildNet {α : Type} {f : Attach → Option α} {r : ℕ} (h : r < net.size)
    (hother : ∀ r', r' ≠ r → (net.attachRouter r').filterMap f = []) :
    net.buildNet.filterMap f = (net.attachRouter r).filterMap f := by
  have hone : ∀ r', (net.attachRouter r').filterMap f =
      if r' = r then (net.attachRouter r).filterMap f else [] := by
    intro r'
    split_ifs with hr
    · rw [hr]
    · exact hother r' hr
  rw [buildNet, filterMap_flatMap, funext hone, flatMap_range_ite, if_pos h]

theorem inputs_eq {r : ℕ} (h : r < net.size) : net.buildNet.filterMap (Wiring.inputOf r) =
      (List.range net.p).map (fun cnt => .inject (net.p * r + cnt)) ++
      ((List.range (2 * net.p - 1)).map (fun cnt => .chan (net.intraInput r cnt).toNat) ++
        (List.range net.p).map (fun cnt => .chan (net.opticalInput r cnt))) := by
  rw [filterMap_buildNet h fun r' hr => ?_]
  · simp [attachRouter, filterMap_map, Function.comp_def, Wiring.inputOf]
  · simp [attachRouter, filterMap_map, Function.comp_def, Wiring.inputOf, hr]

theorem outputs_eq {r : ℕ} (h : r < net.size) : net.wiring.outputChannels r =
      (List.range net.p).map (fun cnt => .eject (net.p * r + cnt)) ++
      (List.range net.numPortsPerSwitch).map (fun i => .chan (net.numPortsPerSwitch * r + i)) := by
  rw [wiring, Wiring.outputChannels_wire, filterMap_buildNet h fun r' hr => ?_]
  · simp [attachRouter, filterMap_map, Function.comp_def, Wiring.outputOf, numPortsPerSwitch_eq,
      range_add, Nat.add_assoc]
  · simp [attachRouter, filterMap_map, Function.comp_def, Wiring.outputOf, hr]

theorem channelAt_eject {r q : ℕ} (h : r < net.size) (hq : q < net.p) :
    net.wiring.channelAt r q = some (.eject (net.p * r + q)) := by
  rw [Wiring.channelAt_natCast, outputs_eq h, List.getElem?_append_left (by simpa using hq)]
  simp [hq]

theorem channelAt_chan {r i : ℕ} (h : r < net.size) (hi : i < net.numPortsPerSwitch) :
    net.wiring.channelAt r (net.p + i : ℕ) = some (.chan (net.numPortsPerSwitch * r + i)) := by
  rw [Wiring.channelAt_natCast, outputs_eq h, List.getElem?_append_right (by simp)]
  simp [hi]

theorem input_lt_size {r q : ℕ} {channel : Channel}
    (h : (net.buildNet.filterMap (Wiring.inputOf r))[q]? = some channel) : r < net.size := by
  have hmem := Wiring.mem_filterMap_inputOf.mp (mem_of_getElem? h)
  simp only [buildNet, attachRouter, mem_flatMap, mem_range, mem_append,
    mem_map, Attach.input.injEq, reduceCtorEq, and_false, exists_false, or_false] at hmem
  obtain ⟨r', hr', (⟨_, -, rfl, -⟩ | ⟨_, -, rfl, -⟩) | ⟨_, -, rfl, -⟩⟩ := hmem <;> exact hr'

theorem inject_of_input {r q : ℕ} {channel : Channel}
    (h : (net.buildNet.filterMap (Wiring.inputOf r))[q]? = some channel) :
    q < net.p ∧ channel = .inject (net.p * r + q) ∨ net.p ≤ q ∧ ∃ index, channel = .chan index := by
  rw [inputs_eq (input_lt_size h)] at h
  by_cases hq : q < net.p
  · rw [List.getElem?_append_left (by simpa using hq)] at h
    exact .inl ⟨hq, by simpa [hq, eq_comm] using h⟩
  · rw [List.getElem?_append_right (by simpa using Nat.le_of_not_lt hq)] at h
    have hmem := mem_of_getElem? h
    simp only [mem_append, mem_map] at hmem
    refine .inr ⟨Nat.le_of_not_lt hq, ?_⟩
    rcases hmem with ⟨_, -, rfl⟩ | ⟨_, -, rfl⟩ <;> exact ⟨_, rfl⟩

/-- **Where the channels lead.**  Channel `i` of a router enters its target, at a port that is
none of the nodes'. -/
theorem sink_chan {r i : ℕ} (h : r < net.size) (hi : i < net.numPortsPerSwitch) :
    ∃ inPort, net.p ≤ inPort ∧
      net.wiring.sink (.chan (net.numPortsPerSwitch * r + i)) = some (net.target r i, inPort) := by
  have hrouter := Wiring.sink_wire (input_target_mem h hi) fun r' hr' => target_of_input hi hr'
  obtain ⟨⟨r', inPort⟩, hsink, hr'⟩ := Option.map_eq_some_iff.mp hrouter
  cases hr'
  have hlisted := Wiring.sinksListed_wire net.buildNet _ _ _ hsink
  rw [Wiring.inputChannels_wire] at hlisted
  rcases inject_of_input hlisted with ⟨-, heq⟩ | ⟨hle, -⟩
  · cases heq
  · exact ⟨inPort, hle, hsink⟩

theorem of_sink_inject {node r inPort : ℕ} (h : net.wiring.sink (.inject node) = some (r, inPort)) :
    r < net.size ∧ inPort < net.p ∧ node = net.p * r + inPort := by
  have hlisted := Wiring.sinksListed_wire net.buildNet _ _ _ h
  rw [Wiring.inputChannels_wire] at hlisted
  rcases inject_of_input hlisted with ⟨hlt, heq⟩ | ⟨-, index, heq⟩
  · cases heq
    exact ⟨input_lt_size hlisted, hlt, rfl⟩
  · cases heq

theorem sink_inject {r q : ℕ} (h : r < net.size) (hq : q < net.p) :
    net.wiring.sink (.inject (net.p * r + q)) = some (r, q) := by
  refine Wiring.sink_wire_port ?_ fun r' q' hat => ?_
  · rw [inputs_eq h, List.getElem?_append_left (by simpa using hq)]
    simp [hq]
  · rcases inject_of_input hat with ⟨hlt, heq⟩ | ⟨-, index, heq⟩
    · rw [Channel.inject.injEq] at heq
      obtain ⟨rfl, rfl⟩ := eq_of_mul_add_eq hq hlt heq
      exact ⟨rfl, rfl⟩
    · cases heq

end DragonFlyNew

end BookSim
