/-
# `BookSim.Networks.KNFly` — the k-ary n-fly

`n` stages of `k^(n-1)` switches each.  The channels from one stage to the next are numbered by
the switch and the port they leave from; `_InChannel` finds the number from the other side, by
exchanging the port with one digit of the address, a lower one at each stage:

    output port p of switch a       channel a·k + p of its stage            `outChannel`
    input port q of switch b        b with digit q in place of the digit    `inChannel`
                                    d, port d of the stage before

`dest_tag_fly` leaves stage s by the digit `n - 1 - s` of the destination.  So the addresses agree
with the destination from the top down, one digit more at each stage, and in the last stage the
switch and the port together are the destination.
-/
import BookSim.Flight
import BookSim.RoutingVCs
import BookSim.Lib.DigitExchange

namespace BookSim

open List

/-- The parameters `_ComputeSize` reads. -/
structure KNFly where
  k : ℕ
  n : ℕ
  k_pos : 0 < k
  n_pos : 0 < n

namespace KNFly

open Routing

variable (net : KNFly)

/-! ## Building the network -/

def nodes : ℕ := net.k ^ net.n

/-- `per_stage` of `_BuildNet`. -/
def perStage : ℕ := net.k ^ (net.n - 1)

def channels : ℕ := (net.n - 1) * net.nodes

def outChannel (stage addr port : ℕ) : ℕ := stage * net.nodes + addr * net.k + port

def inChannel (stage addr port : ℕ) : ℕ :=
  let shift := net.k ^ (net.n - stage - 1)
  let lastDigit := port
  let zeroDigit := addr / shift % net.k
  let inAddr := addr - zeroDigit * shift + lastDigit * shift
  let inPort := zeroDigit
  (stage - 1) * net.nodes + inAddr * net.k + inPort

/-- The channel `_BuildNet` takes for an input port. -/
def inputAt (stage addr port : ℕ) : Channel :=
  if stage = 0 then .inject (addr * net.k + port) else .chan (net.inChannel stage addr port)

/-- The channel it takes for an output port. -/
def outputAt (stage addr port : ℕ) : Channel :=
  if stage = net.n - 1 then .eject (addr * net.k + port)
  else .chan (net.outChannel stage addr port)

/-- The calls for one router; `node` counts the routers of both loops. -/
def attachRouter (stage addr : ℕ) : List Attach :=
  let node := stage * net.perStage + addr
  (List.range net.k).flatMap fun port =>
    [.input node (net.inputAt stage addr port), .output node (net.outputAt stage addr port)]

def buildNet : List Attach :=
  (List.range net.n).flatMap fun stage =>
    (List.range net.perStage).flatMap fun addr => net.attachRouter stage addr

def wiring : Wiring := Wiring.wire net.buildNet

/-- The globals `dest_tag_fly` reads. -/
def globals (vcs : ClassVCs) : Globals where
  gK := net.k
  gN := net.n
  gNodes := net.nodes
  gP := 0
  gA := 0
  gG := 0
  vcs := vcs

end KNFly

namespace Routing

/-- The loop of `dest_tag_fly`, with the stages that are left. -/
def destTagLoop (gK : ℕ) : ℕ → ℕ → ℕ
  | 0, dest => dest
  | left + 1, dest => destTagLoop gK left (dest / gK)

/-- The port `dest_tag_fly` takes at a router. -/
def destTagPort (g : Globals) (router dest : ℕ) : ℕ :=
  let stage := router * g.gK / g.gNodes
  destTagLoop g.gK (g.gN - 1 - stage) dest % g.gK

def destTagFly (g : Globals) (c : Call) : Option Routed := do
  let r ← admitted g c
  let outPort : ℤ := if c.inject then -1 else destTagPort g c.router.id c.flit.dest
  some ⟨single outPort r, c.flit⟩

theorem destTagLoop_eq (gK : ℕ) : ∀ left dest, destTagLoop gK left dest = dest / gK ^ left
  | 0, dest => by rw [destTagLoop, pow_zero, Nat.div_one]
  | left + 1, dest => by
    rw [destTagLoop, destTagLoop_eq gK left, Nat.div_div_eq_div_mul, pow_succ']

end Routing

namespace KNFly

open Routing DigitExchange

variable {net : KNFly} {vcs : ClassVCs}

/-- The packets `dest_tag_fly` sends over the network. -/
def flights (net : KNFly) (vcs : ClassVCs) : RouteSystem Flight Sent ℕ :=
  Routing.flights net.wiring net.nodes (destTagFly (net.globals vcs))

/-- The stage of a router, and its address there. -/
def stage (net : KNFly) (router : ℕ) : ℕ := router / net.perStage

def addr (net : KNFly) (router : ℕ) : ℕ := router % net.perStage

def router (net : KNFly) (stage addr : ℕ) : ℕ := stage * net.perStage + addr

theorem perStage_pos : 0 < net.perStage := Nat.pow_pos net.k_pos

theorem nodes_eq : net.nodes = net.perStage * net.k := by
  rw [nodes, perStage, ← pow_succ, Nat.sub_add_cancel net.n_pos]

theorem addr_lt (r : ℕ) : net.addr r < net.perStage := Nat.mod_lt r perStage_pos

theorem router_stage_addr (r : ℕ) : net.router (net.stage r) (net.addr r) = r := by
  rw [router, stage, addr, Nat.mul_comm, Nat.div_add_mod]

theorem stage_router {s a : ℕ} (ha : a < net.perStage) : net.stage (net.router s a) = s := by
  rw [stage, router, Nat.mul_comm, Nat.mul_add_div perStage_pos, Nat.div_eq_of_lt ha, Nat.add_zero]

theorem addr_router {s a : ℕ} (ha : a < net.perStage) : net.addr (net.router s a) = a := by
  rw [addr, router, Nat.mul_comm, Nat.mul_add_mod, Nat.mod_eq_of_lt ha]

/-! ## The ports of a router -/

theorem filterMap_inputOf_attachRouter (r s a : ℕ) :
    (net.attachRouter s a).filterMap (Wiring.inputOf r) =
      if s * net.perStage + a = r then (List.range net.k).map (net.inputAt s a) else [] := by
  rw [attachRouter, filterMap_flatMap]
  by_cases h : s * net.perStage + a = r
  · simp only [Wiring.inputOf, filterMap_cons, h, if_true, filterMap_nil]
    exact map_eq_flatMap.symm
  · simp [Wiring.inputOf, filterMap_cons, h]

theorem filterMap_outputOf_attachRouter (r s a : ℕ) :
    (net.attachRouter s a).filterMap (Wiring.outputOf r) =
      if s * net.perStage + a = r then (List.range net.k).map (net.outputAt s a) else [] := by
  rw [attachRouter, filterMap_flatMap]
  by_cases h : s * net.perStage + a = r
  · simp only [Wiring.outputOf, filterMap_cons, h, if_true, filterMap_nil]
    exact map_eq_flatMap.symm
  · simp [Wiring.outputOf, filterMap_cons, h]

theorem input_port (r p : ℕ) : (net.buildNet.filterMap (Wiring.inputOf r))[p]? =
      if net.stage r < net.n ∧ p < net.k then
        some (net.inputAt (net.stage r) (net.addr r) p) else none := by
  rw [buildNet, filterMap_nested perStage_pos (fun s a => (List.range net.k).map (net.inputAt s a))
      (filterMap_inputOf_attachRouter r) nodup_range]
  simp only [mem_range]
  by_cases h : r / net.perStage < net.n
  · rw [if_pos h, getElem?_map_range]
    simp only [stage, addr, h, true_and]
  · rw [if_neg h, if_neg (fun hand => h hand.1)]
    rfl

theorem output_port (r p : ℕ) : (net.wiring.outputChannels r)[p]? =
      if net.stage r < net.n ∧ p < net.k then
        some (net.outputAt (net.stage r) (net.addr r) p) else none := by
  rw [wiring, Wiring.outputChannels_wire, buildNet,
    filterMap_nested perStage_pos (fun s a => (List.range net.k).map (net.outputAt s a))
      (filterMap_outputOf_attachRouter r) nodup_range]
  simp only [mem_range]
  by_cases h : r / net.perStage < net.n
  · rw [if_pos h, getElem?_map_range]
    simp only [stage, addr, h, true_and]
  · rw [if_neg h, if_neg (fun hand => h hand.1)]
    rfl

/-! ## Where the channels lead -/

/-- The digit that is exchanged on the way into a stage, as a power. -/
def shift (net : KNFly) (stage : ℕ) : ℕ := net.k ^ (net.n - stage - 1)

theorem shift_pos (s : ℕ) : 0 < net.shift s := Nat.pow_pos net.k_pos

theorem inChannel_eq (s a p : ℕ) : net.inChannel s a p =
    net.outChannel (s - 1) (exchange net.k (net.shift s) a p).1
      (exchange net.k (net.shift s) a p).2 := rfl

theorem outChannel_inj {s s' a a' p p' : ℕ} (ha : a < net.perStage) (hp : p < net.k)
    (ha' : a' < net.perStage) (hp' : p' < net.k)
    (h : net.outChannel s a p = net.outChannel s' a' p') : s = s' ∧ a = a' ∧ p = p' := by
  have hbound : ∀ {a p}, a < net.perStage → p < net.k → net.k * a + p < net.nodes := by
    intro a p ha hp
    rw [nodes_eq, Nat.mul_comm net.perStage]
    exact mul_add_lt_mul ha hp
  rw [outChannel, outChannel, Nat.add_assoc, Nat.add_assoc, Nat.mul_comm s, Nat.mul_comm s',
    Nat.mul_comm a, Nat.mul_comm a'] at h
  obtain ⟨rfl, hrest⟩ := eq_of_mul_add_eq (hbound ha hp) (hbound ha' hp') h
  obtain ⟨rfl, rfl⟩ := eq_of_mul_add_eq hp hp' hrest
  exact ⟨rfl, rfl, rfl⟩

theorem exchange_addr_lt {s a p : ℕ} (hs : 0 < s) (hsn : s < net.n) (ha : a < net.perStage)
    (hp : p < net.k) : (exchange net.k (net.shift s) a p).1 < net.perStage := by
  have hpow : net.perStage = net.shift s * net.k * net.k ^ (s - 1) := by
    rw [shift, perStage, ← pow_succ, ← pow_add]
    congr 1
    omega
  rw [hpow] at ha ⊢
  exact exchange_lt (shift_pos s) net.k_pos hp ha

/-- The channel from output port `p` of switch `a` is the input of the switch and port of the
exchange, and of no other. -/
theorem input_eq_chan {s a p r q : ℕ} (hs : s + 1 < net.n) (ha : a < net.perStage)
    (hp : p < net.k) :
    (net.buildNet.filterMap (Wiring.inputOf r))[q]? = some (.chan (net.outChannel s a p)) ↔
      r = net.router (s + 1) (exchange net.k (net.shift (s + 1)) a p).1 ∧
        q = (exchange net.k (net.shift (s + 1)) a p).2 := by
  constructor
  · intro hq
    rw [input_port] at hq
    split_ifs at hq with hport
    obtain ⟨hr, hq'⟩ := hport
    rw [Option.some.injEq, inputAt] at hq
    split_ifs at hq with hzero
    rw [Channel.chan.injEq, inChannel_eq] at hq
    obtain ⟨hstage, haddr, hp⟩ := outChannel_inj
      (exchange_addr_lt (Nat.pos_of_ne_zero hzero) hr (addr_lt r) hq')
      (exchange_snd_lt net.k_pos) ha hp hq
    have hs' : net.stage r = s + 1 := by omega
    have hback := exchange_exchange (@shift_pos net (net.stage r)) net.k_pos (a := net.addr r) hq'
    rw [haddr, hp, hs'] at hback
    rw [hback, ← hs', router_stage_addr]
    exact ⟨rfl, rfl⟩
  · rintro ⟨rfl, rfl⟩
    have ha' := exchange_addr_lt (Nat.succ_pos s) hs ha hp
    rw [input_port, if_pos ⟨by rwa [stage_router ha'], exchange_snd_lt net.k_pos⟩,
      stage_router ha', addr_router ha', inputAt, if_neg (Nat.succ_ne_zero s), inChannel_eq,
      exchange_exchange (shift_pos _) net.k_pos hp, Nat.add_sub_cancel]

theorem sink_out {s a p : ℕ} (hs : s + 1 < net.n) (ha : a < net.perStage) (hp : p < net.k) :
    net.wiring.sink (.chan (net.outChannel s a p)) =
      some (net.router (s + 1) (exchange net.k (net.shift (s + 1)) a p).1,
        (exchange net.k (net.shift (s + 1)) a p).2) :=
  Wiring.sink_wire_port ((input_eq_chan hs ha hp).mpr ⟨rfl, rfl⟩)
    fun _ _ hq => (input_eq_chan hs ha hp).mp hq

theorem output_eq_chan {s a p r q : ℕ} (hs : s + 1 < net.n) (ha : a < net.perStage)
    (hp : p < net.k) :
    (net.wiring.outputChannels r)[q]? = some (.chan (net.outChannel s a p)) ↔
      r = net.router s a ∧ q = p := by
  constructor
  · intro hq
    rw [output_port] at hq
    split_ifs at hq with hport
    rw [Option.some.injEq, outputAt] at hq
    split_ifs at hq with hlast
    obtain ⟨rfl, rfl, rfl⟩ := outChannel_inj (addr_lt r) hport.2 ha hp (Channel.chan.inj hq)
    exact ⟨(router_stage_addr r).symm, rfl⟩
  · rintro ⟨rfl, rfl⟩
    rw [output_port, if_pos ⟨by rw [stage_router ha]; omega, hp⟩, stage_router ha, addr_router ha,
      outputAt, if_neg (by omega)]

/-- The channels between the stages are those that leave a switch of one but the last. -/
theorem exists_outChannel {c : ℕ} (hc : c < net.channels) :
    ∃ s a p, s + 1 < net.n ∧ a < net.perStage ∧ p < net.k ∧ c = net.outChannel s a p := by
  have hstage : c / net.nodes < net.n - 1 := Nat.div_lt_of_lt_mul (by rwa [Nat.mul_comm])
  have hnodes : 0 < net.nodes := Nat.pow_pos net.k_pos
  have haddr : c % net.nodes / net.k < net.perStage := by
    refine Nat.div_lt_of_lt_mul ?_
    rw [Nat.mul_comm, ← nodes_eq]
    exact Nat.mod_lt _ hnodes
  refine ⟨c / net.nodes, c % net.nodes / net.k, c % net.nodes % net.k,
    Nat.add_lt_of_lt_sub hstage, haddr,
    Nat.mod_lt _ net.k_pos, ?_⟩
  rw [outChannel, Nat.add_assoc, Nat.div_add_mod', Nat.div_add_mod']

/-- A channel has one source and one sink. -/
structure OneEach (w : Wiring) (channel : Channel) : Prop where
  source : ∃! e : ℕ × ℕ, (w.outputChannels e.1)[e.2]? = some channel
  sink : ∃! e : ℕ × ℕ, (w.inputChannels e.1)[e.2]? = some channel

theorem oneEach_chan {c : ℕ} (hc : c < net.channels) : OneEach net.wiring (.chan c) := by
  obtain ⟨s, a, p, hs, ha, hp, rfl⟩ := exists_outChannel hc
  constructor
  · refine ⟨(net.router s a, p), (output_eq_chan hs ha hp).mpr ⟨rfl, rfl⟩, fun e he => ?_⟩
    exact Prod.ext_iff.mpr ((output_eq_chan hs ha hp).mp he)
  · rw [wiring]
    simp only [Wiring.inputChannels_wire]
    refine ⟨(net.router (s + 1) (exchange net.k (net.shift (s + 1)) a p).1,
      (exchange net.k (net.shift (s + 1)) a p).2), (input_eq_chan hs ha hp).mpr ⟨rfl, rfl⟩,
      fun e he => ?_⟩
    exact Prod.ext_iff.mpr ((input_eq_chan hs ha hp).mp he)

theorem of_sink_inject {node r p : ℕ} (h : net.wiring.sink (.inject node) = some (r, p)) :
    net.stage r = 0 := by
  have hlisted := Wiring.sinksListed_wire net.buildNet _ _ _ h
  rw [Wiring.inputChannels_wire, input_port] at hlisted
  split_ifs at hlisted with hport
  rw [Option.some.injEq, inputAt] at hlisted
  split_ifs at hlisted with hzero
  exact hzero

/-! ## The route -/

theorem destTagPort_eq (r dest : ℕ) :
    destTagPort (net.globals vcs) r dest = dest / net.k ^ (net.n - 1 - net.stage r) % net.k := by
  have hstage : r * net.k / net.nodes = net.stage r := by
    rw [nodes_eq, Nat.mul_div_mul_right _ _ net.k_pos, stage]
  simp only [destTagPort, destTagLoop_eq, globals, hstage]

theorem destTagFly_eq {c : Call} (hholds : vcs.Holds c.flit) (hinj : c.inject = false) :
    destTagFly (net.globals vcs) c =
      some ⟨single (destTagPort (net.globals vcs) c.router.id c.flit.dest : ℕ)
        (classRange (net.globals vcs) c), c.flit⟩ := by
  rw [destTagFly, admitted_of_holds hholds]
  simp only [Option.bind_eq_bind, Option.bind_some, hinj, Bool.false_eq_true, if_false]

theorem injectsClass_destTagFly :
    InjectsClass (net.globals vcs) (destTagFly (net.globals vcs)) := by
  intro c hinj
  simp only [destTagFly, hinj, if_true]
  exact (Option.map_eq_bind ..).symm

/-- A packet for `dest` in some stage: the address agrees with the destination in the digits that
are decided. -/
structure Underway (net : KNFly) (vcs : ClassVCs) (dest : ℕ) (s : Flight) : Prop where
  stage_lt : net.stage s.router < net.n
  dest_lt : dest < net.nodes
  dest_eq : s.flit.dest = dest
  holds : vcs.Holds s.flit
  agrees : net.addr s.router / net.k ^ (net.n - 1 - net.stage s.router) =
    dest / net.k ^ (net.n - net.stage s.router)

theorem underway_of_start {s : Flight} (h : (net.flights vcs).start s) :
    net.Underway vcs s.flit.dest s ∧ net.stage s.router = 0 := by
  obtain ⟨hinjected, hdest, hsink⟩ := h
  have hstage := of_sink_inject hsink
  refine ⟨⟨by rw [hstage]; exact net.n_pos, hdest, rfl,
    injectsClass_destTagFly.holds hinjected, ?_⟩, hstage⟩
  have haddr : net.addr s.router / net.k ^ (net.n - 1) = 0 := Nat.div_eq_of_lt (addr_lt s.router)
  have hdest : s.flit.dest / net.k ^ net.n = 0 := Nat.div_eq_of_lt hdest
  rw [hstage, Nat.sub_zero, Nat.sub_zero, haddr, hdest]

variable {dest : ℕ} {s t : Flight} {o : Outcome Flight Sent ℕ}

/-- **One step**: the packet leaves in the last stage, and before that goes on to the next. -/
theorem destTagFly_outcome (hs : net.Underway vcs dest s) (ho : (net.flights vcs).outcome s o) :
    net.stage s.router + 1 = net.n ∧ o = .leave dest ∨
      ∃ a t, o = .hop a t ∧ net.Underway vcs dest t ∧
        net.stage t.router = net.stage s.router + 1 := by
  obtain ⟨c, hc, hdecided⟩ := ho
  have hholds : vcs.Holds c.flit := hc.flit ▸ hs.holds
  have hport := @destTagPort_eq net vcs s.router dest
  generalize hp : dest / net.k ^ (net.n - 1 - net.stage s.router) % net.k = p at hport
  have hplt : p < net.k := hp ▸ Nat.mod_lt _ net.k_pos
  rw [destTagFly_eq hholds hc.inject, hc.router, hc.flit, hs.dest_eq, hport,
    decided_single (vcs.begin_le_end _)] at hdecided
  obtain ⟨v, hlo, hhi, rfl⟩ := hdecided
  have hchan : net.wiring.channelAt c.router.id (p : ℕ) =
      some (net.outputAt (net.stage s.router) (net.addr s.router) p) := by
    rw [Wiring.channelAt_natCast, hc.router, output_port, if_pos ⟨hs.stage_lt, hplt⟩]
  by_cases hlast : net.stage s.router + 1 = net.n
  · refine .inl ⟨hlast, ?_⟩
    have hexp : net.n - 1 - net.stage s.router = 0 := by omega
    have hagrees := hs.agrees
    rw [hexp, show net.n - net.stage s.router = 1 by omega, pow_zero, pow_one, Nat.div_one]
      at hagrees
    rw [hexp, pow_zero, Nat.div_one] at hp
    rw [outputAt, if_pos (by omega), hagrees, ← hp, Nat.div_add_mod'] at hchan
    exact sentTo_eject (hp ▸ hchan)
  · have hnext : net.stage s.router + 1 < net.n := by
      have := hs.stage_lt
      omega
    rw [outputAt, if_neg (by omega)] at hchan
    have haddr := exchange_addr_lt (Nat.succ_pos _) hnext (addr_lt s.router) hplt
    refine .inr ⟨_, _, sentTo_chan hchan (sink_out hnext (addr_lt s.router) hplt),
      ⟨?_, hs.dest_lt, hs.dest_eq, ?_, ?_⟩, stage_router haddr⟩
    · rwa [stage_router haddr]
    · simpa [ClassVCs.Holds, classRange, globals, hc.flit] using And.intro hlo hhi
    · have hexp : net.k ^ (net.n - 1 - (net.stage s.router + 1)) =
          net.shift (net.stage s.router + 1) := by
        rw [shift]
        congr 1
        omega
      have hstep : net.shift (net.stage s.router + 1) * net.k =
          net.k ^ (net.n - 1 - net.stage s.router) := by
        rw [shift, ← pow_succ]
        congr 1
        omega
      have hagrees := hs.agrees
      rw [show net.n - net.stage s.router = net.n - 1 - net.stage s.router + 1 by omega, pow_succ,
        ← Nat.div_div_eq_div_mul] at hagrees
      rw [stage_router haddr, addr_router haddr, hexp, exchange_div (shift_pos _) net.k_pos, hstep,
        hagrees, ← hp, Nat.div_add_mod']
      congr 2
      omega

theorem stage_of_route {hops : List Sent} (hs : net.Underway vcs dest s)
    (hroute : (net.flights vcs).Route s hops t) :
    net.stage t.router = net.stage s.router + hops.length := by
  induction hroute with
  | nil => rfl
  | cons ha _ ih =>
    rcases destTagFly_outcome hs ha with ⟨-, hleave⟩ | ⟨_, _, hhop, hnext, hstage⟩
    · cases hleave
    · cases hhop
      rw [ih hnext, hstage, length_cons, Nat.add_assoc, Nat.add_comm 1]

theorem deliversIn_of_underway {m : ℕ} (hs : net.Underway vcs dest s)
    (hm : net.n - 1 - net.stage s.router = m) : (net.flights vcs).DeliversIn dest m s := by
  refine RouteSystem.deliversIn_of_distance (net.Underway vcs dest)
    (fun s => net.n - 1 - net.stage s.router) (fun s _ => flights_moves _ _ _ s)
    (fun s o hs ho => ?_) hs hm
  rcases destTagFly_outcome hs ho with ⟨hlast, rfl⟩ | ⟨a, t, rfl, ht, hstage⟩
  · exact .inl ⟨by omega, rfl⟩
  · refine .inr ⟨a, t, rfl, ht, ?_⟩
    have := ht.stage_lt
    omega

theorem sink_inject {node : ℕ} (hnode : node < net.nodes) :
    net.wiring.sink (.inject node) = some (node / net.k, node % net.k) := by
  have hlt : node / net.k < net.perStage := by
    refine Nat.div_lt_of_lt_mul ?_
    rwa [Nat.mul_comm, ← nodes_eq]
  have hstage : net.stage (node / net.k) = 0 := Nat.div_eq_of_lt hlt
  have haddr : net.addr (node / net.k) = node / net.k := Nat.mod_eq_of_lt hlt
  refine Wiring.sink_wire_port ?_ fun r p hp => ?_
  · rw [input_port, hstage, haddr, if_pos ⟨net.n_pos, Nat.mod_lt _ net.k_pos⟩, inputAt, if_pos rfl,
      Nat.div_add_mod']
  · rw [input_port] at hp
    split_ifs at hp with hport
    rw [Option.some.injEq, inputAt] at hp
    split_ifs at hp with hzero
    rw [Channel.inject.injEq] at hp
    have hr := @router_stage_addr net r
    rw [hzero, router, Nat.zero_mul, Nat.zero_add] at hr
    rw [hr] at hp
    rw [← hp, Nat.mul_comm, Nat.mul_add_div net.k_pos, Nat.mul_add_mod, Nat.div_eq_of_lt hport.2,
      Nat.mod_eq_of_lt hport.2]
    exact ⟨rfl, rfl⟩

/-- What destination-tag routing should do with every packet, and the wiring with every channel. -/
structure DeliversByTag (net : KNFly) (vcs : ClassVCs) : Prop where
  starts : ∀ src < net.nodes, ∀ dest < net.nodes, ∀ cl, ∃ s, (net.flights vcs).start s ∧
    s.flit.src = src ∧ s.flit.dest = dest ∧ s.flit.cl = cl
  delivered : ∀ s, (net.flights vcs).start s →
    (net.flights vcs).DeliversIn s.flit.dest (net.n - 1) s
  stages : ∀ s, (net.flights vcs).start s → ∀ hops t, (net.flights vcs).Route s hops t →
    net.stage t.router = hops.length
  wired : ∀ c < net.channels, OneEach net.wiring (.chan c)

/-- **Destination-tag routing on the butterfly.**  A packet of every class can start at every
node for every other; it goes through one router of each stage and leaves by the channel of its
destination; and each channel between two stages has
one source and one sink. -/
theorem destTagFly_delivers (net : KNFly) (vcs : ClassVCs) : net.DeliversByTag vcs where
  starts _ hsrc _ hdest := injectsClass_destTagFly.starts hdest (sink_inject hsrc)
  delivered s hstart := by
    obtain ⟨hs, hstage⟩ := underway_of_start hstart
    exact deliversIn_of_underway hs (by rw [hstage, Nat.sub_zero])
  stages s hstart hops t hroute := by
    obtain ⟨hs, hstage⟩ := underway_of_start hstart
    rw [stage_of_route hs hroute, hstage, Nat.zero_add]
  wired _ hc := oneEach_chan hc

end KNFly

end BookSim
