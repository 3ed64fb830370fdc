/-
# DGX1Lanes — the wiring loops of a DGX-1

Every entry of the maps of a DGX-1 is a bundle of lanes: 64 for a node, and for a link as many
as the bus has.  Each lane is a channel of its own.  `_BuildNet` goes over the maps twice,

    attachNode      the lanes of a node: an injection and an ejection channel each
    attachLink      the lanes of a link: a channel from one router to the other

and keeps three counts: the virtual ports of each router, one for a bundle, its actual ports,
one for a lane, and the channels between routers.  `actual_outports` tells which actual ports
belong to a virtual one.

The loops are defined for any maps, since nothing they do depends on what a DGX-1 looks like.
`Sound` is what each round keeps: the actual ports are shared out among the virtual ones, and
behind those of an entry is what the entry is for.
-/
import BookSim.Lib.Table
import BookSim.Networks.DGX1Topology
import BookSim.Networks.NVIDIADGX1
import Mathlib.Algebra.BigOperators.Ring.List

namespace BookSim.NVIDIADGX1

open List
open Function (update update_of_ne update_self)

/-! ## The loops -/

/-- `_getLanesNum`; a bus is given by its value, as in the maps. -/
def getLanesNum (bus : ℕ) : ℕ :=
  if bus = BusLatency.pcieGen3x16.cycles then 16
  else if bus = BusLatency.nvLinkV1.cycles then 8
  else if bus = BusLatency.nvLinkV2.cycles then 8
  else 1

/-- `_getRouterPortsNum`. -/
def getRouterPortsNum (net : AnyNet) (router : ℕ) : ℕ :=
  ((net.row .node router).map fun _ => 64).sum +
    ((net.row .router router).map fun e => getLanesNum e.2.lat).sum

/-- `_channels` of `_ComputeSize`. -/
def computeChannels (net : AnyNet) : ℕ :=
  ((net.routerList .router).entries.map fun row =>
    (row.2.entries.map fun e => getLanesNum e.2.lat).sum).sum

/-- `_nodes` of `_ComputeSize`. -/
def computeNodes (net : AnyNet) : ℕ := 64 * net.nodeList.size

/-- The variables of `_BuildNet`. -/
structure Build where
  net : AnyNet
  lanes : Lanes := {}
  virtualOutport : ℕ → ℕ := fun _ => 0
  actualOutcnt : ℕ → ℕ := fun _ => 0
  actualOutports : ℕ → ℕ → Finset ℕ := fun _ _ => ∅
  wiring : Wiring := .empty
  pchannelCount : ℕ := 0

namespace Build

/-- Put the next actual port of a router with one of its virtual ports. -/
def addPort (node port : ℕ) (s : Build) : Build :=
  { s with
    actualOutports := update₂ s.actualOutports node port
      (insert (s.actualOutcnt node) (s.actualOutports node port))
    actualOutcnt := update s.actualOutcnt node (s.actualOutcnt node + 1) }

/-- Write the next virtual port of router `node` into an entry of the maps. -/
def assignPort (t : ParseType) (node : ℕ) (e : ℕ × Link) (s : Build) : Build :=
  { s with net := s.net.setLink t node e.1 { e.2 with port := s.virtualOutport node } }

/-- One lane of node `link`, at router `node`. -/
def nodeLane (node port link : ℕ) (s : Build) : Build :=
  let vnode := s.lanes.vnode
  { s.addPort node port with
    lanes := addLane link s.lanes
    wiring := (s.wiring.addInputChannel node (.inject vnode)).addOutputChannel node (.eject vnode) }

/-- One lane of the link from `node` to `other`. -/
def linkLane (node port other : ℕ) (s : Build) : Build :=
  let channel := .chan s.pchannelCount
  { s.addPort node port with
    wiring := (s.wiring.addOutputChannel node channel).addInputChannel other channel
    pchannelCount := s.pchannelCount + 1 }

/-- The next bundle of `node` has the next virtual port. -/
def nextPort (node : ℕ) (s : Build) : Build :=
  { s with virtualOutport := update s.virtualOutport node (s.virtualOutport node + 1) }

/-- Set the iterator of a node to `begin()`. -/
def resetVnode (link : ℕ) (s : Build) : Build :=
  { s with lanes := { s.lanes with
    lastVnode := update s.lanes.lastVnode link (s.lanes.virtualNodes link).head? } }

/-- The body of the first loop, for one entry. -/
def attachNode (node : ℕ) (s : Build) (e : ℕ × Link) : Build :=
  nextPort node ((nodeLane node (s.virtualOutport node) e.1)^[64]
    (resetVnode e.1 (assignPort .node node e s)))

/-- The body of the second loop, for one entry. -/
def attachLink (node : ℕ) (s : Build) (e : ℕ × Link) : Build :=
  nextPort node ((linkLane node (s.virtualOutport node) e.1)^[getLanesNum e.2.lat]
    (assignPort .router node e s))

end Build

/-- `_BuildNet`, up to the routing tables.  The loops write into the maps they go over, but only
ports, so that they meet the entries there were before. -/
def wireLanes (net : AnyNet) : Build :=
  let routers := (net.routerList .node).keys
  let s := routers.foldl (fun s node => (net.row .node node).foldl (Build.attachNode node) s)
    { net }
  routers.foldl (fun s node => (net.row .router node).foldl (Build.attachLink node) s) s

/-! ## The counts -/

section Counts

variable {net : AnyNet}

/-- What both loops add to a count that only lanes change, where a lane of `link` at `node` adds
`ofNode node link` and a lane from `node` to `other` adds `ofLink node other`. -/
theorem wireLanes_grows {μ : Build → ℕ} (ofNode ofLink : ℕ → ℕ → ℕ)
    (hnode : ∀ node port link s, μ (Build.nodeLane node port link s) = μ s + ofNode node link)
    (hlink : ∀ node port other s, μ (Build.linkLane node port other s) = μ s + ofLink node other)
    (hassign : ∀ t node e s, μ (Build.assignPort t node e s) = μ s)
    (hreset : ∀ link s, μ (Build.resetVnode link s) = μ s)
    (hnext : ∀ node s, μ (Build.nextPort node s) = μ s) :
    μ (wireLanes net) = μ { net } +
      ((net.routerList .node).keys.map fun r =>
        ((net.row .node r).map fun e => 64 * ofNode r e.1).sum).sum +
      ((net.routerList .node).keys.map fun r =>
        ((net.row .router r).map fun e => getLanesNum e.2.lat * ofLink r e.1).sum).sum := by
  have hnodes (r : ℕ) (s : Build) (e : ℕ × Link) :
      μ (Build.attachNode r s e) = μ s + 64 * ofNode r e.1 := by
    rw [Build.attachNode, hnext, iterate_grows (hnode r _ e.1), hreset, hassign]
  have hlinks (r : ℕ) (s : Build) (e : ℕ × Link) :
      μ (Build.attachLink r s e) = μ s + getLanesNum e.2.lat * ofLink r e.1 := by
    rw [Build.attachLink, hnext, iterate_grows (hlink r _ e.1), hassign]
  refine (foldl_grows (fun s r => foldl_grows (hlinks r) (net.row .router r) s) _ _).trans ?_
  rw [foldl_grows fun s r => foldl_grows (hnodes r) (net.row .node r) s]

theorem actualOutcnt_addPort (node port r : ℕ) (s : Build) :
    (s.addPort node port).actualOutcnt r = s.actualOutcnt r + if r = node then 1 else 0 := by
  by_cases hr : r = node
  · subst hr
    simp [Build.addPort]
  · simp [Build.addPort, hr]

theorem length_addInputChannel (w : Wiring) (router r : ℕ) (channel : Channel) :
    ((w.addInputChannel router channel).inputChannels r).length =
      (w.inputChannels r).length + if r = router then 1 else 0 := by
  by_cases hr : r = router
  · subst hr
    simp [Wiring.addInputChannel]
  · simp [Wiring.addInputChannel, hr]

theorem actualOutcnt_wireLanes (r : ℕ) : (wireLanes net).actualOutcnt r =
    ((net.routerList .node).keys.map fun a =>
      ((net.row .node a).map fun _ => 64 * if r = a then 1 else 0).sum).sum +
    ((net.routerList .node).keys.map fun a =>
      ((net.row .router a).map fun e => getLanesNum e.2.lat * if r = a then 1 else 0).sum).sum := by
  have h := @wireLanes_grows net (fun s => s.actualOutcnt r) (fun a _ => if r = a then 1 else 0)
    (fun a _ => if r = a then 1 else 0)
    (fun node port _ s => actualOutcnt_addPort node port r s)
    (fun node port _ s => actualOutcnt_addPort node port r s)
    (fun _ _ _ _ => rfl) (fun _ _ => rfl) fun _ _ => rfl
  rw [h, Nat.zero_add]

theorem length_inputChannels_wireLanes (r : ℕ) : ((wireLanes net).wiring.inputChannels r).length =
    ((net.routerList .node).keys.map fun a =>
      ((net.row .node a).map fun _ => 64 * if r = a then 1 else 0).sum).sum +
    ((net.routerList .node).keys.map fun a =>
      ((net.row .router a).map fun e => getLanesNum e.2.lat * if r =
        e.1 then 1 else 0).sum).sum := by
  have h := @wireLanes_grows net (fun s => (s.wiring.inputChannels r).length)
    (fun a _ => if r = a then 1 else 0) (fun _ other => if r = other then 1 else 0)
    (fun node _ _ s => length_addInputChannel s.wiring node r (.inject s.lanes.vnode))
    (fun node _ other s => length_addInputChannel
      (s.wiring.addOutputChannel node (.chan s.pchannelCount)) other r (.chan s.pchannelCount))
    (fun _ _ _ _ => rfl) (fun _ _ => rfl) fun _ _ => rfl
  rw [h]
  exact congrArg (· + _) (Nat.zero_add _)

theorem pchannelCount_wireLanes : (wireLanes net).pchannelCount =
    ((net.routerList .node).keys.map fun a =>
      ((net.row .router a).map fun e => getLanesNum e.2.lat).sum).sum := by
  have h := @wireLanes_grows net (fun s => s.pchannelCount) (fun _ _ => 0) (fun _ _ => 1)
    (fun _ _ _ _ => rfl) (fun _ _ _ _ => rfl) (fun _ _ _ _ => rfl) (fun _ _ => rfl) fun _ _ => rfl
  simpa using h

end Counts

/-! ## What is behind a port -/

namespace Build

/-- Output `x` of router `r` is a channel to node or router `m`. -/
def Leads (s : Build) : ParseType → ℕ → ℕ → ℕ → Prop
  | .node, r, m, x => ∃ vnode < s.lanes.vnode,
      (s.wiring.outputChannels r)[x]? = some (.eject vnode) ∧ s.lanes.actualNode vnode = m
  | .router, r, m, x => ∃ c port, (s.wiring.outputChannels r)[x]? = some (.chan c) ∧
      s.wiring.sink (.chan c) = some (m, port)

/-- The channels that have been attached are the first ones of their kind. -/
structure Used (s : Build) : Prop where
  inject : ∀ vnode, (s.wiring.sink (.inject vnode)).isSome ↔ vnode < s.lanes.vnode
  eject : ∀ vnode, (s.wiring.source (.eject vnode)).isSome ↔ vnode < s.lanes.vnode
  sink : ∀ c, (s.wiring.sink (.chan c)).isSome ↔ c < s.pchannelCount
  source : ∀ c, (s.wiring.source (.chan c)).isSome ↔ c < s.pchannelCount

/-- The actual ports are shared out among the virtual ports below `bound`, and these among the
entries of the maps; behind the ports of an entry is what the entry is for. -/
structure Sound (bound : ℕ → ℕ) (s : Build) : Prop where
  counted : ∀ r, (s.wiring.outputChannels r).length = s.actualOutcnt r
  below : ∀ {r p x}, x ∈ s.actualOutports r p → x < s.actualOutcnt r ∧ p < bound r
  covered : ∀ {r x}, x < s.actualOutcnt r → ∃ p, x ∈ s.actualOutports r p
  disjoint : ∀ {r p q x}, x ∈ s.actualOutports r p → x ∈ s.actualOutports r q → p = q
  numbered : ∀ {t r m l}, s.net.link? t r m = some l → l.port < bound r
  own : ∀ {t t' r m m' l l'}, s.net.link? t r m = some l → s.net.link? t' r m' = some l' →
    0 ≤ l.port → l'.port = l.port → t' = t ∧ m' = m
  leads : ∀ {t r m l x} {p : ℕ}, s.net.link? t r m = some l → l.port = p →
    x ∈ s.actualOutports r p → s.Leads t r m x

variable {s s' : Build} {node port : ℕ}

theorem mem_addPort {r p x : ℕ} : x ∈ (s.addPort node port).actualOutports r p ↔
    x ∈ s.actualOutports r p ∨ r = node ∧ p = port ∧ x = s.actualOutcnt node := by
  by_cases h : r = node ∧ p = port
  · obtain ⟨rfl, rfl⟩ := h
    simp [addPort, or_comm]
  · rw [addPort]
    dsimp only
    rw [update₂_apply, if_neg h]
    exact ⟨.inl, fun hx => hx.resolve_right fun hx => h ⟨hx.1, hx.2.1⟩⟩

/-- What all lanes have in common: the next output of `node` goes to the virtual port `port`. -/
structure Lane (node port : ℕ) (s s' : Build) : Prop where
  net : s'.net = s.net
  virtualOutport : s'.virtualOutport = s.virtualOutport
  outports : s'.actualOutports = (s.addPort node port).actualOutports
  outcnt : s'.actualOutcnt = (s.addPort node port).actualOutcnt
  outputs : ∃ channel, ∀ r, s'.wiring.outputChannels r =
    s.wiring.outputChannels r ++ if r = node then [channel] else []
  keeps : ∀ t r m x, s.Leads t r m x → s'.Leads t r m x

theorem Sound.lane {bound : ℕ → ℕ} {t : ParseType} {m : ℕ} {l : Link} (h : Sound bound s)
    (hlane : Lane node port s s') (hentry : s.net.link? t node m = some l) (hport : l.port = port)
    (hnew : s'.Leads t node m (s.actualOutcnt node)) : Sound bound s' := by
  have hmem {r p x : ℕ} : x ∈ s'.actualOutports r p ↔
      x ∈ s.actualOutports r p ∨ r = node ∧ p = port ∧ x = s.actualOutcnt node := by
    rw [hlane.outports, mem_addPort]
  have hcnt (r : ℕ) : s'.actualOutcnt r = s.actualOutcnt r + if r = node then 1 else 0 := by
    rw [hlane.outcnt, actualOutcnt_addPort]
  have hbound : port < bound node := by
    have := h.numbered hentry
    omega
  refine ⟨fun r => ?_, fun {r p x} hx => ?_, fun {r x} hx => ?_, fun {r p q x} hp hq => ?_,
    fun hl => h.numbered (hlane.net ▸ hl), fun hl hl' => h.own (hlane.net ▸ hl) (hlane.net ▸ hl'),
    fun {t' r m' l' x p} hl hp hx => ?_⟩
  · obtain ⟨channel, hout⟩ := hlane.outputs
    rw [hout, hcnt, length_append, h.counted]
    split_ifs
    · rfl
    · rfl
  · rw [hcnt]
    rcases hmem.mp hx with hx | ⟨rfl, rfl, rfl⟩
    · exact ⟨Nat.lt_add_right _ (h.below hx).1, (h.below hx).2⟩
    · rw [if_pos rfl]
      exact ⟨Nat.lt_succ_self _, hbound⟩
  · rw [hcnt] at hx
    by_cases hold : x < s.actualOutcnt r
    · obtain ⟨p, hp⟩ := h.covered hold
      exact ⟨p, hmem.mpr (.inl hp)⟩
    · have hr : r = node := by
        by_contra hr
        rw [if_neg hr] at hx
        exact hold hx
      subst hr
      rw [if_pos rfl] at hx
      exact ⟨port, hmem.mpr (.inr ⟨rfl, rfl, by omega⟩)⟩
  · -- the new port is the only one that is not below the count
    rcases hmem.mp hp with hp | ⟨rfl, rfl, rfl⟩ <;> rcases hmem.mp hq with hq | ⟨hr, rfl, hx⟩
    · exact h.disjoint hp hq
    · subst hr hx
      exact absurd (h.below hp).1 (lt_irrefl _)
    · exact absurd (h.below hq).1 (lt_irrefl _)
    · rfl
  · rw [hlane.net] at hl
    rcases hmem.mp hx with hx | ⟨rfl, rfl, rfl⟩
    · exact hlane.keeps t' r m' x (h.leads hl hp hx)
    · obtain ⟨rfl, rfl⟩ := h.own hentry hl (by omega) (by omega)
      exact hnew

/-! ## The steps of the loops -/

theorem getElem?_outputs {w w' : Wiring} {channel channel' : Channel} {r x : ℕ}
    (hout : ∀ r, w'.outputChannels r =
      w.outputChannels r ++ if r = node then [channel'] else [])
    (hx : (w.outputChannels r)[x]? = some channel) : (w'.outputChannels r)[x]? = some channel := by
  obtain ⟨hlt, -⟩ := List.getElem?_eq_some_iff.mp hx
  rw [hout, List.getElem?_append_left hlt, hx]

theorem outputs_nodeLane (link : ℕ) (s : Build) (r : ℕ) :
    (s.nodeLane node port link).wiring.outputChannels r =
      s.wiring.outputChannels r ++ if r = node then [.eject s.lanes.vnode] else [] := by
  by_cases hr : r = node
  · subst hr
    simp [nodeLane, Wiring.addOutputChannel, Wiring.addInputChannel]
  · simp [nodeLane, Wiring.addOutputChannel, Wiring.addInputChannel, hr]

theorem outputs_linkLane (other : ℕ) (s : Build) (r : ℕ) :
    (s.linkLane node port other).wiring.outputChannels r =
      s.wiring.outputChannels r ++ if r = node then [.chan s.pchannelCount] else [] := by
  by_cases hr : r = node
  · subst hr
    simp [linkLane, Wiring.addOutputChannel, Wiring.addInputChannel]
  · simp [linkLane, Wiring.addOutputChannel, Wiring.addInputChannel, hr]

theorem sink_nodeLane (link : ℕ) (s : Build) : (s.nodeLane node port link).wiring.sink =
    update s.wiring.sink (.inject s.lanes.vnode)
      (some (node, (s.wiring.inputChannels node).length)) := rfl

theorem source_nodeLane (link : ℕ) (s : Build) : (s.nodeLane node port link).wiring.source =
    update s.wiring.source (.eject s.lanes.vnode)
      (some (node, (s.wiring.outputChannels node).length)) := rfl

theorem sink_linkLane (other : ℕ) (s : Build) : (s.linkLane node port other).wiring.sink =
    update s.wiring.sink (.chan s.pchannelCount)
      (some (other, (s.wiring.inputChannels other).length)) := rfl

theorem source_linkLane (other : ℕ) (s : Build) : (s.linkLane node port other).wiring.source =
    update s.wiring.source (.chan s.pchannelCount)
      (some (node, (s.wiring.outputChannels node).length)) := rfl

theorem lane_nodeLane (link : ℕ) (s : Build) : Lane node port s (s.nodeLane node port link) where
  net := rfl
  virtualOutport := rfl
  outports := rfl
  outcnt := rfl
  outputs := ⟨_, outputs_nodeLane link s⟩
  keeps t r m x h := by
    cases t with
    | node =>
      obtain ⟨vnode, hlt, hx, hm⟩ := h
      refine ⟨vnode, Nat.lt_succ_of_lt hlt, getElem?_outputs (outputs_nodeLane link s) hx, ?_⟩
      exact (update_of_ne hlt.ne ..).trans hm
    | router =>
      obtain ⟨c, p, hx, hsink⟩ := h
      have hne : Channel.chan c ≠ .inject s.lanes.vnode := by simp
      refine ⟨c, p, getElem?_outputs (outputs_nodeLane link s) hx, ?_⟩
      rw [sink_nodeLane, update_of_ne hne, hsink]

theorem lane_linkLane (other : ℕ) {s : Build} (h : s.Used) :
    Lane node port s (s.linkLane node port other) where
  net := rfl
  virtualOutport := rfl
  outports := rfl
  outcnt := rfl
  outputs := ⟨_, outputs_linkLane other s⟩
  keeps t r m x hleads := by
    cases t with
    | node =>
      obtain ⟨vnode, hlt, hx, hm⟩ := hleads
      exact ⟨vnode, hlt, getElem?_outputs (outputs_linkLane other s) hx, hm⟩
    | router =>
      obtain ⟨c, p, hx, hsink⟩ := hleads
      have hc : c < s.pchannelCount := (h.sink c).mp (Option.isSome_of_eq_some hsink)
      have hne : Channel.chan c ≠ .chan s.pchannelCount := by simpa using hc.ne
      refine ⟨c, p, getElem?_outputs (outputs_linkLane other s) hx, ?_⟩
      rw [sink_linkLane, update_of_ne hne, hsink]

theorem leads_nodeLane {bound : ℕ → ℕ} (h : Sound bound s) (link : ℕ) :
    (s.nodeLane node port link).Leads .node node link (s.actualOutcnt node) := by
  refine ⟨s.lanes.vnode, Nat.lt_succ_self _, ?_, update_self ..⟩
  rw [outputs_nodeLane, if_pos rfl, ← h.counted, List.getElem?_concat_length]

theorem leads_linkLane {bound : ℕ → ℕ} (h : Sound bound s) (other : ℕ) :
    (s.linkLane node port other).Leads .router node other (s.actualOutcnt node) := by
  refine ⟨s.pchannelCount, _, ?_, update_self ..⟩
  rw [outputs_linkLane, if_pos rfl, ← h.counted, List.getElem?_concat_length]

theorem isSome_update {β : Type} {f : Channel → Option β} {channel channel' : Channel} {b : β} :
    (update f channel (some b) channel').isSome ↔ channel' = channel ∨ (f channel').isSome := by
  by_cases h : channel' = channel
  · simp [h]
  · simp [h]

theorem Used.nodeLane (h : s.Used) (link : ℕ) : (s.nodeLane node port link).Used where
  inject vnode := by
    rw [sink_nodeLane, isSome_update, h.inject, Channel.inject.injEq, or_comm]
    exact Nat.lt_succ_iff_lt_or_eq.symm
  eject vnode := by
    rw [source_nodeLane, isSome_update, h.eject, Channel.eject.injEq, or_comm]
    exact Nat.lt_succ_iff_lt_or_eq.symm
  sink c := by
    rw [sink_nodeLane, isSome_update, h.sink, or_iff_right (by simp)]
    rfl
  source c := by
    rw [source_nodeLane, isSome_update, h.source, or_iff_right (by simp)]
    rfl

theorem Used.linkLane (h : s.Used) (other : ℕ) : (s.linkLane node port other).Used where
  inject vnode := by
    rw [sink_linkLane, isSome_update, h.inject, or_iff_right (by simp)]
    rfl
  eject vnode := by
    rw [source_linkLane, isSome_update, h.eject, or_iff_right (by simp)]
    rfl
  sink c := by
    rw [sink_linkLane, isSome_update, h.sink, Channel.chan.injEq, or_comm]
    exact Nat.lt_succ_iff_lt_or_eq.symm
  source c := by
    rw [source_linkLane, isSome_update, h.source, Channel.chan.injEq, or_comm]
    exact Nat.lt_succ_iff_lt_or_eq.symm

theorem Sound.assignPort (h : Sound s.virtualOutport s) (t : ParseType) (node : ℕ) (e : ℕ × Link) :
    Sound (update s.virtualOutport node (s.virtualOutport node + 1)) (s.assignPort t node e) := by
  have hmono (r : ℕ) : s.virtualOutport r ≤
      update s.virtualOutport node (s.virtualOutport node + 1) r := by
    by_cases hr : r = node
    · subst hr
      simp
    · simp [hr]
  have hlink {t' : ParseType} {r m : ℕ} {l : Link}
      (hl : (s.assignPort t node e).net.link? t' r m = some l) :
      (t' = t ∧ r = node ∧ m = e.1 ∧ l.port = s.virtualOutport node) ∨
        s.net.link? t' r m = some l := by
    rw [Build.assignPort, AnyNet.link?_setLink] at hl
    split_ifs at hl with hnew
    · obtain ⟨rfl, rfl, rfl⟩ := hnew
      cases hl
      exact .inl ⟨rfl, rfl, rfl, rfl⟩
    · exact .inr hl
  refine ⟨h.counted, fun {r p x} hx => ?_, h.covered, h.disjoint, fun {t' r m l} hl => ?_,
    fun {t₁ t₂ r m₁ m₂ l₁ l₂} h₁ h₂ hnonneg heq => ?_, fun {t' r m l x p} hl hp hx => ?_⟩
  · exact ⟨(h.below hx).1, (h.below hx).2.trans_le (hmono r)⟩
  · rcases hlink hl with ⟨-, rfl, -, hport⟩ | hl
    · rw [hport, update_self]
      omega
    · have := h.numbered hl
      have := hmono r
      omega
  · rcases hlink h₁ with ⟨rfl, rfl, rfl, hp₁⟩ | hold₁ <;>
      rcases hlink h₂ with ⟨rfl, hr, rfl, hp₂⟩ | hold₂
    · exact ⟨rfl, rfl⟩
    · have := h.numbered hold₂
      omega
    · have := h.numbered hold₁
      rw [hr] at this
      omega
    · exact h.own hold₁ hold₂ hnonneg heq
  · rcases hlink hl with ⟨rfl, rfl, rfl, hport⟩ | hl
    · -- the ports of the entry are all still to come
      have := (h.below hx).2
      omega
    · exact h.leads hl hp hx

theorem iterate_lanes {bound : ℕ → ℕ} {t : ParseType} {m : ℕ} {l : Link} {lane : Build → Build}
    (hlane : ∀ s : Build, s.Used → Lane node port s (lane s))
    (hused : ∀ s : Build, s.Used → (lane s).Used)
    (hleads : ∀ s : Build, Sound bound s → (lane s).Leads t node m (s.actualOutcnt node))
    (hport : l.port = port) (k : ℕ) {s : Build} (hsound : Sound bound s) (hs : s.Used)
    (hentry : s.net.link? t node m = some l) :
    Sound bound (lane^[k] s) ∧ (lane^[k] s).Used ∧ (lane^[k] s).net = s.net ∧
      (lane^[k] s).virtualOutport = s.virtualOutport := by
  induction k with
  | zero => exact ⟨hsound, hs, rfl, rfl⟩
  | succ k ih =>
    obtain ⟨hsound, hu, hnet, hvirtual⟩ := ih
    rw [Function.iterate_succ_apply']
    have hl := hlane _ hu
    exact ⟨hsound.lane hl (hnet ▸ hentry) hport (hleads _ hsound), hused _ hu,
      hl.net.trans hnet, hl.virtualOutport.trans hvirtual⟩

/-- The state between two rounds. -/
structure Wired (s : Build) : Prop where
  sound : Sound s.virtualOutport s
  used : s.Used

theorem Wired.nextPort {start s : Build} (hsound : Sound
      (update start.virtualOutport node (start.virtualOutport node + 1)) s) (hused : s.Used)
    (hvirtual : s.virtualOutport = start.virtualOutport) : Wired (s.nextPort node) := by
  refine ⟨?_, hused.inject, hused.eject, hused.sink, hused.source⟩
  rw [Build.nextPort, hvirtual]
  exact ⟨hsound.counted, hsound.below, hsound.covered, hsound.disjoint, hsound.numbered,
    hsound.own, hsound.leads⟩

theorem link?_assignPort (t : ParseType) (node : ℕ) (e : ℕ × Link) (s : Build) :
    (s.assignPort t node e).net.link? t node e.1 =
      some { e.2 with port := s.virtualOutport node } := by
  rw [assignPort, AnyNet.link?_setLink, if_pos ⟨rfl, rfl, rfl⟩]

theorem Wired.attachNode (h : Wired s) (node : ℕ) (e : ℕ × Link) :
    Wired (s.attachNode node e) ∧ (s.attachNode node e).net = (s.assignPort .node node e).net := by
  have hassign := h.sound.assignPort .node node e
  have hstart : Sound _ (resetVnode e.1 (s.assignPort .node node e)) :=
    ⟨hassign.counted, hassign.below, hassign.covered, hassign.disjoint, hassign.numbered,
      hassign.own, hassign.leads⟩
  obtain ⟨hsound, hused, hnet, hvirtual⟩ := iterate_lanes (fun s _ => lane_nodeLane e.1 s)
    (fun s hs => hs.nodeLane e.1) (fun s hs => leads_nodeLane hs e.1) rfl 64 hstart
    ⟨h.used.inject, h.used.eject, h.used.sink, h.used.source⟩ (link?_assignPort .node node e s)
  exact ⟨.nextPort hsound hused hvirtual, hnet⟩

theorem Wired.attachLink (h : Wired s) (node : ℕ) (e : ℕ × Link) :
    Wired (s.attachLink node e) ∧
      (s.attachLink node e).net = (s.assignPort .router node e).net := by
  obtain ⟨hsound, hused, hnet, hvirtual⟩ := iterate_lanes (fun s hs => lane_linkLane e.1 hs)
    (fun s hs => hs.linkLane e.1) (fun s hs => leads_linkLane hs e.1) rfl (getLanesNum e.2.lat)
    (h.sound.assignPort .router node e)
    ⟨h.used.inject, h.used.eject, h.used.sink, h.used.source⟩ (link?_assignPort .router node e s)
  exact ⟨.nextPort hsound hused hvirtual, hnet⟩

/-! ## Both loops -/

/-- An entry has its port. -/
def Assigned (s : Build) (t : ParseType) (a b : ℕ) : Prop :=
  ∃ l, s.net.link? t a b = some l ∧ 0 ≤ l.port

/-- Between two rounds, on the maps `net`: all that has changed in the maps are ports. -/
structure Between (net : AnyNet) (s : Build) : Prop extends Wired s where
  lats : ∀ t a b, s.net.lat? t a b = net.lat? t a b

/-- What a round has to do. -/
def Attaches (t : ParseType) (f : ℕ → Build → ℕ × Link → Build) : Prop :=
  ∀ node s e, Wired s → Wired (f node s e) ∧ (f node s e).net = (s.assignPort t node e).net

variable {net : AnyNet} {t : ParseType} {f : ℕ → Build → ℕ × Link → Build}

theorem Between.round (h : Between net s) (hf : Attaches t f) {node : ℕ} {e : ℕ × Link}
    (he : net.link? t node e.1 = some e.2) :
    Between net (f node s e) ∧ (f node s e).Assigned t node e.1 ∧
      ∀ t' a b, s.Assigned t' a b → (f node s e).Assigned t' a b := by
  obtain ⟨hwired, hnet⟩ := hf node s e h.toWired
  have hnew : (f node s e).Assigned t node e.1 :=
    ⟨_, hnet ▸ link?_assignPort t node e s, Int.natCast_nonneg _⟩
  refine ⟨⟨hwired, fun t' a b => ?_⟩, hnew, fun t' a b ⟨l, hl, hport⟩ => ?_⟩
  · rw [hnet, assignPort, AnyNet.lat?_setLink, h.lats]
    split_ifs with heq
    · obtain ⟨rfl, rfl, rfl⟩ := heq
      rw [AnyNet.lat?, he]
      rfl
    · rfl
  · by_cases heq : t' = t ∧ a = node ∧ b = e.1
    · obtain ⟨rfl, rfl, rfl⟩ := heq
      exact hnew
    · refine ⟨l, ?_, hport⟩
      rw [hnet, assignPort, AnyNet.link?_setLink, if_neg heq, hl]

theorem Between.loop (hf : Attaches t f) {entries : List (ℕ × ℕ × Link)}
    (hentries : ∀ p ∈ entries, net.link? t p.1 p.2.1 = some p.2.2) (h : Between net s) :
    let s' := entries.foldl (fun s p => f p.1 s p.2) s
    Between net s' ∧ (∀ p ∈ entries, s'.Assigned t p.1 p.2.1) ∧
      ∀ t' a b, s.Assigned t' a b → s'.Assigned t' a b := by
  induction entries generalizing s with
  | nil => exact ⟨h, fun p hp => absurd hp not_mem_nil, fun _ _ _ h => h⟩
  | cons p entries ih =>
    obtain ⟨hbetween, hnew, hkeep⟩ := h.round hf (hentries p mem_cons_self)
    obtain ⟨hlast, hall, hkeep'⟩ := ih (fun q hq => hentries q (mem_cons_of_mem p hq)) hbetween
    refine ⟨hlast, fun q hq => ?_, fun t' a b hs => hkeep' t' a b (hkeep t' a b hs)⟩
    rcases mem_cons.mp hq with rfl | hq
    · exact hkeep' _ _ _ hnew
    · exact hall q hq

theorem between_start (hports : ∀ t a b l, net.link? t a b = some l → l.port = -1) :
    Between net { net } where
  sound := {
    counted _ := rfl
    below hx := absurd hx (Finset.notMem_empty _)
    covered hx := absurd hx (Nat.not_lt_zero _)
    disjoint hx := absurd hx (Finset.notMem_empty _)
    numbered hl := by
      rw [hports _ _ _ _ hl]
      exact Int.negSucc_lt_zero 0
    own hl _ hport := by
      rw [hports _ _ _ _ hl] at hport
      exact absurd hport (by decide)
    leads _ _ hx := absurd hx (Finset.notMem_empty _) }
  used := {
    inject _ := by simp [Wiring.empty]
    eject _ := by simp [Wiring.empty]
    sink _ := by simp [Wiring.empty]
    source _ := by simp [Wiring.empty] }
  lats _ _ _ := rfl

end Build

/-- The entries of a map, in the order of the loops. -/
def entriesOf (net : AnyNet) (t : ParseType) : List (ℕ × ℕ × Link) :=
  (net.routerList .node).keys.flatMap fun r => (net.row t r).map (Prod.mk r)

theorem wireLanes_eq (net : AnyNet) : wireLanes net =
    (entriesOf net .router).foldl (fun s p => Build.attachLink p.1 s p.2)
      ((entriesOf net .node).foldl (fun s p => Build.attachNode p.1 s p.2) { net }) := by
  simp only [entriesOf, foldl_flatMap, foldl_map]
  rfl

section Whole

variable {net : AnyNet}

theorem mem_entriesOf {t : ParseType} {p : ℕ × ℕ × Link} (hnet : net.Numbered) :
    p ∈ entriesOf net t ↔ net.link? t p.1 p.2.1 = some p.2.2 := by
  simp only [entriesOf, mem_flatMap, mem_map]
  constructor
  · rintro ⟨r, -, e, he, rfl⟩
    exact AnyNet.mem_row_iff.mp he
  · intro hl
    refine ⟨p.1, ?_, p.2, AnyNet.mem_row_iff.mpr hl, rfl⟩
    rw [hnet.routers, mem_range]
    exact hnet.lt_size hl

theorem between_wireLanes (hnet : net.Numbered)
    (hports : ∀ t a b l, net.link? t a b = some l → l.port = -1) :
    Build.Between net (wireLanes net) ∧
      ∀ t a b l, (wireLanes net).net.link? t a b = some l → 0 ≤ l.port := by
  have hnodes := (Build.between_start hports).loop (t := .node)
    (fun node s e h => h.attachNode node e) (fun p hp => (mem_entriesOf hnet).mp hp)
  have hlinks := hnodes.1.loop (t := .router)
    (fun node s e h => h.attachLink node e) (fun p hp => (mem_entriesOf hnet).mp hp)
  dsimp only at hnodes hlinks
  rw [← wireLanes_eq] at hlinks
  refine ⟨hlinks.1, fun t a b l hl => ?_⟩
  have hlat := hlinks.1.lats t a b
  rw [AnyNet.lat?, hl] at hlat
  obtain ⟨l₀, hl₀, -⟩ := Option.map_eq_some_iff.mp hlat.symm
  have hmem := (@mem_entriesOf net t (a, b, l₀) hnet).mpr hl₀
  have hassigned : (wireLanes net).Assigned t a b := by
    cases t with
    | node => exact hlinks.2.2 _ _ _ (hnodes.2.1 _ hmem)
    | router => exact hlinks.2.1 _ hmem
  obtain ⟨l', hl', hport⟩ := hassigned
  cases hl.symm.trans hl'
  exact hport

theorem sum_keys (hnet : net.Numbered) (t : ParseType) (f : ℕ → ℕ) :
    ((net.routerList t).keys.map f).sum = ∑ a ∈ Finset.range net.size, f a := by
  rw [hnet.routers]
  rfl

theorem sum_rows_single (hnet : net.Numbered) (t : ParseType) {r : ℕ} (hr : r < net.size)
    (f : ℕ × Link → ℕ) :
    ((net.routerList .node).keys.map fun a =>
      ((net.row t a).map fun e => f e * if r = a then 1 else 0).sum).sum =
      ((net.row t r).map f).sum := by
  simp only [sum_map_mul_right]
  rw [sum_keys hnet, Finset.sum_eq_single r]
  · rw [if_pos rfl, Nat.mul_one]
  · intro a _ hne
    rw [if_neg (Ne.symm hne), Nat.mul_zero]
  · intro hnot
    exact absurd (Finset.mem_range.mpr hr) hnot

theorem sum_row_key (t : ParseType) (a k : ℕ) (f : Link → ℕ) :
    ((net.row t a).map fun e => f e.2 * if k = e.1 then 1 else 0).sum =
      (net.link? t a k).elim 0 f := by
  unfold AnyNet.row AnyNet.link?
  cases (net.routerList t).get? a with
  | none => rfl
  | some row => exact row.sum_entries_key f k

theorem sum_row (hnet : net.Numbered) (a : ℕ) (f : Link → ℕ) :
    ((net.row .router a).map fun e => f e.2).sum =
      ∑ k ∈ Finset.range net.size, (net.link? .router a k).elim 0 f := by
  have hends := hnet.ends a
  unfold AnyNet.row
  unfold AnyNet.link? at hends ⊢
  cases hrow : (net.routerList .router).get? a with
  | none => simp
  | some row =>
    rw [hrow] at hends
    exact OrdMap.sum_entries hends f

theorem actualOutcnt_eq (hnet : net.Numbered) {r : ℕ} (hr : r < net.size) :
    (wireLanes net).actualOutcnt r = getRouterPortsNum net r := by
  rw [actualOutcnt_wireLanes, sum_rows_single hnet .node hr, sum_rows_single hnet .router hr]
  rfl

theorem length_inputChannels_eq (hnet : net.Numbered)
    (hsym : ∀ a b, net.lat? .router a b = net.lat? .router b a) {r : ℕ} (hr : r < net.size) :
    ((wireLanes net).wiring.inputChannels r).length = getRouterPortsNum net r := by
  have hlanes (a b : ℕ) : (net.link? .router a b).elim 0 (fun l => getLanesNum l.lat) =
      (net.lat? .router a b).elim 0 getLanesNum := by
    rw [AnyNet.lat?]
    cases net.link? .router a b with
    | none | some l => rfl
  rw [length_inputChannels_wireLanes, sum_rows_single hnet .node hr, getRouterPortsNum,
    sum_row hnet r fun l => getLanesNum l.lat, sum_keys hnet]
  refine congrArg _ (Finset.sum_congr rfl fun a _ => ?_)
  rw [sum_row_key .router a r fun l => getLanesNum l.lat, hlanes, hsym, ← hlanes]

theorem pchannelCount_eq (hnet : net.Numbered) :
    (wireLanes net).pchannelCount = computeChannels net := by
  have hrow : ∀ e ∈ (net.routerList .router).entries, net.row .router e.1 = e.2.entries := by
    intro e he
    rw [AnyNet.row, OrdMap.mem_entries_iff.mp he]
    rfl
  rw [pchannelCount_wireLanes, computeChannels, hnet.routers .node, ← hnet.routers .router,
    OrdMap.keys, map_map]
  refine congrArg List.sum (map_congr_left fun e he => ?_)
  rw [Function.comp_apply, hrow e he]

end Whole

end BookSim.NVIDIADGX1
