/-
# Admission — when a packet is taken, and what a refusal leaves behind

`_GeneratePacket` first asks the network for a virtual node of the source and then refuses the
packet if the injection queue of that virtual node is full.  What a virtual node is depends on
the topology:

    plain      every other network: `GetVirtualNode` of the base class, the node itself
    dgx1       64 lanes for each node, handed out by an iterator that moves at every call

The wrapper with the lanes of its first network is a `Wrapper`, and `Reached` are its states
after any calls.  Two things are said of every reachable state:

    LeavesNoTrace    a refused packet has changed nothing
    Predicts         `CheckInjectionQueue` is positive exactly when the packet is taken

`leaves_no_trace_iff` and `predicts_iff` say for which topologies and settings they hold: the
iterator of a node moves also for a packet that is refused, and `CheckInjectionQueue` looks at
the queue of the lane that has the NUMBER of the node.
-/
import BookSim.Networks.NVIDIADGX1
import BookSim.Priorities

namespace BookSim

/-! ## The wrapper and its network -/

inductive Topology where
  | plain
  | dgx1 (num_dgx1 : ℕ)
  deriving DecidableEq

/-- The nodes that a caller can name. -/
def Topology.nodes (cfg : TrafficConfig) : Topology → ℕ
  | .plain => cfg.nodes
  | .dgx1 num_dgx1 => 14 * num_dgx1

def Topology.lanes : Topology → Option Lanes
  | .plain => none
  | .dgx1 num_dgx1 => some (NVIDIADGX1.buildNet num_dgx1)

/-- `GetActualNode` of the network that was built. -/
def Topology.actualNode (topology : Topology) (vnode : ℕ) : ℕ :=
  match topology.lanes with
  | none => vnode
  | some lanes => lanes.actualNode vnode

/-- The traffic manager, and the lanes of its network if that has any. -/
structure Wrapper where
  tm : TrafficManager
  lanes : Option Lanes

namespace Wrapper

/-- `GetVirtualNode` of the network; `undefined` as in `NVIDIADGX1.getVirtualNode`. -/
def getVirtualNode (undefined : ℕ × Option ℕ) (w : Wrapper) (node : ℕ) : ℕ × Option Lanes :=
  match w.lanes with
  | none => (node, none)
  | some lanes =>
    let called := NVIDIADGX1.getVirtualNode undefined lanes node
    (called.1, some called.2)

/-- `GetActualNode` of the network. -/
def actualNode (w : Wrapper) (vnode : ℕ) : ℕ :=
  match w.lanes with
  | none => vnode
  | some lanes => lanes.actualNode vnode

/-- `GeneratePacket`: a packet that has waited for `time` cycles. -/
def generatePacket (cfg : TrafficConfig) (undefined : ℕ × Option ℕ) (w : Wrapper) (source : ℕ)
    (dest : ℤ) (size cl : ℕ) (time : ℤ) : Except Fault (Wrapper × Option ℕ) := do
  let (vnode, lanes) := w.getVirtualNode undefined source
  let (tm, pid) ← w.tm.generatePacket cfg vnode dest size cl (w.tm.time - time)
  return (⟨tm, lanes⟩, pid)

/-- `CheckInjectionQueue`: the room in a queue.  `_inj_size` is unsigned, the result an `int`. -/
def checkInjectionQueue (cfg : TrafficConfig) (w : Wrapper) (source cl : ℕ) : ℤ :=
  toInt (cfg.injSize - (w.tm.partialPackets source cl).length)

def new (topology : Topology) (bufs : ℕ → ℕ → BufferState) (gEndVCs : ℕ → ℤ) : Wrapper :=
  ⟨TrafficManager.new bufs gEndVCs, topology.lanes⟩

/-- The states that are reached by any calls, in any order, with packets of the given sizes. -/
inductive Reached (cfg : TrafficConfig) (topology : Topology) (sizes : Set ℕ) : Wrapper → Prop
  | new (bufs : ℕ → ℕ → BufferState) (gEndVCs : ℕ → ℤ) :
      Reached cfg topology sizes (new topology bufs gEndVCs)
  | generate {w w' : Wrapper} {undefined : ℕ × Option ℕ} {source size cl : ℕ} {dest time : ℤ}
      {pid : Option ℕ} : Reached cfg topology sizes w → source < topology.nodes cfg →
      cl < cfg.classes → size ∈ sizes →
      w.generatePacket cfg undefined source dest size cl time = .ok (w', pid) →
      Reached cfg topology sizes w'
  | retire {w : Wrapper} : Reached cfg topology sizes w → Reached cfg topology sizes
      { w with tm := (TrafficManager.retirePacket cfg w.actualNode w.tm).1 }
  | step {w : Wrapper} {tm : TrafficManager} {net : NetworkSide} {sent : List (ℕ × ℕ × Flit)} :
      Reached cfg topology sizes w →
      TrafficManager.step cfg w.actualNode net w.tm = .ok (tm, sent) →
      Reached cfg topology sizes { w with tm := tm }

/-- A refused packet leaves the traffic manager and the lanes as they were. -/
def LeavesNoTrace (cfg : TrafficConfig) (topology : Topology) : Prop :=
  ∀ w, Reached cfg topology Set.univ w → ∀ undefined source dest size cl time w',
    source < topology.nodes cfg → cl < cfg.classes →
    w.generatePacket cfg undefined source dest size cl time = .ok (w', none) → w' = w

/-- The sizes that a caller can name: `size` is an `int`. -/
def intSizes : Set ℕ := Set.Iio (2 ^ 31)

/-- `CheckInjectionQueue` tells whether the next packet is taken. -/
def Predicts (cfg : TrafficConfig) (topology : Topology) : Prop :=
  ∀ w, Reached cfg topology intSizes w → ∀ undefined source dest cl time, ∀ size ∈ intSizes,
    source < topology.nodes cfg → cl < cfg.classes → 0 ≤ dest →
    (0 < w.checkInjectionQueue cfg source cl ↔
      ∃ w' pid, w.generatePacket cfg undefined source dest size cl time = .ok (w', some pid))

/-! ## One call -/

section Call

variable {cfg : TrafficConfig} {topology : Topology} {sizes : Set ℕ} {w w' : Wrapper}
  {undefined : ℕ × Option ℕ} {source size cl : ℕ} {dest time : ℤ} {pid : Option ℕ}

theorem generatePacket_eq_ok :
    w.generatePacket cfg undefined source dest size cl time = .ok (w', pid) ↔
      w.tm.generatePacket cfg (w.getVirtualNode undefined source).1 dest size cl
          (w.tm.time - time) = .ok (w'.tm, pid) ∧
        w'.lanes = (w.getVirtualNode undefined source).2 := by
  constructor
  · intro h
    obtain ⟨⟨tm, pid'⟩, hgen, h⟩ := bind_ok.mp h
    cases return_ok.mp h
    exact ⟨hgen, rfl⟩
  · obtain ⟨tm, lanes⟩ := w'
    rintro ⟨hgen, rfl⟩
    exact bind_ok.mpr ⟨(tm, pid), hgen, rfl⟩

theorem taken_iff (hdest : 0 ≤ dest) :
    (∃ w' pid, w.generatePacket cfg undefined source dest size cl time = .ok (w', some pid)) ↔
      (w.tm.partialPackets (w.getVirtualNode undefined source).1 cl).length < cfg.injSize ∧
        (size = 0 ∨ ∃ pri, TrafficManager.packetPri cfg w.tm
          (w.getVirtualNode undefined source).1 cl (w.tm.time - time) = .ok pri) := by
  have hne : dest ≠ -1 := by omega
  generalize hcall : w.getVirtualNode undefined source = called
  constructor
  · rintro ⟨⟨tm, lanes⟩, pid, h⟩
    obtain ⟨hgen, -⟩ := generatePacket_eq_ok.mp h
    rw [hcall, TrafficManager.generatePacket] at hgen
    split_ifs at hgen with hfull hsize
    · cases hgen
    · exact ⟨by omega, .inl hsize⟩
    · obtain ⟨pri, hpri, -⟩ := bind_ok.mp hgen
      exact ⟨by omega, .inr ⟨pri, hpri⟩⟩
  · rintro ⟨hroom, hpri⟩
    have hgen : ∃ tm pid, w.tm.generatePacket cfg called.1 dest size cl (w.tm.time - time) =
        .ok (tm, some pid) := by
      rw [TrafficManager.generatePacket, if_neg (by omega), if_neg hne]
      by_cases hsize : size = 0
      · rw [if_pos hsize]
        exact ⟨_, _, rfl⟩
      · obtain ⟨pri, hpri⟩ := hpri.resolve_left hsize
        rw [if_neg hsize, hpri]
        exact ⟨_, _, rfl⟩
    obtain ⟨tm, pid, hgen⟩ := hgen
    exact ⟨⟨tm, called.2⟩, pid, generatePacket_eq_ok.mpr (by rw [hcall]; exact ⟨hgen, rfl⟩)⟩

/-- What the calls never change of the lanes. -/
def wiring (lanes : Option Lanes) : Option ((ℕ → List ℕ) × (ℕ → ℕ)) :=
  lanes.map fun l => (l.virtualNodes, l.actualNode)

theorem wiring_getVirtualNode : wiring (w.getVirtualNode undefined source).2 = wiring w.lanes := by
  unfold getVirtualNode
  cases w.lanes with
  | none => rfl
  | some lanes =>
    dsimp only
    unfold NVIDIADGX1.getVirtualNode
    cases lanes.lastVnode source with
    | none => rfl
    | some vnode => rfl

theorem Reached.wiring (h : Reached cfg topology sizes w) :
    wiring w.lanes = wiring topology.lanes := by
  induction h with
  | new bufs gEndVCs => rfl
  | generate _ _ _ _ hgen ih =>
    rw [(generatePacket_eq_ok.mp hgen).2, wiring_getVirtualNode, ih]
  | retire _ ih | step _ _ ih => exact ih

theorem Reached.actualNode_eq (h : Reached cfg topology sizes w) :
    w.actualNode = topology.actualNode := by
  have hwiring := h.wiring
  unfold Wrapper.actualNode Topology.actualNode
  cases hlanes : w.lanes with
  | none =>
    rw [Option.map_eq_none_iff.mp (hwiring.symm.trans (by rw [hlanes]; rfl))]
  | some lanes =>
    obtain ⟨built, hbuilt, hsame⟩ := Option.map_eq_some_iff.mp
      (hwiring.symm.trans (by rw [hlanes]; rfl))
    rw [hbuilt]
    exact (Prod.mk.inj hsame).2.symm

theorem Reached.tm (h : Reached cfg topology sizes w) :
    TrafficManager.Reached cfg topology.actualNode w.tm := by
  induction h with
  | new bufs gEndVCs => exact .new bufs gEndVCs
  | generate _ _ _ _ hgen ih => exact .generate ih (generatePacket_eq_ok.mp hgen).1
  | retire hw ih =>
    rw [hw.actualNode_eq]
    exact .retire ih
  | step hw hstep ih =>
    rw [hw.actualNode_eq] at hstep
    exact .step ih hstep

end Call

/-! ## Refused packets -/

section Refusal

variable {cfg : TrafficConfig} {sizes : Set ℕ} {w w' : Wrapper} {undefined : ℕ × Option ℕ}
  {num_dgx1 source : ℕ}

theorem Reached.lanes_plain (h : Reached cfg .plain sizes w) : w.lanes = none :=
  Option.map_eq_none_iff.mp h.wiring

theorem Reached.lanes_dgx1 (h : Reached cfg (.dgx1 num_dgx1) sizes w) :
    ∃ lanes, w.lanes = some lanes ∧
      ∀ node < 14 * num_dgx1, lanes.virtualNodes node = NVIDIADGX1.laneList node := by
  obtain ⟨lanes, hlanes, hwiring⟩ := Option.map_eq_some_iff.mp h.wiring
  refine ⟨lanes, hlanes, fun node hnode => ?_⟩
  rw [(Prod.mk.inj hwiring).1]
  exact NVIDIADGX1.virtualNodes_foldl_addNode _ node hnode

theorem getVirtualNode_of_iterator {lanes : Lanes} {v : ℕ} (hlanes : w.lanes = some lanes)
    (hv : lanes.lastVnode source = some v) : (w.getVirtualNode undefined source).1 = v := by
  rw [getVirtualNode, hlanes]
  dsimp only
  rw [NVIDIADGX1.getVirtualNode, hv]

theorem Reached.iterator_moves (h : Reached cfg (.dgx1 num_dgx1) sizes w)
    (hsource : source < 14 * num_dgx1) {lanes : Lanes} {v : ℕ} (hlanes : w.lanes = some lanes)
    (hv : lanes.lastVnode source = some v)
    (undefined : ℕ × Option ℕ) : ∃ lanes', (w.getVirtualNode undefined source).2 = some lanes' ∧
      lanes'.lastVnode source = ((NVIDIADGX1.laneList source).drop
        ((NVIDIADGX1.laneList source).idxOf v + 1)).head?.or
          (NVIDIADGX1.laneList source).head? := by
  obtain ⟨lanes', hlanes', hnodes⟩ := h.lanes_dgx1
  obtain rfl : lanes = lanes' := Option.some.inj (hlanes.symm.trans hlanes')
  refine ⟨(NVIDIADGX1.getVirtualNode undefined lanes source).2, by rw [getVirtualNode, hlanes], ?_⟩
  rw [NVIDIADGX1.getVirtualNode, hv]
  dsimp only
  rw [Function.update_self, hnodes source hsource]

theorem first_call (num_dgx1 : ℕ) (bufs : ℕ → ℕ → BufferState) (gEndVCs : ℕ → ℤ)
    (undefined : ℕ × Option ℕ) (node : ℕ) :
    ∃ lanes, (new (.dgx1 num_dgx1) bufs gEndVCs).getVirtualNode undefined node =
      (undefined.1, some lanes) ∧ lanes.lastVnode node = undefined.2 := by
  have hend := (NVIDIADGX1.buildNet_spec (14 * num_dgx1)).2.1 node
  refine ⟨_, Prod.ext ?_ rfl, ?_⟩
  · simp only [getVirtualNode, new, Topology.lanes, NVIDIADGX1.getVirtualNode,
      NVIDIADGX1.buildNet, hend]
  · simp only [NVIDIADGX1.getVirtualNode, NVIDIADGX1.buildNet, hend, Function.update_self]

theorem generatePacket_refused {dest : ℤ} {cl : ℕ} (size : ℕ) (time : ℤ)
    (h : cfg.injSize ≤ (w.tm.partialPackets (w.getVirtualNode undefined source).1 cl).length ∨
      dest = -1) :
    w.generatePacket cfg undefined source dest size cl time =
      .ok (⟨w.tm, (w.getVirtualNode undefined source).2⟩, none) := by
  refine generatePacket_eq_ok.mpr ⟨?_, rfl⟩
  rw [TrafficManager.generatePacket]
  rcases h with hfull | hdest
  · exact if_pos hfull
  · rw [if_pos hdest]
    exact ite_self _

/-- **A refused packet leaves no trace** if and only if the network is not a DGX-1. -/
theorem leaves_no_trace_iff (cfg : TrafficConfig) (topology : Topology) :
    LeavesNoTrace cfg topology ↔
      (0 < cfg.classes → ∀ num_dgx1, topology = .dgx1 num_dgx1 → num_dgx1 = 0) := by
  constructor
  · rintro h hclasses num_dgx1 rfl
    by_contra hnum
    have hsource : 0 < Topology.nodes cfg (.dgx1 num_dgx1) := Nat.mul_pos (by decide) (by omega)
    -- after a first packet, whose lane is undefined, the iterator stands at lane 0
    let w : Wrapper := new (.dgx1 num_dgx1) (fun _ _ => TrafficManager.fourSlots) fun _ => 0
    obtain ⟨lanes, hcall, hlast⟩ := first_call num_dgx1 (fun _ _ => TrafficManager.fourSlots)
      (fun _ => 0) (0, some 0) 0
    let w' : Wrapper := ⟨w.tm, (w.getVirtualNode (0, some 0) 0).2⟩
    have hw' : Reached cfg (.dgx1 num_dgx1) Set.univ w' :=
      .generate (.new _ _) hsource hclasses trivial (generatePacket_refused 1 0 (.inr rfl))
    have hlanes : w'.lanes = some lanes := congrArg Prod.snd hcall
    -- the second one is refused, and the iterator has moved on
    have hsame := h w' hw' (0, none) 0 (-1) 1 0 0 _ hsource hclasses
        (generatePacket_refused 1 0 (.inr rfl))
    obtain ⟨lanes', hlanes', hlast'⟩ := hw'.iterator_moves hsource hlanes hlast (0, none)
    obtain rfl : lanes' = lanes :=
      Option.some.inj (hlanes'.symm.trans ((congrArg Wrapper.lanes hsame).trans hlanes))
    exact NVIDIADGX1.next_laneList_ne 0 0 (hlast'.symm.trans hlast)
  · intro h w hw undefined source dest size cl time w' hsource hcl hgen
    cases topology with
    | dgx1 num_dgx1 =>
      obtain rfl := h (by omega) num_dgx1 rfl
      exact absurd hsource (Nat.not_lt_zero source)
    | plain =>
      obtain ⟨htm, hlanes⟩ := generatePacket_eq_ok.mp hgen
      rcases TrafficManager.generatePacket_eq_ok htm with ⟨-, hsame⟩ | ⟨hsome, -⟩
      · have hnone := hw.lanes_plain
        rw [getVirtualNode, hnone] at hlanes
        obtain ⟨tm, lanes⟩ := w
        obtain ⟨tm', lanes'⟩ := w'
        cases hsame
        cases hlanes
        cases hnone
        rfl
      · cases hsome

end Refusal

/-! ## The room in the queues -/

section Prediction

variable {cfg : TrafficConfig} {topology : Topology} {w : Wrapper} {tm : TrafficManager}
  {undefined : ℕ × Option ℕ} {n cl : ℕ}

/-- The priority of a packet passes its assertion, whenever the packet was created. -/
def PriorityFits (cfg : TrafficConfig) (cl : ℕ) : Prop :=
  match cfg.priType with
  | .class_based => 0 ≤ cfg.classPriority cl
  | .age_based => False
  | _ => True

theorem priorityFits_iff (hseq : tm.packetSeqNo n = 0) :
    PriorityFits cfg cl ↔ ∀ time, ∃ pri, TrafficManager.packetPri cfg tm n cl time = .ok pri := by
  unfold PriorityFits TrafficManager.packetPri
  cases cfg.priType with
  | class_based =>
    exact ⟨fun h _ => ⟨_, checked_eq_ok.mpr ⟨h, rfl⟩⟩,
      fun h => (checked_eq_ok.mp (h 0).choose_spec).1⟩
  | age_based =>
    refine ⟨False.elim, fun h => ?_⟩
    obtain ⟨pri, hpri⟩ := h (-1)
    exact absurd (checked_eq_ok.mp hpri).1 (by decide)
  | sequence_based =>
    refine ⟨fun _ _ => ⟨2 ^ 31 - 1, checked_eq_ok.mpr ?_⟩, fun _ => trivial⟩
    rw [hseq]
    decide
  | network_age_based | local_age_based => exact ⟨fun _ _ => ⟨0, rfl⟩, fun _ => trivial⟩
  | queue_length_based | hop_count_based | none => exact ⟨fun _ _ => ⟨0, rfl⟩, fun _ => trivial⟩

/-- A packet is taken only where there is room, so that a queue exceeds its size by less than
one packet. -/
theorem Reached.length_lt (h : Reached cfg topology intSizes w) (hsize : 0 < cfg.injSize)
    (m c : ℕ) : (w.tm.partialPackets m c).length < cfg.injSize + 2 ^ 31 := by
  induction h with
  | new bufs gEndVCs => exact Nat.add_pos_left hsize _
  | @generate w w' undefined source size cl dest time pid _ _ _ hfits hgen ih =>
    obtain ⟨htm, -⟩ := generatePacket_eq_ok.mp hgen
    rw [TrafficManager.generatePacket] at htm
    split_ifs at htm with hfull hdest hempty
    · rwa [← (Prod.mk.inj (Except.ok.inj htm)).1]
    · rwa [← (Prod.mk.inj (Except.ok.inj htm)).1]
    · rwa [← (Prod.mk.inj (Except.ok.inj htm)).1]
    · obtain ⟨pri, -, htm⟩ := bind_ok.mp htm
      rw [← (Prod.mk.inj (return_ok.mp htm)).1]
      simp only [update₂_apply]
      split_ifs with hplace
      · have hsize : size < 2 ^ 31 := hfits
        rw [List.length_append, TrafficManager.packetFlits, List.length_map, List.length_range]
        omega
      · exact ih
  | retire _ ih =>
    rwa [TrafficManager.retirePacket_frame]
  | step _ hstep ih =>
    have hle := (TrafficManager.step_suffix hstep m c).length_le
    rw [List.length_map, List.length_map] at hle
    exact hle.trans_lt ih

theorem checkInjectionQueue_pos {source : ℕ} (hsize : cfg.injSize < 2 ^ 31)
    (hlength : (w.tm.partialPackets source cl).length < cfg.injSize + 2 ^ 31) :
    0 < w.checkInjectionQueue cfg source cl ↔
      (w.tm.partialPackets source cl).length < cfg.injSize := by
  rw [checkInjectionQueue, toInt_eq_self_iff.mpr (by omega)]
  omega

theorem predicts_plain (hpos : 0 < cfg.injSize) (hsize : cfg.injSize < 2 ^ 31)
    (hfits : ∀ cl < cfg.classes, PriorityFits cfg cl) : Predicts cfg .plain := by
  intro w hw undefined source dest cl time size _ hsource hcl hdest
  have hnode : (w.getVirtualNode undefined source).1 = source := by
    rw [getVirtualNode, hw.lanes_plain]
  have hpri := (priorityFits_iff (hw.tm.packetSeqNo source)).mp (hfits cl hcl) (w.tm.time - time)
  rw [checkInjectionQueue_pos hsize (hw.length_lt hpos source cl), taken_iff hdest, hnode]
  exact ⟨fun hroom => ⟨hroom, .inr hpri⟩, And.left⟩

/-- Of a size that is no `int` the empty queue has a negative number of slots left. -/
theorem Predicts.injSize_lt (h : Predicts cfg topology) (hnodes : 0 < topology.nodes cfg)
    (hclasses : 0 < cfg.classes) (hpos : 0 < cfg.injSize) (hsize : cfg.injSize < 2 ^ 32) :
    cfg.injSize < 2 ^ 31 := by
  let w : Wrapper := new topology (fun _ _ => TrafficManager.fourSlots) fun _ => 0
  have htaken : ∃ w' pid, w.generatePacket cfg (0, none) 0 0 0 0 0 = .ok (w', some pid) :=
    (taken_iff (le_refl 0)).mpr ⟨hpos, .inl rfl⟩
  have hroom := (h w (.new _ _) (0, none) 0 0 0 0 0 (by decide : 0 < 2 ^ 31) hnodes hclasses
    (le_refl 0)).mpr htaken
  change 0 < toInt (cfg.injSize - 0) at hroom
  by_contra hlarge
  rw [toInt, Int.sub_zero, ← Int.sub_add_cancel (cfg.injSize : ℤ) (2 ^ 32 : ℕ),
    Int.add_bmod_right, Int.bmod_eq_of_le (by omega) (by omega)] at hroom
  omega

theorem Predicts.priorityFits (h : Predicts cfg topology) (hnodes : 0 < topology.nodes cfg)
    (hcl : cl < cfg.classes) (hpos : 0 < cfg.injSize) (hsize : cfg.injSize < 2 ^ 31) :
    PriorityFits cfg cl := by
  let w : Wrapper := new topology (fun _ _ => TrafficManager.fourSlots) fun _ => 0
  have hseq : w.tm.packetSeqNo (w.getVirtualNode (0, none) 0).1 = 0 := rfl
  refine (priorityFits_iff hseq).mpr fun time => ?_
  have hroom : 0 < w.checkInjectionQueue cfg 0 cl :=
    (checkInjectionQueue_pos hsize (Nat.add_pos_left hpos _)).mpr hpos
  have htaken := (h w (.new _ _) (0, none) 0 0 cl (-time) 1 (by decide : 1 < 2 ^ 31) hnodes hcl
    (le_refl 0)).mp hroom
  obtain ⟨pri, hpri⟩ := ((taken_iff (le_refl 0)).mp htaken).2.resolve_left Nat.one_ne_zero
  refine ⟨pri, ?_⟩
  rwa [show w.tm.time - -time = time from by change (0 : ℤ) - -time = time; omega] at hpri

/-- The first packet fills the lane `v` that it is put on, and the next one would be put there
too. -/
theorem first_packet {num_dgx1 v pid : ℕ} {bufs : ℕ → ℕ → BufferState} {gEndVCs : ℕ → ℤ}
    {w' : Wrapper}
    (h : (new (.dgx1 num_dgx1) bufs gEndVCs).generatePacket cfg (v, some v) n 0 cfg.injSize 0 0 =
      .ok (w', some pid)) :
    (∃ lanes, w'.lanes = some lanes ∧ lanes.lastVnode n = some v) ∧
      (w'.tm.partialPackets v 0).length = cfg.injSize ∧ ∀ m ≠ v, w'.tm.partialPackets m 0 = [] := by
  obtain ⟨lanes, hcall, hlast⟩ := first_call num_dgx1 bufs gEndVCs (v, some v) n
  obtain ⟨htm, hlanes⟩ := generatePacket_eq_ok.mp h
  rw [hcall] at htm hlanes
  rcases TrafficManager.generatePacket_eq_ok htm with ⟨hnone, -⟩ | ⟨-, pri, htm'⟩
  · cases hnone
  · have hqueues : w'.tm.partialPackets = update₂ (fun _ _ => []) v 0
        (TrafficManager.packetFlits 0 0 v 0 cfg.injSize 0 (0 - 0) pri) :=
      congrArg TrafficManager.partialPackets htm'
    rw [hqueues]
    refine ⟨⟨lanes, hlanes, hlast⟩, ?_, fun m hm => ?_⟩
    · rw [update₂_apply, if_pos ⟨rfl, rfl⟩, TrafficManager.packetFlits, List.length_map,
        List.length_range]
    · rw [update₂_row_ne hm]

/-- A packet of node 1 fills lane 64, and the queue that is asked is that of lane 1. -/
theorem not_predicts_dgx1 {num_dgx1 : ℕ} (hnum : 0 < num_dgx1) (hclasses : 0 < cfg.classes)
    (hpos : 0 < cfg.injSize) (hsize : cfg.injSize < 2 ^ 31) : ¬ Predicts cfg (.dgx1 num_dgx1) := by
  intro h
  have hnode : 1 < Topology.nodes cfg (.dgx1 num_dgx1) := by
    change 1 < 14 * num_dgx1
    omega
  let w : Wrapper := new (.dgx1 num_dgx1) (fun _ _ => TrafficManager.fourSlots) fun _ => 0
  have hempty₀ : ∀ w : Wrapper, w.tm.partialPackets 1 0 = [] →
      0 < w.checkInjectionQueue cfg 1 0 := by
    intro w hempty
    rwa [checkInjectionQueue_pos hsize (by rw [hempty]; exact Nat.add_pos_left hpos _), hempty]
  obtain ⟨w', pid, hgen⟩ := (h w (.new _ _) (64, some 64) 1 0 0 0 cfg.injSize hsize hnode hclasses
    (le_refl 0)).mp (hempty₀ w rfl)
  obtain ⟨⟨lanes, hlanes, hlast⟩, hfull, hempty⟩ := first_packet hgen
  have htaken := (h w' (.generate (.new _ _) hnode hclasses hsize hgen) (0, none) 1 0 0 0 1
    (by decide : 1 < 2 ^ 31) hnode hclasses (le_refl 0)).mp (hempty₀ w' (hempty 1 (by decide)))
  have hlt := ((taken_iff (le_refl 0)).mp htaken).1
  rw [getVirtualNode_of_iterator hlanes hlast, hfull] at hlt
  exact lt_irrefl _ hlt

/-- **`CheckInjectionQueue` predicts acceptance** if and only if the network is not a DGX-1, the
size of the queues is an `int` and no priority can fail its assertion, or nothing can ever be
asked.  The hypotheses are what the constructor asserts and that `_inj_size` is an unsigned. -/
theorem predicts_iff (cfg : TrafficConfig) (topology : Topology) (hpos : 0 < cfg.injSize)
    (hsize : cfg.injSize < 2 ^ 32) :
    Predicts cfg topology ↔ (0 < topology.nodes cfg → 0 < cfg.classes →
      topology = .plain ∧ cfg.injSize < 2 ^ 31 ∧ ∀ cl < cfg.classes, PriorityFits cfg cl) := by
  constructor
  · intro h hnodes hclasses
    have hint := h.injSize_lt hnodes hclasses hpos hsize
    refine ⟨?_, hint, fun cl hcl => h.priorityFits hnodes hcl hpos hint⟩
    cases topology with
    | plain => rfl
    | dgx1 num_dgx1 =>
      exact absurd h (not_predicts_dgx1 (Nat.pos_of_mul_pos_left hnodes) hclasses hpos hint)
  · intro h w hw undefined source dest cl time size hfits hsource hcl hdest
    obtain ⟨rfl, hint, hpri⟩ := h (Nat.zero_lt_of_lt hsource) (Nat.zero_lt_of_lt hcl)
    exact predicts_plain hpos hint hpri w hw undefined source dest cl time size hfits hsource
      hcl hdest

end Prediction

/-! ## A machine whose queues hold one packet -/

def oneSlot : TrafficConfig where
  nodes := 896
  classes := 1
  subnets := 1
  subnet := fun _ => 0
  injSize := 1
  holdSwitchForPacket := false
  noq := false
  priType := .none
  classPriority := fun _ => 0

/-- With one slot for each of 896 nodes, on any network but a DGX-1. -/
theorem predicts_oneSlot : Predicts oneSlot .plain :=
  (predicts_iff oneSlot .plain (by decide) (by decide)).mpr fun _ _ =>
    ⟨rfl, by decide, fun _ _ => trivial⟩

/-- A packet of node `n` has been put on lane `v`, where the iterator stands still. -/
theorem reached_first_packet {n : ℕ} (hn : n < 14) (v : ℕ) {sizes : Set ℕ} (hone : 1 ∈ sizes) :
    ∃ w lanes, Reached oneSlot (.dgx1 1) sizes w ∧ w.lanes = some lanes ∧ lanes.lastVnode n =
      some v ∧ (w.tm.partialPackets v 0).length = 1 ∧ ∀ m ≠ v, w.tm.partialPackets m 0 = [] := by
  let w : Wrapper := new (.dgx1 1) (fun _ _ => TrafficManager.fourSlots) fun _ => 0
  obtain ⟨w', pid, hgen⟩ : ∃ w' pid, w.generatePacket oneSlot (v, some v) n 0 1 0 0 =
      .ok (w', some pid) := (taken_iff (le_refl 0)).mpr ⟨Nat.one_pos, .inr ⟨0, rfl⟩⟩
  obtain ⟨⟨lanes, hlanes, hlast⟩, hfull, hempty⟩ := first_packet hgen
  exact ⟨w', lanes, .generate (.new _ _) hn Nat.one_pos hone hgen, hlanes, hlast, hfull, hempty⟩

/-- A packet of node 0 is refused because lane 0 is full; the next one goes to lane 1, where it is
taken. -/
theorem refused_packet_moves_lane : ∃ w w', Reached oneSlot (.dgx1 1) Set.univ w ∧
    w.generatePacket oneSlot (0, none) 0 2 1 0 0 = .ok (w', none) ∧
    (w.getVirtualNode (0, none) 0).1 = 0 ∧ (w'.getVirtualNode (0, none) 0).1 = 1 ∧
    ∃ w'' pid, w'.generatePacket oneSlot (0, none) 0 2 1 0 0 = .ok (w'', some pid) := by
  obtain ⟨w, lanes, hw, hlanes, hlast, hfull, hempty⟩ := reached_first_packet (n := 0) (by decide) 0
    (Set.mem_univ 1)
  have hlane : (w.getVirtualNode (0, none) 0).1 = 0 := getVirtualNode_of_iterator hlanes hlast
  have hgen := @generatePacket_refused oneSlot w (0, none) 0 2 0 1 0
    (.inl (by rw [hlane, hfull]; exact le_refl 1))
  obtain ⟨lanes', hlanes', hlast'⟩ := hw.iterator_moves (by decide) hlanes hlast (0, none)
  let w' : Wrapper := ⟨w.tm, (w.getVirtualNode (0, none) 0).2⟩
  have hnext : (w'.getVirtualNode (0, none) 0).1 = 1 := getVirtualNode_of_iterator hlanes' hlast'
  refine ⟨w, w', hw, hgen, hlane, hnext, (taken_iff (by decide)).mpr ⟨?_, .inr ⟨0, rfl⟩⟩⟩
  rw [hnext]
  change (w.tm.partialPackets 1 0).length < 1
  rw [hempty 1 (by decide)]
  exact Nat.one_pos

/-- A packet of node 1 is refused because lane 64 is full, though there is room for node 1. -/
theorem refused_with_room : ∃ w w', Reached oneSlot (.dgx1 1) intSizes w ∧
    0 < w.checkInjectionQueue oneSlot 1 0 ∧
    w.generatePacket oneSlot (0, none) 1 2 1 0 0 = .ok (w', none) := by
  obtain ⟨w, lanes, hw, hlanes, hlast, hfull, hempty⟩ :=
    reached_first_packet (n := 1) (by decide) 64 (Set.mem_Iio.mpr (by decide : 1 < 2 ^ 31))
  refine ⟨w, _, hw, ?_, generatePacket_refused 1 0 (.inl ?_)⟩
  · rw [checkInjectionQueue, hempty 1 (by decide)]
    decide
  · rw [getVirtualNode_of_iterator hlanes hlast, hfull]
    exact le_refl 1

end Wrapper

end BookSim
