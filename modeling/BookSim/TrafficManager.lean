/-
# TrafficManager — packets in, packets out

`TrafficManager` and its wrapper stand between the callers and the networks.  A packet that
is generated is split into flits, which wait in the injection queue of their node and class;
`_Step` is one cycle:

    receive     the credits for injected flits, and the flits that arrive
    inject      for every subnet and node, the best flit that may go
    retire      the arrived flits; a tail completes its packet

and a completed packet waits in an ejection queue until it is asked for.  What a subnet shows
in one cycle is `NetworkSide`: the networks can be anything that fits there.  The routing
function is among it: at injection it may put any range of VCs in the route set.

Statistics, watches and the deadlock warning are left out, and so is the lookahead route of a
flit, which only the routers read.
-/
import BookSim.BufferState
import BookSim.Lib.Table
import BookSim.OutputSet
import Mathlib.Data.Finset.Basic

namespace BookSim

open Function (update)

/-! ## Data -/

inductive PriorityType where
  | class_based | age_based | network_age_based | local_age_based | queue_length_based
  | hop_count_based | sequence_based | none
  deriving DecidableEq, Repr

structure TrafficConfig where
  nodes : ℕ
  classes : ℕ
  subnets : ℕ
  /-- `_subnet`: which subnet carries a class. -/
  subnet : ℕ → ℕ
  injSize : ℕ
  holdSwitchForPacket : Bool
  noq : Bool
  priType : PriorityType
  classPriority : ℕ → ℤ

/-- The fields are indexed in the source's order: node, subnet, class. -/
structure TrafficManager where
  bufStates : ℕ → ℕ → BufferState
  lastVC : ℕ → ℕ → ℕ → ℤ
  lastClass : ℕ → ℕ → ℕ
  /-- The injection queues, by node and class. -/
  partialPackets : ℕ → ℕ → List Flit
  /-- The keys of `_total_in_flight_flits`, by class. -/
  totalInFlightFlits : ℕ → Finset ℕ
  /-- Heads that wait for their tail, by class and packet. -/
  retiredPackets : ℕ → ℕ → Option Flit
  /-- Completed packets, head and tail, by class and node. -/
  ejectionQueue : ℕ → ℕ → List (Flit × Flit)
  packetSeqNo : ℕ → ℤ
  curId : ℕ
  curPid : ℕ
  time : ℤ

/-- What the networks show the traffic manager in one cycle, by subnet and node. -/
structure NetworkSide where
  /-- `ReadFlit` and `ReadCredit`. -/
  ejected : ℕ → ℕ → Option Flit
  credits : ℕ → ℕ → Option Credit
  /-- The routing function at injection, and (for NOQ) at the first router. -/
  injectRoute : ℕ → ℕ → Flit → Option OutputSet
  firstRoute : ℕ → ℕ → Flit → Option OutputSet
  /-- `NumOutputs` of the first router. -/
  numOutputs : ℕ → ℕ → ℕ

namespace TrafficManager

/-! ## Generating packets -/

/-- The priority the flits of a new packet start with. -/
def packetPri (cfg : TrafficConfig) (tm : TrafficManager) (source cl : ℕ) (time : ℤ) :
    Except Fault ℤ :=
  let checked (pri : ℤ) : Except Fault ℤ := do
    require (.assertion "f->pri >= 0") (0 ≤ pri)
    return pri
  match cfg.priType with
  | .class_based => checked (cfg.classPriority cl)
  | .age_based => checked (toInt (2 ^ 31 - 1 - time))
  | .sequence_based => checked (toInt (2 ^ 31 - 1 - tm.packetSeqNo source))
  | _ => return 0

/-- The `size` flits of a packet, the first with number `id`. -/
def packetFlits (id pid source dest size cl : ℕ) (time pri : ℤ) : List Flit :=
  (List.range size).map fun i =>
    { id := id + i, pid := pid, cl := cl, src := source, dest := dest, vc := -1,
      head := i = 0, tail := i + 1 = size, ctime := time, pri := pri, packetSize := size }

/-- `_GeneratePacket`, with `source` the node that `GetVirtualNode` has chosen; `none` stands
for the result `-1`. -/
def generatePacket (cfg : TrafficConfig) (tm : TrafficManager) (source : ℕ) (dest : ℤ)
    (size cl : ℕ) (time : ℤ) : Except Fault (TrafficManager × Option ℕ) :=
  if (tm.partialPackets source cl).length ≥ cfg.injSize then .ok (tm, none)
  else if dest = -1 then .ok (tm, none)
  else if size = 0 then .ok ({ tm with curPid := tm.curPid + 1 }, some tm.curPid)
  else do
    let pri ← packetPri cfg tm source cl time
    let flits := packetFlits tm.curId tm.curPid source dest.toNat size cl time pri
    return ({ tm with
      curPid := tm.curPid + 1
      curId := tm.curId + size
      totalInFlightFlits := update tm.totalInFlightFlits cl
        (tm.totalInFlightFlits cl ∪ (flits.map Flit.id).toFinset)
      partialPackets := update₂ tm.partialPackets source cl
        (tm.partialPackets source cl ++ flits) },
      some tm.curPid)

/-! ## Injection -/

/-- The part of a VC range that NOQ leaves to the output port of the next hop. -/
def noqRange (numOutputs : ℕ) (port vcStart vcEnd : ℤ) : Except Fault (ℤ × ℤ) := do
  let count := (vcEnd - vcStart + 1).tdiv numOutputs
  let first := vcStart + port * count
  let last := first + count - 1
  require (.assertion "vc_start >= se.vc_start && vc_start <= se.vc_end")
    (vcStart ≤ first ∧ first ≤ vcEnd)
  require (.assertion "vc_end >= se.vc_start && vc_end <= se.vc_end")
    (vcStart ≤ last ∧ last ≤ vcEnd)
  require (.assertion "vc_start <= vc_end") (first ≤ last)
  return (first, last)

/-- The VCs a head flit may be injected on. -/
def offeredRange (cfg : TrafficConfig) (net : NetworkSide) (subnet n : ℕ) (cf : Flit) :
    Except Fault (ℤ × ℤ) :=
  match (net.injectRoute subnet n cf).map OutputSet.getSet with
  | some [se] => do
    require (.assertion "se.output_port == -1") (se.outputPort = -1)
    if cfg.noq then
      match (net.firstRoute subnet n { cf with vc := se.vcStart }).map OutputSet.getSet with
      | some [sl] => noqRange (net.numOutputs subnet n) sl.outputPort se.vcStart se.vcEnd
      | _ => .error (.assertion "sl.size() == 1")
    else return (se.vcStart, se.vcEnd)
  | _ => .error (.assertion "os.size() == 1")

/-- The `i`-th VC tried, when `lvc` was used last. -/
def candidateVC (lvc vcStart vcEnd : ℤ) (i : ℕ) : ℤ :=
  if lvc < vcStart ∨ lvc > vcEnd then vcStart
  else vcStart + (lvc - vcStart + i) % (vcEnd - vcStart + 1)

/-- The first VC of the range that is free and has room, or `-1`. -/
def findVC (buf : BufferState) (now lvc vcStart vcEnd : ℤ) : ℤ :=
  (((List.range' 1 (vcEnd - vcStart + 1).toNat).map (candidateVC lvc vcStart vcEnd)).find?
    fun vc => buf.isAvailableFor vc && !buf.isFullFor now vc).getD (-1)

/-- The front flit of class `c` with the VC it may go on: a head that has none yet looks for
one. -/
def pickVC (cfg : TrafficConfig) (net : NetworkSide) (tm : TrafficManager) (subnet n c : ℕ)
    (cf : Flit) : Except Fault Flit :=
  if cf.head ∧ cf.vc = -1 then do
    let range ← offeredRange cfg net subnet n cf
    return { cf with
      vc := findVC (tm.bufStates n subnet) tm.time (tm.lastVC n subnet c) range.1 range.2 }
  else return cf

/-- One round of the loop over the classes.  The state is the queues of the node, in whose
front flits the VC is noted, and the best flit so far. -/
def considerClass (cfg : TrafficConfig) (net : NetworkSide) (tm : TrafficManager)
    (subnet n : ℕ) (s : (ℕ → List Flit) × Option Flit) (c : ℕ) :
    Except Fault ((ℕ → List Flit) × Option Flit) :=
  if cfg.subnet c ≠ subnet then .ok s
  else match s.1 c with
    | [] => .ok s
    | cf :: rest =>
      if cf.cl ≠ c then .error (.assertion "cf->cl == c")
      else if s.2.any fun f => f.pri ≥ cf.pri then .ok s
      else do
        let cf ← pickVC cfg net tm subnet n c cf
        let queues := update s.1 c (cf :: rest)
        if cf.vc = -1 ∨ (tm.bufStates n subnet).isFullFor tm.time cf.vc then
          return (queues, s.2)
        else return (queues, some cf)

/-- The flit of a packet that keeps the switch, if there is one that may go. -/
def heldFlit (cfg : TrafficConfig) (tm : TrafficManager) (subnet n : ℕ) :
    Except Fault (Option Flit) :=
  match tm.partialPackets n (tm.lastClass n subnet) with
  | [] => return none
  | f :: _ =>
    if cfg.holdSwitchForPacket ∧ f.head = false ∧
        (tm.bufStates n subnet).isFullFor tm.time f.vc = false then do
      require (.assertion "f->vc == _last_vc[n][subnet][last_class]")
        (f.vc = tm.lastVC n subnet (tm.lastClass n subnet))
      return some f
    else return none

/-- The queues and the flit to send, after the loop over the classes.  The class of a held
flit is not looked at again. -/
def selectFlit (cfg : TrafficConfig) (net : NetworkSide) (tm : TrafficManager)
    (subnet n : ℕ) : Except Fault ((ℕ → List Flit) × Option Flit) := do
  let held ← heldFlit cfg tm subnet n
  let limit := if held.isSome then cfg.classes - 1 else cfg.classes
  ((List.range' 1 limit).map fun i => (tm.lastClass n subnet + i) % cfg.classes).foldlM
    (considerClass cfg net tm subnet n) (tm.partialPackets n, held)

/-- The priority of a flit that enters the network. -/
def injectedPri (cfg : TrafficConfig) (time : ℤ) (f : Flit) : Except Fault ℤ := do
  let pri := if cfg.priType = .network_age_based then toInt (2 ^ 63 - 1 - time) else f.pri
  require (.assertion "f->pri >= 0") (cfg.priType = .network_age_based → 0 ≤ pri)
  return pri

/-- The queue after its front flit `f` has gone: the next flit of the packet gets its VC. -/
def passBack (f : Flit) : List Flit → List Flit
  | [] => []
  | nf :: rest => if f.tail then nf :: rest else { nf with vc := f.vc } :: rest

/-- Sending `f` at node `n`, and what is written to the subnet. -/
def sendFlit (cfg : TrafficConfig) (tm : TrafficManager) (subnet n : ℕ) (f : Flit) :
    Except Fault (TrafficManager × Flit) := do
  let buf := tm.bufStates n subnet
  let taken ← (if f.head then buf.takeBuffer f.vc f.pid else .ok buf)
  let sent ← taken.sendingFlit tm.time f
  let pri ← injectedPri cfg tm.time f
  return ({ tm with
    bufStates := update₂ tm.bufStates n subnet sent
    lastVC := if f.head then update₂ tm.lastVC n subnet (update (tm.lastVC n subnet) f.cl f.vc)
      else tm.lastVC
    lastClass := update₂ tm.lastClass n subnet f.cl
    partialPackets := update₂ tm.partialPackets n f.cl
      (passBack f (tm.partialPackets n f.cl).tail) },
    { f with pri := pri, itime := tm.time })

/-- The injection at one node into one subnet.  The flits written so far are collected, with
the subnet and node they are written at. -/
def injectAt (cfg : TrafficConfig) (net : NetworkSide)
    (s : TrafficManager × List (ℕ × ℕ × Flit)) (place : ℕ × ℕ) :
    Except Fault (TrafficManager × List (ℕ × ℕ × Flit)) := do
  let selected ← selectFlit cfg net s.1 place.1 place.2
  let tm := { s.1 with partialPackets := update s.1.partialPackets place.2 selected.1 }
  match selected.2 with
  | none => return (tm, s.2)
  | some f => do
    let sent ← sendFlit cfg tm place.1 place.2 f
    return (sent.1, s.2 ++ [(place.1, place.2, sent.2)])

/-- The order of the loops over the subnets and their nodes. -/
def places (cfg : TrafficConfig) : List (ℕ × ℕ) :=
  (List.range cfg.subnets).flatMap fun subnet => (List.range cfg.nodes).map fun n => (subnet, n)

def inject (cfg : TrafficConfig) (net : NetworkSide) (tm : TrafficManager) :
    Except Fault (TrafficManager × List (ℕ × ℕ × Flit)) :=
  (places cfg).foldlM (injectAt cfg net) (tm, [])

/-! ## Receiving and retiring -/

def receiveCredit (net : NetworkSide) (tm : TrafficManager) (place : ℕ × ℕ) :
    Except Fault TrafficManager :=
  match net.credits place.1 place.2 with
  | none => return tm
  | some c => do
    let buf ← (tm.bufStates place.2 place.1).processCredit tm.time c
    return { tm with bufStates := update₂ tm.bufStates place.2 place.1 buf }

def receiveCredits (cfg : TrafficConfig) (net : NetworkSide) (tm : TrafficManager) :
    Except Fault TrafficManager :=
  (places cfg).foldlM (receiveCredit net) tm

/-- `_RetirePacket` of the wrapper. -/
def retirePacketFlits (tm : TrafficManager) (head tail : Flit) : Except Fault TrafficManager := do
  require (.assertion "head->pid == tail->pid") (head.pid = tail.pid)
  require (.assertion "head->cl == tail->cl") (head.cl = tail.cl)
  return { tm with
    ejectionQueue := update₂ tm.ejectionQueue head.cl head.dest
      (tm.ejectionQueue head.cl head.dest ++ [(head, tail)]) }

/-- `_RetireFlit`: flit `f` has arrived at node `lane`.  `actualNode` is `GetActualNode`. -/
def retireFlit (actualNode : ℕ → ℕ) (tm : TrafficManager) (f : Flit) (lane : ℕ) :
    Except Fault TrafficManager := do
  require (.assertion "_total_in_flight_flits[f->cl].count(f->id) > 0")
    (f.id ∈ tm.totalInFlightFlits f.cl)
  require (.incorrectOutput f.id lane) (¬ (f.head ∧ f.dest ≠ actualNode lane))
  let tm := { tm with
    totalInFlightFlits := update tm.totalInFlightFlits f.cl
      ((tm.totalInFlightFlits f.cl).erase f.id) }
  let f := { f with dest := lane }
  if f.tail then
    if f.head then tm.retirePacketFlits f f
    else match tm.retiredPackets f.cl f.pid with
      | none => .error (.assertion "iter != _retired_packets[f->cl].end()")
      | some head => do
        require (.assertion "head->head") head.head
        let found := { tm with retiredPackets := update₂ tm.retiredPackets f.cl f.pid none }
        found.retirePacketFlits head f
  else if f.head then
    -- `insert` keeps an entry that is already there
    return { tm with
      retiredPackets := update₂ tm.retiredPackets f.cl f.pid
        ((tm.retiredPackets f.cl f.pid).or (some f)) }
  else return tm

/-- The flits that have arrived, in the order in which they are retired. -/
def arrivals (cfg : TrafficConfig) (net : NetworkSide) : List (ℕ × Flit) :=
  (places cfg).filterMap fun place => (net.ejected place.1 place.2).map fun f => (place.2, f)

def retire (cfg : TrafficConfig) (actualNode : ℕ → ℕ) (net : NetworkSide)
    (tm : TrafficManager) : Except Fault TrafficManager :=
  (arrivals cfg net).foldlM
    (fun tm arrival => tm.retireFlit actualNode { arrival.2 with atime := tm.time } arrival.1) tm

/-- `_Step`, and the flits it has written to the subnets. -/
def step (cfg : TrafficConfig) (actualNode : ℕ → ℕ) (net : NetworkSide) (tm : TrafficManager) :
    Except Fault (TrafficManager × List (ℕ × ℕ × Flit)) := do
  let received ← receiveCredits cfg net tm
  let injected ← inject cfg net received
  let retired ← retire cfg actualNode net injected.1
  return ({ retired with time := retired.time + 1 }, injected.2)

/-! ## The wrapper -/

/-- What `RetirePacket` of the wrapper reports. -/
structure RetiredPacket where
  pid : ℕ
  src : ℕ
  dest : ℕ
  cl : ℕ
  size : ℕ
  plat : ℤ
  nlat : ℤ
  hops : ℕ
  deriving DecidableEq, Repr

/-- The ejection queues in the order in which they are looked through: class, node. -/
def ejectionPlaces (cfg : TrafficConfig) : List (ℕ × ℕ) :=
  (List.range cfg.classes).flatMap fun cl => (List.range cfg.nodes).map fun n => (cl, n)

/-- The report of a completed packet, from its head and tail. -/
def report (actualNode : ℕ → ℕ) (head tail : Flit) : RetiredPacket where
  pid := head.pid
  src := actualNode head.src
  dest := actualNode head.dest
  cl := head.cl
  size := head.packetSize
  plat := toInt (tail.atime - head.ctime)
  nlat := toInt (tail.atime - head.itime)
  hops := head.hops

/-- `RetirePacket`: the first packet of the first ejection queue that has one; `none` stands
for the packet number `-1`. -/
def retirePacket (cfg : TrafficConfig) (actualNode : ℕ → ℕ) (tm : TrafficManager) :
    TrafficManager × Option RetiredPacket :=
  match (ejectionPlaces cfg).find? fun p => tm.ejectionQueue p.1 p.2 ≠ [] with
  | none => (tm, none)
  | some p =>
    match tm.ejectionQueue p.1 p.2 with
    | [] => (tm, none)
    | (head, tail) :: rest =>
      ({ tm with ejectionQueue := update₂ tm.ejectionQueue p.1 p.2 rest },
        some (report actualNode head tail))

/-- `RetirePackets`: `RetirePacket` again and again until it finds none.  The loop is cut off
after `fuel` rounds. -/
def retirePackets (cfg : TrafficConfig) (actualNode : ℕ → ℕ) :
    ℕ → TrafficManager → TrafficManager × List RetiredPacket
  | 0, tm => (tm, [])
  | fuel + 1, tm =>
    match retirePacket cfg actualNode tm with
    | (tm', none) => (tm', [])
    | (tm', some p) =>
      ((retirePackets cfg actualNode fuel tm').1,
        p :: (retirePackets cfg actualNode fuel tm').2)

def checkInFlightPackets (cfg : TrafficConfig) (tm : TrafficManager) : Bool :=
  (List.range cfg.classes).any fun cl => tm.totalInFlightFlits cl ≠ ∅ ||
    (List.range cfg.nodes).any fun n => tm.ejectionQueue cl n ≠ []

/-- The traffic manager as it is built: `bufs` are the new buffer states, and the last VC of
a class is the last of its range. -/
def new (bufs : ℕ → ℕ → BufferState) (gEndVCs : ℕ → ℤ) : TrafficManager where
  bufStates := bufs
  lastVC := fun _ _ c => gEndVCs c
  lastClass := fun _ _ => 0
  partialPackets := fun _ _ => []
  totalInFlightFlits := fun _ => ∅
  retiredPackets := fun _ _ => none
  ejectionQueue := fun _ _ => []
  packetSeqNo := fun _ => 0
  curId := 0
  curPid := 0
  time := 0

/-! ## What the operations do -/

section Effects

variable {cfg : TrafficConfig} {net : NetworkSide} {tm tm' : TrafficManager} {subnet n c : ℕ}

theorem mem_places {place : ℕ × ℕ} :
    place ∈ places cfg ↔ place.1 < cfg.subnets ∧ place.2 < cfg.nodes := by
  obtain ⟨subnet, n⟩ := place
  simp [places]

theorem generatePacket_eq_ok {source size cl : ℕ} {dest time : ℤ} {pid : Option ℕ}
    (h : generatePacket cfg tm source dest size cl time = .ok (tm', pid)) :
    pid = none ∧ tm' = tm ∨
    pid = some tm.curPid ∧ ∃ pri, tm' = { tm with
      curPid := tm.curPid + 1
      curId := tm.curId + size
      totalInFlightFlits := update tm.totalInFlightFlits cl (tm.totalInFlightFlits cl ∪
        ((packetFlits tm.curId tm.curPid source dest.toNat size cl time pri).map Flit.id).toFinset)
      partialPackets := update₂ tm.partialPackets source cl (tm.partialPackets source cl ++
        packetFlits tm.curId tm.curPid source dest.toNat size cl time pri) } := by
  unfold generatePacket at h
  split_ifs at h with hfull hdest hsize
  · cases h
    exact .inl ⟨rfl, rfl⟩
  · cases h
    exact .inl ⟨rfl, rfl⟩
  · cases h
    subst hsize
    refine .inr ⟨rfl, 0, ?_⟩
    simp [packetFlits, update₂]
  · obtain ⟨pri, -, h⟩ := bind_ok.mp h
    cases h
    exact .inr ⟨rfl, pri, rfl⟩

theorem candidateVC_mem {lvc vcStart vcEnd : ℤ} (h : vcStart ≤ vcEnd) (i : ℕ) :
    vcStart ≤ candidateVC lvc vcStart vcEnd i ∧ candidateVC lvc vcStart vcEnd i ≤ vcEnd := by
  unfold candidateVC
  split_ifs
  · exact ⟨le_refl _, h⟩
  · have hnonneg := Int.emod_nonneg (lvc - vcStart + i) (b := vcEnd - vcStart + 1) (by omega)
    have hlt := Int.emod_lt_of_pos (lvc - vcStart + i) (b := vcEnd - vcStart + 1) (by omega)
    omega

theorem findVC_spec (buf : BufferState) (now lvc vcStart vcEnd : ℤ) :
    findVC buf now lvc vcStart vcEnd = -1 ∨
      vcStart ≤ findVC buf now lvc vcStart vcEnd ∧ findVC buf now lvc vcStart vcEnd ≤ vcEnd ∧
        buf.inUseBy (findVC buf now lvc vcStart vcEnd) < 0 ∧
        buf.isFullFor now (findVC buf now lvc vcStart vcEnd) = false := by
  unfold findVC
  cases hfind : ((List.range' 1 (vcEnd - vcStart + 1).toNat).map
      (candidateVC lvc vcStart vcEnd)).find?
      fun vc => buf.isAvailableFor vc && !buf.isFullFor now vc with
  | none => exact .inl rfl
  | some vc =>
    obtain ⟨i, hi, rfl⟩ := List.mem_map.mp (List.mem_of_find?_eq_some hfind)
    have hle : vcStart ≤ vcEnd := by
      have := (List.mem_range'_1.mp hi)
      omega
    have hgood := List.find?_some hfind
    simp only [BufferState.isAvailableFor, Bool.and_eq_true, decide_eq_true_eq,
      Bool.not_eq_true'] at hgood
    exact .inr ⟨(candidateVC_mem hle i).1, (candidateVC_mem hle i).2, hgood.1, hgood.2⟩

/-- A head flit without a VC: the one that looks for a VC when it is its class's turn. -/
def Seeking (cf : Flit) : Prop := cf.head = true ∧ cf.vc = -1

instance (cf : Flit) : Decidable (Seeking cf) := inferInstanceAs (Decidable (_ ∧ _))

theorem pickVC_eq_ok {cf cf' : Flit} (h : pickVC cfg net tm subnet n c cf = .ok cf') :
    ¬ Seeking cf ∧ cf' = cf ∨
      Seeking cf ∧ ∃ range vc, offeredRange cfg net subnet n cf = .ok range ∧
        cf' = { cf with vc := vc } ∧
        (vc = -1 ∨ range.1 ≤ vc ∧ vc ≤ range.2 ∧ (tm.bufStates n subnet).inUseBy vc < 0 ∧
          (tm.bufStates n subnet).isFullFor tm.time vc = false) := by
  unfold pickVC at h
  split_ifs at h with hseek
  · obtain ⟨range, hrange, rfl⟩ := bind_return_ok.mp h
    exact .inr ⟨hseek, range, _, hrange, rfl, findVC_spec _ _ _ _ _⟩
  · exact .inl ⟨hseek, (return_ok.mp h).symm⟩

/-- One round of the loop over the classes: the class is passed over, or its front flit `cf`
gets the VC of `cf'` noted, and may become the best. -/
theorem considerClass_eq_ok {s s' : (ℕ → List Flit) × Option Flit}
    (h : considerClass cfg net tm subnet n s c = .ok s') :
    s' = s ∨ ∃ cf rest cf', cfg.subnet c = subnet ∧ s.1 c = cf :: rest ∧ cf.cl = c ∧
      (∀ f ∈ s.2, f.pri < cf.pri) ∧ pickVC cfg net tm subnet n c cf = .ok cf' ∧
      s'.1 = update s.1 c (cf' :: rest) ∧
      (s'.2 = s.2 ∧ (cf'.vc = -1 ∨ (tm.bufStates n subnet).isFullFor tm.time cf'.vc = true) ∨
        s'.2 = some cf' ∧ cf'.vc ≠ -1) := by
  unfold considerClass at h
  by_cases hsubnet : cfg.subnet c ≠ subnet
  · rw [if_pos hsubnet] at h
    cases h
    exact .inl rfl
  rw [if_neg hsubnet] at h
  cases hqueue : s.1 c with
  | nil =>
    rw [hqueue] at h
    cases h
    exact .inl rfl
  | cons cf rest =>
    simp only [hqueue] at h
    by_cases hcl : cf.cl ≠ c
    · rw [if_pos hcl] at h
      cases h
    by_cases hpri : s.2.any (fun f => f.pri ≥ cf.pri) = true
    · rw [if_neg hcl, if_pos hpri] at h
      cases h
      exact .inl rfl
    rw [if_neg hcl, if_neg hpri] at h
    obtain ⟨cf', hpick, h⟩ := bind_ok.mp h
    refine .inr ⟨cf, rest, cf', not_not.mp hsubnet, rfl, not_not.mp hcl, ?_, hpick, ?_⟩
    · intro f hf
      rw [Option.mem_def.mp hf, Option.any_some, decide_eq_true_eq] at hpri
      omega
    · split_ifs at h with hgo
      · cases h
        exact ⟨rfl, .inl ⟨rfl, hgo⟩⟩
      · cases h
        exact ⟨rfl, .inr ⟨rfl, fun hvc => hgo (.inl hvc)⟩⟩

theorem heldFlit_eq_ok {held : Option Flit} (h : heldFlit cfg tm subnet n = .ok held) :
    ∀ f ∈ held, cfg.holdSwitchForPacket = true ∧ f.head = false ∧
      f.vc = tm.lastVC n subnet (tm.lastClass n subnet) ∧
      ∃ rest, tm.partialPackets n (tm.lastClass n subnet) = f :: rest := by
  unfold heldFlit at h
  cases hqueue : tm.partialPackets n (tm.lastClass n subnet) with
  | nil =>
    rw [hqueue] at h
    cases h
    exact fun f hf => nomatch hf
  | cons f rest =>
    simp only [hqueue] at h
    by_cases hhold : cfg.holdSwitchForPacket ∧ f.head = false ∧
        (tm.bufStates n subnet).isFullFor tm.time f.vc = false
    · rw [if_pos hhold] at h
      obtain ⟨hvc, h⟩ := require_ok.mp h
      cases h
      intro g hg
      obtain rfl := Option.mem_some.mp hg
      exact ⟨hhold.1, hhold.2.1, hvc, rest, rfl⟩
    · rw [if_neg hhold] at h
      cases h
      exact fun f hf => nomatch hf

theorem sendFlit_eq_ok {f g : Flit} (h : sendFlit cfg tm subnet n f = .ok (tm', g)) :
    ∃ taken sent pri, (if f.head then (tm.bufStates n subnet).takeBuffer f.vc f.pid
        else .ok (tm.bufStates n subnet)) = .ok taken ∧
      taken.sendingFlit tm.time f = .ok sent ∧
      tm' = { tm with
        bufStates := update₂ tm.bufStates n subnet sent
        lastVC := if f.head then update₂ tm.lastVC n subnet (update (tm.lastVC n subnet) f.cl f.vc)
          else tm.lastVC
        lastClass := update₂ tm.lastClass n subnet f.cl
        partialPackets := update₂ tm.partialPackets n f.cl
          (passBack f (tm.partialPackets n f.cl).tail) } ∧
      g = { f with pri := pri, itime := tm.time } := by
  obtain ⟨taken, htaken, h⟩ := bind_ok.mp h
  obtain ⟨sent, hsent, h⟩ := bind_ok.mp h
  obtain ⟨pri, -, h⟩ := bind_ok.mp h
  cases h
  exact ⟨taken, sent, pri, htaken, hsent, rfl, rfl⟩

end Effects

end TrafficManager

end BookSim
