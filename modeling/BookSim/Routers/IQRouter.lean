/-
# IQRouter — an input-queued router

The router of the source, stage by stage.  A packet whose head reaches the front of its input
VC passes through

    routing          its route set is computed (or was, one hop ahead)
    VC allocation    it gets a VC of an output
    switch alloc.    each of its flits gets a passage through the switch, alone or, with
                     `hold_switch_for_packet`, for the rest of the packet
    crossbar         … and goes to the output buffer, and from there to the channel

Every stage has a queue.  `_InternalStep` first runs the Evaluate half of all stages, which
starts the new entries of a queue (their time is negative) and fixes when they are due, and
then the Update halves, which complete the entries that are due.

The two kinds of choices made elsewhere are in `RouterEnv`: what the routing function answers,
and what the allocators make of the requests.  Both can be anything.  The request tables are
those of the allocators.  A cycle is one internal step.  Watches, monitors and the counters of
`TRACK_FLOWS`, `TRACK_STALLS` and `TRACK_BUFFERS` are left out.
-/
import BookSim.Allocators.Allocator
import BookSim.BufferState
import BookSim.InputBuffer

namespace BookSim

open Function (update)

/-! ## Data -/

structure RouterConfig where
  inputs : ℕ
  outputs : ℕ
  vcs : ℕ
  classes : ℕ
  inputSpeedup : ℤ := 1
  outputSpeedup : ℤ := 1
  crossbarDelay : ℤ := 1
  creditDelay : ℤ := 1
  routingDelay : ℤ := 1
  vcAllocDelay : ℤ := 1
  swAllocDelay : ℤ := 1
  speculative : Bool := false
  specCheckElig : Bool := true
  specCheckCred : Bool := true
  specMaskByReqs : Bool := true
  vcBusyWhenFull : Bool := false
  vcPrioritizeEmpty : Bool := false
  vcShuffleRequests : Bool := false
  noq : Bool := false
  outputBufferSize : ℤ := -1
  holdSwitchForPacket : Bool := false
  /-- Without a VC allocator output VCs are assigned together with the switch. -/
  hasVCAllocator : Bool := true
  hasSpecSWAllocator : Bool := false
  vcConfig : VCConfig := {}

namespace RouterConfig

variable (cfg : RouterConfig)

def IsInput (i : ℤ) : Prop := 0 ≤ i ∧ i < cfg.inputs

def IsOutput (o : ℤ) : Prop := 0 ≤ o ∧ o < cfg.outputs

def IsVC (v : ℤ) : Prop := 0 ≤ v ∧ v < cfg.vcs

instance (i : ℤ) : Decidable (cfg.IsInput i) := inferInstanceAs (Decidable (_ ∧ _))

instance (o : ℤ) : Decidable (cfg.IsOutput o) := inferInstanceAs (Decidable (_ ∧ _))

instance (v : ℤ) : Decidable (cfg.IsVC v) := inferInstanceAs (Decidable (_ ∧ _))

/-- The input of the switch that serves a VC. -/
def expandedInput (input vc : ℤ) : ℤ := input * cfg.inputSpeedup + vc % cfg.inputSpeedup

def expandedOutput (output input : ℤ) : ℤ := output * cfg.outputSpeedup + input % cfg.outputSpeedup

def inputAndVC (input vc : ℤ) : ℤ :=
  if cfg.vcShuffleRequests then vc * cfg.inputs + input else input * cfg.vcs + vc

def inputList : List ℤ := (List.range cfg.inputs).map Int.ofNat

end RouterConfig

/-- An entry of a stage's queue; its result is `-1` until the stage has one, an output, or
one of the stalls. -/
structure Entry where
  time : ℤ := -1
  input : ℤ
  vc : ℤ
  result : ℤ := -1
  deriving DecidableEq, Repr

/-- An Evaluate has seen the entry. -/
def Entry.isStarted (e : Entry) : Bool := 0 ≤ e.time

/-- An Evaluate has seen the entry, and its time has come. -/
def Entry.isDue (now : ℤ) (e : Entry) : Bool := 0 ≤ e.time && e.time ≤ now

def STALL_BUFFER_BUSY : ℤ := -2
def STALL_BUFFER_CONFLICT : ℤ := -3
def STALL_BUFFER_FULL : ℤ := -4
def STALL_BUFFER_RESERVED : ℤ := -5
def STALL_CROSSBAR_CONFLICT : ℤ := -6

/-- A flit in the crossbar. -/
structure Crossing where
  time : ℤ := -1
  flit : Flit
  expandedInput : ℤ
  expandedOutput : ℤ
  deriving DecidableEq, Repr

def Crossing.isStarted (c : Crossing) : Bool := 0 ≤ c.time

def Crossing.isDue (now : ℤ) (c : Crossing) : Bool := 0 ≤ c.time && c.time ≤ now

/-- Arrays and maps are functions of their index or key. -/
structure Router where
  active : Bool := false
  buf : ℤ → Buffer
  nextBuf : ℤ → BufferState
  inQueueFlits : ℤ → Option Flit := fun _ => none
  procCredits : List (ℤ × Credit × ℤ) := []
  routeVCs : List Entry := []
  vcAllocVCs : List Entry := []
  swHoldVCs : List Entry := []
  swAllocVCs : List Entry := []
  crossbarFlits : List Crossing := []
  outQueueCredits : ℤ → Option Credit := fun _ => none
  outputBuffer : ℤ → List Flit := fun _ => []
  creditBuffer : ℤ → List Credit := fun _ => []
  switchHoldIn : ℤ → ℤ := fun _ => -1
  switchHoldOut : ℤ → ℤ := fun _ => -1
  switchHoldVC : ℤ → ℤ := fun _ => -1
  vcRROffset : ℤ → ℤ := fun _ => -1
  swRROffset : ℤ → ℤ
  noqNextOutputPort : ℤ → ℤ → ℤ := fun _ _ => -1
  noqNextVCStart : ℤ → ℤ → ℤ := fun _ _ => -1
  noqNextVCEnd : ℤ → ℤ → ℤ := fun _ _ => -1

/-! ## Allocators -/

/-- A request for the switch gives way to one that comes first in the round robin. -/
def Requests.addOrReplace (t : Requests) (expandedInput expandedOutput vc pri offset vcs : ℤ) :
    Except Fault Requests :=
  match t expandedInput expandedOutput with
  | none => t.add expandedInput expandedOutput ⟨vc, pri, pri⟩
  | some req =>
    if supersedes vc pri req.label req.inPri offset vcs then
      (t.remove expandedInput expandedOutput).add expandedInput expandedOutput ⟨vc, pri, pri⟩
    else .ok t

/-- What one `_InternalStep` is told from outside. -/
structure RouterEnv where
  now : ℤ
  /-- The route set of a flit at an input: what the routing function puts there. -/
  route : ℤ → Flit → OutputSet
  /-- The routing function of the router an output leads to, and the number of its outputs;
  `none` when the output leads to a node. -/
  nextRoute : ℤ → Flit → OutputSet
  sinkOutputs : ℤ → Option ℕ
  vcAllocate : Requests → Matching
  swAllocate : Requests → Matching
  specSWAllocate : Requests → Matching

/-- A loop over a queue that ends at the first entry with `stop`, and may change the entries
before it. -/
def walk {σ β : Type} (stop : β → Bool) (f : σ → β → Except Fault (σ × β)) :
    σ → List β → Except Fault (σ × List β)
  | s, [] => .ok (s, [])
  | s, e :: q =>
    if stop e then .ok (s, e :: q)
    else do
      let first ← f s e
      let rest ← walk stop f first.1 q
      return (rest.1, first.2 :: rest.2)

namespace Router

/-! ## Parts of the stages -/

section Parts

variable (cfg : RouterConfig) (env : RouterEnv) (r : Router)

def vcAt (input vc : ℤ) : VC := (r.buf input).vc vc

def setVC (input vc : ℤ) (v : VC) : Router :=
  { r with buf := update r.buf input ((r.buf input).setVC vc v) }

def setState (input vc : ℤ) (s : VCState) : Router :=
  r.setVC input vc { r.vcAt input vc with state := s }

/-- The flit at the front of the VC of an entry, with the assertions made about it. -/
def front (e : Entry) : Except Fault Flit := do
  require (.assertion "(input >= 0) && (input < _inputs)") (cfg.IsInput e.input)
  require (.assertion "(vc >= 0) && (vc < _vcs)") (cfg.IsVC e.vc)
  match (r.vcAt e.input e.vc).buffer with
  | [] => .error (.assertion "!cur_buf->Empty(vc)")
  | f :: _ => do
    require (.assertion "f->vc == vc") (f.vc = e.vc)
    return f

/-- The front flit is a head, and its VC is in state `s`. -/
def frontHead (s : VCState) (e : Entry) : Except Fault Flit := do
  let f ← r.front cfg e
  require (.assertion "cur_buf->GetState(vc)") ((r.vcAt e.input e.vc).state = s)
  require (.assertion "f->head") f.head
  return f

def pushSWAlloc (input vc : ℤ) : Router :=
  { r with swAllocVCs := r.swAllocVCs ++ [{ input := input, vc := vc }] }

def pushSWHold (input vc : ℤ) : Router :=
  { r with swHoldVCs := r.swHoldVCs ++ [{ input := input, vc := vc }] }

/-- A packet with a route waits for an output VC, and with speculation for the switch too. -/
def requestVC (input vc : ℤ) : Router :=
  { r with
    swAllocVCs := if cfg.speculative then r.swAllocVCs ++ [{ input := input, vc := vc }]
      else r.swAllocVCs
    vcAllocVCs := if cfg.hasVCAllocator then r.vcAllocVCs ++ [{ input := input, vc := vc }]
      else r.vcAllocVCs }

def updateNOQ (input vc : ℤ) (f : Flit) : Except Fault Router := do
  require (.assertion "f->vc == vc") (f.vc = vc)
  require (.assertion "f->head") f.head
  match (env.route input f).getSet with
  | [se] =>
    match env.sinkOutputs se.outputPort, (env.nextRoute se.outputPort f).getSet with
    | none, _ => return r
    | some outputs, [next] => do
      let count := (next.vcEnd - next.vcStart + 1).tdiv outputs
      let first := next.vcStart + next.outputPort * count
      let last := next.vcStart + (next.outputPort + 1) * count - 1
      require (.assertion "next_output_port >= 0") (0 ≤ next.outputPort)
      require (.assertion "_noq_next_output_port[input][vc] < 0") (r.noqNextOutputPort input vc < 0)
      require (.assertion "next_vc_start >= 0 && next_vc_start < _vcs") (cfg.IsVC first)
      require (.assertion "_noq_next_vc_start[input][vc] < 0") (r.noqNextVCStart input vc < 0)
      require (.assertion "next_vc_end >= 0 && next_vc_end < _vcs") (cfg.IsVC last)
      require (.assertion "_noq_next_vc_end[input][vc] < 0") (r.noqNextVCEnd input vc < 0)
      require (.assertion "next_vc_start <= next_vc_end") (first ≤ last)
      return { r with
        noqNextOutputPort := update₂ r.noqNextOutputPort input vc next.outputPort
        noqNextVCStart := update₂ r.noqNextVCStart input vc first
        noqNextVCEnd := update₂ r.noqNextVCEnd input vc last }
    | _, _ => .error (.assertion "sl.size() == 1")
  | _ => .error (.assertion "sl.size() == 1")

/-- The head `f` is at the front of its VC: its packet starts. -/
def startPacket (input vc : ℤ) (f : Flit) : Except Fault Router :=
  if cfg.routingDelay ≠ 0 then
    .ok { r.setState input vc .routing with
      routeVCs := r.routeVCs ++ [{ input := input, vc := vc }] }
  else
    let v := (r.vcAt input vc).setRouteSet (env.route input f)
    let requested := (r.setVC input vc { v with state := .vc_alloc }).requestVC cfg input vc
    if cfg.noq then requested.updateNOQ cfg env input vc f else .ok requested

/-- The output VCs an element of a route set stands for. -/
def vcRange (input vc : ℤ) (se : SetElement) : Except Fault (List ℤ) := do
  let ahead : Prop := cfg.noq ∧ 0 ≤ r.noqNextOutputPort input vc
  require (.assertion "!_routing_delay") (ahead → cfg.routingDelay = 0)
  let range := if ahead then (r.noqNextVCStart input vc, r.noqNextVCEnd input vc)
    else (se.vcStart, se.vcEnd)
  require (.assertion "vc_start >= 0 && vc_start < _vcs") (cfg.IsVC range.1)
  require (.assertion "vc_end >= 0 && vc_end < _vcs") (cfg.IsVC range.2)
  require (.assertion "vc_end >= vc_start") (range.1 ≤ range.2)
  return (List.range (range.2 - range.1 + 1).toNat).map fun k => range.1 + k

/-- The elements of the route set of a VC. -/
def setList (input vc : ℤ) : Except Fault (List SetElement) :=
  match (r.vcAt input vc).routeSet with
  | none => .error (.assertion "route_set")
  | some routeSet => do
    require (.assertion "!_noq || (setlist.size() == 1)") (cfg.noq → routeSet.getSet.length = 1)
    return routeSet.getSet

/-- The stall of a VC that cannot go on for want of space. -/
def fullStall (output : ℤ) : ℤ :=
  if (r.nextBuf output).isFull then STALL_BUFFER_FULL else STALL_BUFFER_RESERVED

def hasRoom (output : ℤ) : Bool :=
  cfg.outputBufferSize < 0 || (r.outputBuffer output).length < cfg.outputBufferSize

/-- A priority that has to be below all others. -/
def demote (pri : ℤ) : Except Fault ℤ := do
  require (.assertion "prio >= 0") (0 ≤ pri)
  return pri - 2 ^ 31

def vcPriority (output vc pri : ℤ) : Except Fault ℤ :=
  if cfg.vcPrioritizeEmpty && !(r.nextBuf output).isEmptyFor vc then demote pri else .ok pri

end Parts

/-! ## Evaluate

These halves only rewrite the times and results of queue entries, and the offsets of the
switch arbiters. -/

section Evaluate

variable (cfg : RouterConfig) (env : RouterEnv) (r : Router)

def routeEvaluate : Except Fault Router := do
  require (.assertion "_routing_delay") (cfg.routingDelay ≠ 0)
  let walked ← walk Entry.isStarted (fun _ e => do
    let _ ← r.frontHead cfg .routing e
    return ((), { e with time := env.now + cfg.routingDelay - 1 })) () r.routeVCs
  return { r with routeVCs := walked.2 }

/-- What the requests of one packet for output VCs have found so far. -/
structure VCBid where
  requests : Requests
  elig : Bool := false
  cred : Bool := false
  reserved : Bool := false

def bidForVC (e : Entry) (se : SetElement) (bid : VCBid) (outVC : ℤ) : Except Fault VCBid := do
  let dest := r.nextBuf se.outputPort
  let inPriority ← r.vcPriority cfg se.outputPort outVC se.pri
  if !dest.isAvailableFor outVC then return bid
  else if cfg.vcBusyWhenFull && dest.isFullFor env.now outVC then
    return { bid with elig := true, reserved := bid.reserved || !dest.isFull }
  else do
    let requests ← bid.requests.add (cfg.inputAndVC e.input e.vc)
      (se.outputPort * cfg.vcs + outVC) ⟨0, inPriority, (r.vcAt e.input e.vc).pri⟩
    return { bid with requests := requests, elig := true, cred := true }

def vcAllocRequest (requests : Requests) (e : Entry) : Except Fault (Requests × Entry) := do
  require (.assertion "iter->second.second == -1") (e.result = -1)
  let _ ← r.frontHead cfg .vc_alloc e
  let setlist ← r.setList cfg e.input e.vc
  let bid ← setlist.foldlM (fun (bid : VCBid) se => do
    require (.assertion "(out_port >= 0) && (out_port < _outputs)") (cfg.IsOutput se.outputPort)
    let outVCs ← r.vcRange cfg e.input e.vc se
    outVCs.foldlM (r.bidForVC cfg env e se) bid) { requests := requests }
  let result :=
    if !bid.elig then STALL_BUFFER_BUSY
    else if cfg.vcBusyWhenFull && !bid.cred then
      if bid.reserved then STALL_BUFFER_RESERVED else STALL_BUFFER_FULL
    else e.result
  return (bid.requests, { e with result := result })

/-- The output and VC a result stands for. -/
def splitOutputVC (outputAndVC : ℤ) : Except Fault (ℤ × ℤ) := do
  let matchOutput := outputAndVC.tdiv cfg.vcs
  let matchVC := outputAndVC.tmod cfg.vcs
  require (.assertion "(match_output >= 0) && (match_output < _outputs)") (cfg.IsOutput matchOutput)
  require (.assertion "(match_vc >= 0) && (match_vc < _vcs)") (cfg.IsVC matchVC)
  return (matchOutput, matchVC)

def vcAllocGrant (grants : Matching) (_ : Unit) (e : Entry) : Except Fault (Unit × Entry) := do
  let timed := { e with time := env.now + cfg.vcAllocDelay - 1 }
  if e.result < -1 then return ((), timed)
  else do
    require (.assertion "iter->second.second == -1") (e.result = -1)
    let _ ← r.frontHead cfg .vc_alloc e
    let outputAndVC := grants.outputAssigned (cfg.inputAndVC e.input e.vc)
    if 0 ≤ outputAndVC then do
      let _ ← splitOutputVC cfg outputAndVC
      return ((), { timed with result := outputAndVC })
    else return ((), { timed with result := STALL_BUFFER_CONFLICT })

/-- With a delay, a grant is checked again when it is due. -/
def vcAllocRecheck (_ : Unit) (e : Entry) : Except Fault (Unit × Entry) := do
  require (.assertion "time >= 0") (0 ≤ e.time)
  require (.assertion "iter->second.second != -1") (e.result ≠ -1)
  if 0 ≤ e.result then do
    let matched ← splitOutputVC cfg e.result
    let _ ← r.frontHead cfg .vc_alloc e
    let dest := r.nextBuf matched.1
    if !dest.isAvailableFor matched.2 then
      return ((), { e with result := STALL_BUFFER_BUSY })
    else if cfg.vcBusyWhenFull && dest.isFullFor env.now matched.2 then
      return ((), { e with result := r.fullStall matched.1 })
    else return ((), e)
  else return ((), e)

/-- The matching is kept for the speculative requests of the switch. -/
def vcAllocEvaluate : Except Fault (Matching × Router) := do
  let requested ← walk Entry.isStarted (r.vcAllocRequest cfg env) Requests.clear r.vcAllocVCs
  let grants := env.vcAllocate requested.1
  let granted ← walk Entry.isStarted (r.vcAllocGrant cfg env grants) () requested.2
  if cfg.vcAllocDelay ≤ 1 then return (grants, { r with vcAllocVCs := granted.2 })
  else do
    let checked ← walk (fun e => env.now < e.time) (r.vcAllocRecheck cfg env) () granted.2
    return (grants, { r with vcAllocVCs := checked.2 })

def swHoldEntry (_ : Unit) (e : Entry) : Except Fault (Unit × Entry) := do
  require (.assertion "iter->second.second == -1") (e.result = -1)
  let _ ← r.front cfg e
  let v := r.vcAt e.input e.vc
  require (.assertion "cur_buf->GetState(vc) == VC::active") (v.state = .active)
  require (.assertion "_switch_hold_vc[expanded_input] == vc")
    (r.switchHoldVC (cfg.expandedInput e.input e.vc) = e.vc)
  require (.assertion "(match_port >= 0) && (match_port < _outputs)") (cfg.IsOutput v.outPort)
  require (.assertion "(match_vc >= 0) && (match_vc < _vcs)") (cfg.IsVC v.outVC)
  let expandedOutput := cfg.expandedOutput v.outPort e.input
  require (.assertion "_switch_hold_in[expanded_input] == expanded_output")
    (r.switchHoldIn (cfg.expandedInput e.input e.vc) = expandedOutput)
  return ((), { e with
    time := env.now
    result := if (r.nextBuf v.outPort).isFullFor env.now v.outVC then r.fullStall v.outPort
      else expandedOutput })

def swHoldEvaluate : Except Fault Router := do
  require (.assertion "_hold_switch_for_packet") cfg.holdSwitchForPacket
  let walked ← walk Entry.isStarted (r.swHoldEntry cfg env) () r.swHoldVCs
  return { r with swHoldVCs := walked.2 }

/-- The requests for the switch; the speculative ones may have an allocator of their own. -/
structure SWRequests where
  nonspec : Requests := Requests.clear
  spec : Requests := Requests.clear

/-- The front flit of an entry that competes for the switch. -/
def frontForSwitch (e : Entry) : Except Fault Flit := do
  let f ← r.front cfg e
  let state := (r.vcAt e.input e.vc).state
  require (.assertion "(cur_buf->GetState(vc) == VC::active) || _speculative")
    (state = .active ∨ cfg.speculative ∧ state = .vc_alloc)
  return f

def swAllocAddReq (requests : SWRequests) (input vc output : ℤ) : Except Fault SWRequests := do
  let expandedInput := cfg.expandedInput input vc
  let expandedOutput := cfg.expandedOutput output input
  let v := r.vcAt input vc
  if r.switchHoldIn expandedInput < 0 ∧ r.switchHoldOut expandedOutput < 0 then
    if cfg.speculative ∧ v.state = .vc_alloc then
      if cfg.hasSpecSWAllocator then do
        let spec ← Requests.addOrReplace requests.spec expandedInput expandedOutput vc v.pri
          (r.swRROffset expandedInput) cfg.vcs
        return { requests with spec := spec }
      else do
        let pri ← demote v.pri
        let nonspec ← Requests.addOrReplace requests.nonspec expandedInput expandedOutput vc pri
          (r.swRROffset expandedInput) cfg.vcs
        return { requests with nonspec := nonspec }
    else do
      let nonspec ← Requests.addOrReplace requests.nonspec expandedInput expandedOutput vc v.pri
        (r.swRROffset expandedInput) cfg.vcs
      return { requests with nonspec := nonspec }
  else return requests

/-- A packet that has no output VC yet asks for every output it could take. -/
def swAllocSpeculate (e : Entry) (acc : SWRequests × ℤ) (se : SetElement) :
    Except Fault (SWRequests × ℤ) := do
  let output := se.outputPort
  let dest := r.nextBuf output
  require (.assertion "(dest_output >= 0) && (dest_output < _outputs)") (cfg.IsOutput output)
  let outVCs ← (if cfg.specCheckElig then r.vcRange cfg e.input e.vc se else .ok [])
  let eligible := outVCs.filter fun v => dest.isAvailableFor v && r.hasRoom cfg output
  let elig := !eligible.isEmpty
  let cred := eligible.any fun v => !cfg.specCheckCred || !dest.isFullFor env.now v
  if cfg.specCheckElig && !elig then return (acc.1, STALL_BUFFER_BUSY)
  else if cfg.specCheckCred && !cred then return (acc.1, r.fullStall output)
  else do
    let requests ← r.swAllocAddReq cfg acc.1 e.input e.vc output
    return (requests, acc.2)

def swAllocRequest (requests : SWRequests) (e : Entry) : Except Fault (SWRequests × Entry) := do
  require (.assertion "iter->second.second == -1") (e.result = -1)
  require (.assertion "_switch_hold_vc[expanded_input] != vc")
    (r.switchHoldVC (cfg.expandedInput e.input e.vc) ≠ e.vc)
  let f ← r.frontForSwitch cfg e
  let v := r.vcAt e.input e.vc
  if v.state = .active then do
    require (.assertion "(dest_output >= 0) && (dest_output < _outputs)") (cfg.IsOutput v.outPort)
    require (.assertion "(dest_vc >= 0) && (dest_vc < _vcs)") (cfg.IsVC v.outVC)
    if (r.nextBuf v.outPort).isFullFor env.now v.outVC || !r.hasRoom cfg v.outPort then
      return (requests, { e with result := r.fullStall v.outPort })
    else do
      let requests ← r.swAllocAddReq cfg requests e.input e.vc v.outPort
      return (requests, e)
  else do
    require (.assertion "f->head") f.head
    let setlist ← r.setList cfg e.input e.vc
    let asked ← setlist.foldlM (r.swAllocSpeculate cfg env e) (requests, e.result)
    return (asked.1, { e with result := asked.2 })

/-- The offsets of the switch arbiters are the state of this loop. -/
def swAllocGrant (requests : SWRequests) (grants specGrants : Matching) (offset : ℤ → ℤ)
    (e : Entry) : Except Fault ((ℤ → ℤ) × Entry) := do
  let timed := { e with time := env.now + cfg.swAllocDelay - 1 }
  if e.result < -1 then return (offset, timed)
  else do
    require (.assertion "iter->second.second == -1") (e.result = -1)
    let _ ← r.frontForSwitch cfg e
    let expandedInput := cfg.expandedInput e.input e.vc
    let expandedOutput := grants.outputAssigned expandedInput
    let specOutput := specGrants.outputAssigned expandedInput
    let moved := update offset expandedInput ((e.vc + cfg.inputSpeedup) % cfg.vcs)
    if 0 ≤ expandedOutput then do
      require (.assertion "(expanded_output % _output_speedup) == (input % _output_speedup)")
        (expandedOutput % cfg.outputSpeedup = e.input % cfg.outputSpeedup)
      if requests.nonspec.read expandedInput expandedOutput = e.vc then
        return (moved, { timed with result := expandedOutput })
      else return (offset, { timed with result := STALL_CROSSBAR_CONFLICT })
    else if cfg.hasSpecSWAllocator ∧ 0 ≤ specOutput then do
      require (.assertion "(expanded_output % _output_speedup) == (input % _output_speedup)")
        (specOutput % cfg.outputSpeedup = e.input % cfg.outputSpeedup)
      let masked := if cfg.specMaskByReqs
        then requests.nonspec.outputHasRequests (cfg.inputs * cfg.inputSpeedup).toNat specOutput
        else 0 ≤ grants.inputAssigned specOutput
      if !masked && requests.spec.read expandedInput specOutput = e.vc then
        return (moved, { timed with result := specOutput })
      else return (offset, { timed with result := STALL_CROSSBAR_CONFLICT })
    else return (offset, { timed with result := STALL_CROSSBAR_CONFLICT })

/-- Without a VC allocator: can the packet still get an output VC at this output? -/
def piggybackStall (e : Entry) (output : ℤ) : Except Fault ℤ := do
  let dest := r.nextBuf output
  let setlist ← r.setList cfg e.input e.vc
  -- (busy, full, reserved); the loops end as soon as `full` is false
  let found ← setlist.foldlM (fun (found : Bool × Bool × Bool) se =>
    if found.2.1 = false ∨ se.outputPort ≠ output then .ok found
    else do
      let outVCs ← r.vcRange cfg e.input e.vc se
      let available := outVCs.filter fun v => dest.isAvailableFor v
      return (found.1 && available.isEmpty, available.all fun v => dest.isFullFor env.now v,
        found.2.2 || (!available.isEmpty && !dest.isFull))) (true, true, false)
  return if found.1 then STALL_BUFFER_BUSY
    else if found.2.1 then if found.2.2 then STALL_BUFFER_RESERVED else STALL_BUFFER_FULL
    else e.result

/-- A grant of the switch is checked again when it is due: the output may be held by now, and
a speculative packet may have no output VC. -/
def swAllocRecheck (vcGrants : Matching) (_ : Unit) (e : Entry) : Except Fault (Unit × Entry) := do
  require (.assertion "time >= 0") (0 ≤ toInt e.time)
  require (.assertion "iter->second.second != -1") (e.result ≠ -1)
  if 0 ≤ e.result then do
    let output := e.result / cfg.outputSpeedup
    let dest := r.nextBuf output
    let expandedInput := cfg.expandedInput e.input e.vc
    require (.assertion "(output >= 0) && (output < _outputs)") (cfg.IsOutput output)
    require (.assertion "(input % _output_speedup) == (expanded_output % _output_speedup)")
      (e.input % cfg.outputSpeedup = e.result % cfg.outputSpeedup)
    require (.assertion "_switch_hold_vc[expanded_input] != vc")
      (r.switchHoldVC expandedInput ≠ e.vc)
    let f ← r.frontForSwitch cfg e
    let v := r.vcAt e.input e.vc
    if 0 ≤ r.switchHoldIn expandedInput ∨ 0 ≤ r.switchHoldOut e.result then
      return ((), { e with result := STALL_CROSSBAR_CONFLICT })
    else if cfg.speculative ∧ v.state = .vc_alloc then do
      require (.assertion "f->head") f.head
      if cfg.hasVCAllocator then
        let outputAndVC := vcGrants.outputAssigned (cfg.inputAndVC e.input e.vc)
        return ((), { e with
          result := if outputAndVC < 0 then -1
            else if outputAndVC.tdiv cfg.vcs ≠ output then STALL_BUFFER_CONFLICT
            else if dest.isFullFor env.now (outputAndVC.tmod cfg.vcs) then r.fullStall output
            else e.result })
      else do
        let result ← r.piggybackStall cfg env e output
        return ((), { e with result := result })
    else do
      require (.assertion "cur_buf->GetOutputPort(vc) == output") (v.outPort = output)
      require (.assertion "(match_vc >= 0) && (match_vc < _vcs)") (cfg.IsVC v.outVC)
      if dest.isFullFor env.now v.outVC then
        return ((), { e with result := r.fullStall output })
      else return ((), e)
  else return ((), e)

def swAllocEvaluate (vcGrants : Matching) : Except Fault Router := do
  let requested ← walk Entry.isStarted (r.swAllocRequest cfg env) {} r.swAllocVCs
  let grants := env.swAllocate requested.1.nonspec
  let specGrants := env.specSWAllocate requested.1.spec
  let granted ← walk Entry.isStarted (r.swAllocGrant cfg env requested.1 grants specGrants)
    r.swRROffset requested.2
  let r := { r with swAllocVCs := granted.2, swRROffset := granted.1 }
  if !cfg.speculative ∧ cfg.swAllocDelay ≤ 1 then return r
  else do
    let checked ← walk (fun e => env.now < toInt e.time) (r.swAllocRecheck cfg env vcGrants) ()
      r.swAllocVCs
    return { r with swAllocVCs := checked.2 }

def switchEvaluate : Router :=
  let start := fun c : Crossing => { c with time := env.now + cfg.crossbarDelay - 1 }
  { r with
    crossbarFlits := (r.crossbarFlits.takeWhile (!·.isStarted)).map start ++
      r.crossbarFlits.dropWhile (!·.isStarted) }

end Evaluate

/-! ## Update

Each loop takes the entries that are due from the front of its queue; what it puts back goes
to the end and is not due. -/

section Update

variable (cfg : RouterConfig) (env : RouterEnv)

def routeItem (r : Router) (e : Entry) : Except Fault Router := do
  require (.assertion "GetSimTime() == time") (env.now = e.time)
  let f ← r.frontHead cfg .routing e
  let v := (r.vcAt e.input e.vc).setRouteSet (env.route e.input f)
  let r := r.setVC e.input e.vc { v with state := .vc_alloc }
  return Router.requestVC cfg { r with routeVCs := r.routeVCs.tail } e.input e.vc

def routeUpdate (r : Router) : Except Fault Router := do
  require (.assertion "_routing_delay") (cfg.routingDelay ≠ 0)
  (r.routeVCs.takeWhile (Entry.isDue env.now)).foldlM (routeItem cfg env) r

/-- An input VC gets an output VC. -/
def takeOutputVC (r : Router) (input vc output matchVC : ℤ) : Except Fault Router := do
  let dest ← (r.nextBuf output).takeBuffer matchVC (input * cfg.vcs + vc)
  let v := (r.vcAt input vc).setOutput output matchVC
  return { r.setVC input vc { v with state := .active } with
    nextBuf := update r.nextBuf output dest }

def vcAllocItem (r : Router) (e : Entry) : Except Fault Router := do
  require (.assertion "GetSimTime() == time") (env.now = e.time)
  require (.assertion "item.second.second != -1") (e.result ≠ -1)
  let _ ← r.frontHead cfg .vc_alloc e
  let r := { r with vcAllocVCs := r.vcAllocVCs.tail }
  if 0 ≤ e.result then do
    let matched ← splitOutputVC cfg e.result
    require (.assertion "dest_buf->IsAvailableFor(match_vc)")
      ((r.nextBuf matched.1).isAvailableFor matched.2)
    let r ← takeOutputVC cfg r e.input e.vc matched.1 matched.2
    return if cfg.speculative then r else r.pushSWAlloc e.input e.vc
  else
    return { r with vcAllocVCs := r.vcAllocVCs ++ [{ input := e.input, vc := e.vc }] }

def vcAllocUpdate (r : Router) : Except Fault Router := do
  require (.assertion "_vc_allocator") cfg.hasVCAllocator
  (r.vcAllocVCs.takeWhile (Entry.isDue env.now)).foldlM (vcAllocItem cfg env) r

/-- The head of a packet takes the choice made for the next hop with it. -/
def clearNOQ (r : Router) (input vc : ℤ) : Except Fault Router := do
  require (.assertion "next_output_port >= 0") (0 ≤ r.noqNextOutputPort input vc)
  require (.assertion "next_vc_start >= 0 && next_vc_start < _vcs")
    (cfg.IsVC (r.noqNextVCStart input vc))
  require (.assertion "next_vc_end >= 0 && next_vc_end < _vcs") (cfg.IsVC (r.noqNextVCEnd input vc))
  return { r with
    noqNextOutputPort := update₂ r.noqNextOutputPort input vc (-1)
    noqNextVCStart := update₂ r.noqNextVCStart input vc (-1)
    noqNextVCEnd := update₂ r.noqNextVCEnd input vc (-1) }

/-- The front flit of an input VC leaves through the crossbar, and a credit goes back. -/
def sendFlit (r : Router) (input vc matchVC expandedOutput : ℤ) : Except Fault (Flit × Router) := do
  let output := expandedOutput / cfg.outputSpeedup
  let removed ← (r.buf input).removeFlit cfg.vcConfig vc
  let f : Flit := { removed.1 with hops := removed.1.hops + 1, vc := matchVC }
  let r := { r with buf := update r.buf input removed.2 }
  let r : Router ← (if cfg.routingDelay = 0 ∧ f.head ∧ cfg.noq ∧ (env.sinkOutputs output).isSome
    then clearNOQ cfg r input vc else .ok r)
  let dest ← (r.nextBuf output).sendingFlit env.now f
  let credit := ((r.outQueueCredits input).getD {}).insert vc
  return (f, { r with
    nextBuf := update r.nextBuf output dest
    crossbarFlits := r.crossbarFlits ++
      [{ flit := f, expandedInput := cfg.expandedInput input vc, expandedOutput := expandedOutput }]
    outQueueCredits := update r.outQueueCredits input (some credit) })

/-- After `f` has been sent: `done` when its VC does not go on competing, `stay` when it does. -/
def afterSend (r : Router) (input vc : ℤ) (f : Flit) (done stay : Router → Router) :
    Except Fault Router :=
  match (r.vcAt input vc).buffer with
  | [] => .ok (if f.tail then (done r).setState input vc .idle else done r)
  | next :: _ => do
    require (.assertion "nf->vc == vc") (next.vc = vc)
    if f.tail then do
      require (.assertion "nf->head") next.head
      startPacket cfg env (done r) input vc next
    else return stay r

def holdSwitch (expandedInput expandedOutput vc : ℤ) (r : Router) : Router :=
  { r with
    switchHoldVC := update r.switchHoldVC expandedInput vc
    switchHoldIn := update r.switchHoldIn expandedInput expandedOutput
    switchHoldOut := update r.switchHoldOut expandedOutput expandedInput }

def releaseSwitch (expandedInput expandedOutput : ℤ) (r : Router) : Router :=
  { r with
    switchHoldVC := update r.switchHoldVC expandedInput (-1)
    switchHoldIn := update r.switchHoldIn expandedInput (-1)
    switchHoldOut := update r.switchHoldOut expandedOutput (-1) }

def swHoldItem (r : Router) (e : Entry) : Except Fault Router := do
  require (.assertion "GetSimTime() == time") (env.now = e.time)
  require (.assertion "item.second.second != -1") (e.result ≠ -1)
  let _ ← r.front cfg e
  let v := r.vcAt e.input e.vc
  let expandedInput := cfg.expandedInput e.input e.vc
  let output := e.result / cfg.outputSpeedup
  require (.assertion "cur_buf->GetState(vc) == VC::active") (v.state = .active)
  require (.assertion "_switch_hold_vc[expanded_input] == vc") (r.switchHoldVC expandedInput = e.vc)
  let r := { r with swHoldVCs := r.swHoldVCs.tail }
  if 0 ≤ e.result ∧ r.hasRoom cfg output then do
    require (.assertion "_switch_hold_in[expanded_input] == expanded_output")
      (r.switchHoldIn expandedInput = e.result)
    require (.assertion "_switch_hold_out[expanded_output] == expanded_input")
      (r.switchHoldOut e.result = expandedInput)
    require (.assertion "(output >= 0) && (output < _outputs)") (cfg.IsOutput output)
    require (.assertion "cur_buf->GetOutputPort(vc) == output") (v.outPort = output)
    require (.assertion "(match_vc >= 0) && (match_vc < _vcs)") (cfg.IsVC v.outVC)
    let sent ← sendFlit cfg env r e.input e.vc v.outVC e.result
    afterSend cfg env sent.2 e.input e.vc sent.1 (releaseSwitch expandedInput e.result)
      (·.pushSWHold e.input e.vc)
  else do
    require (.assertion "expanded_output == STALL_BUFFER_FULL || STALL_BUFFER_RESERVED")
      (e.result = STALL_BUFFER_FULL ∨ e.result = STALL_BUFFER_RESERVED ∨ ¬ r.hasRoom cfg output)
    let held := r.switchHoldIn expandedInput
    require (.assertion "held_expanded_output >= 0") (0 ≤ held)
    return (r.releaseSwitch expandedInput held).pushSWAlloc e.input e.vc

/-- This loop does not stop at an entry that is not due yet. -/
def swHoldUpdate (r : Router) : Except Fault Router :=
  (r.swHoldVCs.takeWhile Entry.isStarted).foldlM (swHoldItem cfg env) r

/-- The best output VC at `output` the packet may take, and its priority. -/
def piggybackVC (r : Router) (e : Entry) (output offset : ℤ) : Except Fault ℤ := do
  let dest := r.nextBuf output
  let setlist ← r.setList cfg e.input e.vc
  let best ← setlist.foldlM (fun (best : ℤ × ℤ) se =>
    if se.outputPort ≠ output then .ok best
    else do
      let outVCs ← r.vcRange cfg e.input e.vc se
      outVCs.foldlM (fun (best : ℤ × ℤ) outVC => do
        let pri ← r.vcPriority cfg output outVC se.pri
        if dest.isAvailableFor outVC && !dest.isFullFor env.now outVC &&
            (best.1 < 0 || supersedes outVC pri best.1 best.2 offset cfg.vcs) then
          return (outVC, pri)
        else return best) best) (-1, -2 ^ 31)
  require (.assertion "match_vc >= 0") (0 ≤ best.1)
  return best.1

/-- VC allocation as part of switch allocation. -/
def piggyback (r : Router) (e : Entry) (f : Flit) (output : ℤ) : Except Fault Router := do
  require (.assertion "f->head") f.head
  require (.assertion "(cl >= 0) && (cl < _classes)") (f.cl < cfg.classes)
  let slot := output * cfg.classes + f.cl
  let matchVC ← piggybackVC cfg env r e output (r.vcRROffset slot)
  let r ← takeOutputVC cfg r e.input e.vc output matchVC
  return { r with vcRROffset := update r.vcRROffset slot ((matchVC + 1) % cfg.vcs) }

def swAllocItem (r : Router) (e : Entry) : Except Fault Router := do
  require (.assertion "GetSimTime() == time") (env.now = e.time)
  let f ← r.frontForSwitch cfg e
  let r := { r with swAllocVCs := r.swAllocVCs.tail }
  if 0 ≤ e.result then do
    let expandedInput := cfg.expandedInput e.input e.vc
    let output := e.result / cfg.outputSpeedup
    require (.assertion "_switch_hold_vc[expanded_input] < 0") (r.switchHoldVC expandedInput < 0)
    require (.assertion "_switch_hold_in[expanded_input] < 0") (r.switchHoldIn expandedInput < 0)
    require (.assertion "_switch_hold_out[expanded_output] < 0") (r.switchHoldOut e.result < 0)
    require (.assertion "(output >= 0) && (output < _outputs)") (cfg.IsOutput output)
    let r ← (if !cfg.hasVCAllocator ∧ (r.vcAt e.input e.vc).state = .vc_alloc
      then piggyback cfg env r e f output else .ok r)
    let v := r.vcAt e.input e.vc
    require (.assertion "cur_buf->GetOutputPort(vc) == output") (v.outPort = output)
    require (.assertion "(match_vc >= 0) && (match_vc < _vcs)") (cfg.IsVC v.outVC)
    let sent ← sendFlit cfg env r e.input e.vc v.outVC e.result
    afterSend cfg env sent.2 e.input e.vc sent.1 id (fun r =>
      if cfg.holdSwitchForPacket
      then (r.holdSwitch expandedInput e.result e.vc).pushSWHold e.input e.vc
      else r.pushSWAlloc e.input e.vc)
  else return r.pushSWAlloc e.input e.vc

def swAllocUpdate (r : Router) : Except Fault Router :=
  (r.swAllocVCs.takeWhile (Entry.isDue env.now)).foldlM (swAllocItem cfg env) r

def switchItem (r : Router) (c : Crossing) : Except Fault Router := do
  require (.assertion "GetSimTime() == time") (env.now = c.time)
  let output := c.expandedOutput / cfg.outputSpeedup
  require (.assertion "(input >= 0) && (input < _inputs)")
    (cfg.IsInput (c.expandedInput / cfg.inputSpeedup))
  require (.assertion "(output >= 0) && (output < _outputs)") (cfg.IsOutput output)
  let queue := r.outputBuffer output ++ [c.flit]
  let most := cfg.outputBufferSize + cfg.crossbarDelay * cfg.outputSpeedup + (cfg.outputSpeedup - 1)
  require (.assertion "_output_buffer[output].size() <= _output_buffer_size + in flight")
    (cfg.outputBufferSize = -1 ∨ queue.length ≤ most % 2 ^ 64)
  return { r with
    crossbarFlits := r.crossbarFlits.tail
    outputBuffer := update r.outputBuffer output queue }

def switchUpdate (r : Router) : Except Fault Router :=
  (r.crossbarFlits.takeWhile (Crossing.isDue env.now)).foldlM (switchItem cfg env) r

end Update

/-! ## A cycle -/

section Cycle

variable (cfg : RouterConfig) (env : RouterEnv)

/-- The flit `f` enters its input buffer. -/
def enterFlit (r : Router) (input : ℤ) (f : Flit) : Except Fault Router := do
  let vc := f.vc
  require (.assertion "(vc >= 0) && (vc < _vcs)") (cfg.IsVC vc)
  let b ← (r.buf input).addFlit cfg.vcConfig env.now vc f
  let r := { r with
    buf := update r.buf input b
    inQueueFlits := update r.inQueueFlits input none }
  let heldVC := r.switchHoldVC (cfg.expandedInput input vc)
  -- the flit is alone in its VC
  let isFront := (b.vc vc).buffer.length = 1
  match (b.vc vc).state with
  | .idle => do
    require (.assertion "cur_buf->FrontFlit(vc) == f") isFront
    require (.assertion "f->head") f.head
    require (.assertion "_switch_hold_vc[input*_input_speedup + vc%_input_speedup] != vc")
      (heldVC ≠ vc)
    startPacket cfg env r input vc f
  | .active =>
    return if isFront then
      if heldVC = vc then r.pushSWHold input vc else r.pushSWAlloc input vc
    else r
  | _ => return r

def enterItem (r : Router) (input : ℤ) : Except Fault Router :=
  match r.inQueueFlits input with
  | none => .ok r
  | some f => enterFlit cfg env r input f

def creditItem (r : Router) (item : ℤ × Credit × ℤ) : Except Fault Router := do
  let output := item.2.2
  require (.assertion "(output >= 0) && (output < _outputs)") (cfg.IsOutput output)
  let dest ← (r.nextBuf output).processCredit env.now item.2.1
  return { r with
    nextBuf := update r.nextBuf output dest
    procCredits := r.procCredits.tail }

def inputQueuing (r : Router) : Except Fault Router := do
  let r ← cfg.inputList.foldlM (enterItem cfg env) r
  (r.procCredits.takeWhile (·.1 ≤ env.now)).foldlM (creditItem cfg env) r

/-- The credits for the flits sent in this step go to the credit channels. -/
def outputQueuing (r : Router) : Except Fault Router := do
  require (.assertion "!c->vc.empty()")
    (cfg.inputList.all fun i => (r.outQueueCredits i).all fun c => !c.vc.isEmpty)
  return { r with
    creditBuffer := fun i => r.creditBuffer i ++ (r.outQueueCredits i).toList
    outQueueCredits := fun _ => none }

/-- One half of a stage, left out when its queue is empty. -/
def unlessEmpty {β : Type} (queue : Router → List β) (stage : Router → Except Fault Router)
    (r : Router) : Except Fault Router :=
  if (queue r).isEmpty then .ok r else stage r

/-- The Update half of a stage.  It keeps the router active as long as its queue is not empty
afterwards. -/
def updateStage {β : Type} (queue : Router → List β) (stage : Router → Except Fault Router)
    (s : Bool × Router) : Except Fault (Bool × Router) :=
  if (queue s.2).isEmpty then .ok s
  else do
    let r ← stage s.2
    return (s.1 || !(queue r).isEmpty, r)

/-- The Evaluate halves of all stages. -/
def evaluateStages (r : Router) : Except Fault Router := do
  let r ← unlessEmpty routeVCs (routeEvaluate cfg env) r
  let allocated ← (if cfg.hasVCAllocator ∧ ¬ r.vcAllocVCs.isEmpty
    then r.vcAllocEvaluate cfg env else .ok ({}, r))
  let r ← (if cfg.holdSwitchForPacket
    then unlessEmpty swHoldVCs (swHoldEvaluate cfg env) allocated.2 else .ok allocated.2)
  let r ← unlessEmpty swAllocVCs (swAllocEvaluate cfg env · allocated.1) r
  return r.switchEvaluate cfg env

/-- The Update halves; the flag says whether anything is left to do. -/
def updateStages (s : Bool × Router) : Except Fault (Bool × Router) := do
  let s ← updateStage routeVCs (routeUpdate cfg env) s
  let s ← updateStage vcAllocVCs (vcAllocUpdate cfg env) s
  let s ← (if cfg.holdSwitchForPacket
    then updateStage swHoldVCs (swHoldUpdate cfg env) s else .ok s)
  let s ← updateStage swAllocVCs (swAllocUpdate cfg env) s
  updateStage crossbarFlits (switchUpdate cfg env) s

def internalStep (r : Router) : Except Fault Router :=
  if r.active then do
    let r ← inputQueuing cfg env r
    let activity := !r.procCredits.isEmpty
    let r ← evaluateStages cfg env r
    let s ← updateStages cfg env (activity, r)
    outputQueuing cfg { s.2 with active := s.1 }
  else .ok r

/-- `map::insert` does not replace an entry that is there. -/
def readInputs (now : ℤ) (flits : ℤ → Option Flit) (credits : ℤ → Option Credit) (r : Router) :
    Router :=
  let received := (List.range cfg.outputs).filterMap fun o : ℕ =>
    (credits o).map fun c => (now + cfg.creditDelay, c, (o : ℤ))
  { r with
    inQueueFlits := fun i =>
      if cfg.IsInput i then (r.inQueueFlits i).or (flits i) else r.inQueueFlits i
    procCredits := r.procCredits ++ received
    active := r.active || (cfg.inputList.any fun i => (flits i).isSome) || !received.isEmpty }

def writeOutputs (r : Router) : Router :=
  { r with
    outputBuffer := fun o => (r.outputBuffer o).tail
    creditBuffer := fun i => (r.creditBuffer i).tail }

end Cycle

end Router

end BookSim
