/-
# BufferState — what a sender knows about the buffer at the other end

A sender (a router output, or the traffic manager at an injection port) keeps a `BufferState`
for the input buffer its channel leads to: how many flits are there or on the way, by VC, and
which packet holds each VC.  How the slots are divided among the VCs is the business of a
policy; there are seven, in one class hierarchy:

    private                              a fixed number of slots for each VC
    shared                               private slots for groups of VCs, the rest shared
      limited                            … and no VC holds more than a fixed number
        dynamic, shifting                … which depends on the number of VCs in use
      feedback                           … which depends on the round-trip time
        simplefeedback                   … measured by one probe flit at a time

`_last_id`, `_last_pid` and `_total_mapped_size` are written and never read, and left out.
VCs are numbered by integers as in the source, so that `-1` can stand for none.
-/
import BookSim.Flit
import BookSim.Lib.Fallible

namespace BookSim

open Function (update)

/-! ## The configuration -/

inductive BufferPolicy where
  | private_ | shared | limited | dynamic | shifting | feedback | simplefeedback
  deriving DecidableEq, Repr

/-- The options a `BufferState` is built from.  An option that may be a single number or a
list of them is a list here, empty when it is neither. -/
structure BufferConfig where
  numVCs : ℕ
  bufSize : ℤ := -1
  vcBufSize : ℤ := 8
  waitForTailCredit : Bool := false
  bufferPolicy : BufferPolicy := .private_
  privateBufs : ℤ := -1
  privateBufSize : List ℤ := [1]
  privateBufStartVC : List ℤ := []
  privateBufEndVC : List ℤ := []
  maxHeldSlots : ℤ := -1
  feedbackAgingScale : ℕ := 1
  feedbackOffset : ℤ := 0
  deriving Repr

namespace BufferConfig

/-- The slots of the whole buffer, as the sender and the receiver both compute it. -/
def size (cfg : BufferConfig) : ℤ :=
  if cfg.bufSize < 0 then cfg.numVCs * cfg.vcBufSize else cfg.bufSize

def numPrivateBufs (cfg : BufferConfig) : ℕ :=
  if cfg.privateBufs < 0 then cfg.numVCs
  else if cfg.privateBufs = 0 then 1 else cfg.privateBufs.toNat

/-- The sizes of the private buffers; the last one given is repeated. -/
def privateSizes (cfg : BufferConfig) : List ℤ :=
  let given := if cfg.privateBufSize = [] then [cfg.size.tdiv cfg.numPrivateBufs]
    else cfg.privateBufSize
  (List.range cfg.numPrivateBufs).map fun i => given.getD i (given.getLastD 0)

/-- The first and the last VC of private buffer `i`. -/
def startVC (cfg : BufferConfig) (i : ℕ) : ℤ :=
  if cfg.privateBufStartVC = [] then (i * cfg.numVCs / cfg.numPrivateBufs : ℕ)
  else cfg.privateBufStartVC.getD i 0

def endVC (cfg : BufferConfig) (i : ℕ) : ℤ :=
  if cfg.privateBufEndVC = [] then ((i + 1) * cfg.numVCs / cfg.numPrivateBufs : ℕ) - 1
  else cfg.privateBufEndVC.getD i 0

end BufferConfig

/-! ## The shared policy -/

/-- `SharedBufferPolicy`: private buffers, each for a range of VCs, and a shared rest. -/
structure SharedBuffer where
  bufSize : ℤ
  /-- `-1` for a VC that no private buffer was given to. -/
  privateBufVCMap : ℤ → ℤ
  privateBufSize : ℤ → ℤ
  privateBufOccupancy : ℤ → ℤ := fun _ => 0
  sharedBufSize : ℤ
  sharedBufOccupancy : ℤ := 0
  /-- Slots kept for a VC that is in use and has just become empty. -/
  reservedSlots : ℤ → ℤ := fun _ => 0

namespace SharedBuffer

/-- One round of the constructor's loop: private buffer `i` gets its VCs. -/
def assignVCs (cfg : BufferConfig) (map : ℤ → ℤ) (i : ℕ) : Except Fault (ℤ → ℤ) := do
  require (.assertion "start_vc[i] <= end_vc[i]") (cfg.startVC i ≤ cfg.endVC i)
  let vcs := (List.range (cfg.endVC i - cfg.startVC i + 1).toNat).map fun k : ℕ =>
    cfg.startVC i + k
  vcs.foldlM (fun map v => do
    require (.assertion "_private_buf_vc_map[v] < 0") (map v < 0)
    return update map v i) map

def new (cfg : BufferConfig) : Except Fault SharedBuffer := do
  let map ← (List.range cfg.numPrivateBufs).foldlM (assignVCs cfg) fun _ => -1
  require (.assertion "_shared_buf_size >= 0") (0 ≤ cfg.size - cfg.privateSizes.sum)
  return {
    bufSize := cfg.size
    privateBufVCMap := map
    privateBufSize := fun i => cfg.privateSizes.getD i.toNat 0
    sharedBufSize := cfg.size - cfg.privateSizes.sum }

def processFreeSlot (p : SharedBuffer) (vc : ℤ) : Except Fault SharedBuffer :=
  let i := p.privateBufVCMap vc
  let occupancy := p.privateBufOccupancy i - 1
  let freed := { p with privateBufOccupancy := update p.privateBufOccupancy i occupancy }
  if occupancy < 0 then .error (.privateBelowZero i.toNat)
  else if occupancy ≥ p.privateBufSize i then
    if p.sharedBufOccupancy - 1 < 0 then .error .sharedBelowZero
    else .ok { freed with sharedBufOccupancy := p.sharedBufOccupancy - 1 }
  else .ok freed

/-- The first half of `SendingFlit`: the flit takes a slot. -/
def takeSlot (p : SharedBuffer) (vc : ℤ) : Except Fault SharedBuffer :=
  if p.reservedSlots vc > 0 then
    .ok { p with reservedSlots := update p.reservedSlots vc (p.reservedSlots vc - 1) }
  else
    let i := p.privateBufVCMap vc
    let occupancy := p.privateBufOccupancy i + 1
    let taken := { p with privateBufOccupancy := update p.privateBufOccupancy i occupancy }
    if occupancy > p.privateBufSize i then
      if p.sharedBufOccupancy + 1 > p.sharedBufSize then .error .sharedOverflow
      else .ok { taken with sharedBufOccupancy := p.sharedBufOccupancy + 1 }
    else .ok taken

/-- The loop at the end of `SendingFlit`, which gives the reserved slots of a VC back. -/
def releaseReserved (vc : ℤ) : ℕ → SharedBuffer → Except Fault SharedBuffer
  | 0, p => .ok p
  | n + 1, p => do
    let freed := { p with reservedSlots := update p.reservedSlots vc (p.reservedSlots vc - 1) }
    releaseReserved vc n (← freed.processFreeSlot vc)

def sendingFlit (p : SharedBuffer) (f : Flit) : Except Fault SharedBuffer := do
  let taken ← p.takeSlot f.vc
  if f.tail then releaseReserved f.vc (taken.reservedSlots f.vc).toNat taken else return taken

/-- `available` and `empty` are `IsAvailableFor(vc)` and `IsEmptyFor(vc)` of the owner. -/
def freeSlotFor (p : SharedBuffer) (vc : ℤ) (available empty : Bool) : Except Fault SharedBuffer :=
  if !available && empty then
    .ok { p with reservedSlots := update p.reservedSlots vc (p.reservedSlots vc + 1) }
  else p.processFreeSlot vc

def isFullFor (p : SharedBuffer) (vc : ℤ) : Bool :=
  let i := p.privateBufVCMap vc
  p.reservedSlots vc == 0 && p.privateBufOccupancy i ≥ p.privateBufSize i &&
    p.sharedBufOccupancy ≥ p.sharedBufSize

def availableFor (p : SharedBuffer) (vc : ℤ) : ℤ :=
  let i := p.privateBufVCMap vc
  p.reservedSlots vc + max (p.privateBufSize i - p.privateBufOccupancy i) 0 +
    (p.sharedBufSize - p.sharedBufOccupancy)

def limitFor (p : SharedBuffer) (vc : ℤ) : ℤ :=
  p.privateBufSize (p.privateBufVCMap vc) + p.sharedBufSize

end SharedBuffer

/-! ## The limited policies -/

/-- `LimitedSharedBufferPolicy`. -/
structure LimitedBuffer extends SharedBuffer where
  vcs : ℕ
  activeVCs : ℤ := 0
  maxHeldSlots : ℤ

namespace LimitedBuffer

def new (cfg : BufferConfig) (maxHeldSlots : ℤ) : Except Fault LimitedBuffer := do
  let p ← SharedBuffer.new cfg
  return { p with
    vcs := cfg.numVCs
    maxHeldSlots := if maxHeldSlots < 0 then p.bufSize else maxHeldSlots }

def takeBuffer (p : LimitedBuffer) : Except Fault LimitedBuffer :=
  if p.activeVCs + 1 > p.vcs then .error .tooManyActiveVCs
  else .ok { p with activeVCs := p.activeVCs + 1 }

def sendingFlit (p : LimitedBuffer) (f : Flit) : Except Fault LimitedBuffer := do
  let sent ← p.toSharedBuffer.sendingFlit f
  if f.tail then
    if p.activeVCs - 1 < 0 then .error .activeVCsBelowZero
    else return { p with toSharedBuffer := sent, activeVCs := p.activeVCs - 1 }
  else return { p with toSharedBuffer := sent }

def isFullFor (p : LimitedBuffer) (vc occupancy : ℤ) : Bool :=
  p.toSharedBuffer.isFullFor vc || occupancy ≥ p.maxHeldSlots

def availableFor (p : LimitedBuffer) (vc occupancy : ℤ) : ℤ :=
  min (p.toSharedBuffer.availableFor vc) (p.maxHeldSlots - occupancy)

def limitFor (p : LimitedBuffer) (vc : ℤ) : ℤ := min (p.toSharedBuffer.limitFor vc) p.maxHeldSlots

/-- The limit of the dynamic policy. -/
def evenShare (p : LimitedBuffer) : ℤ := p.bufSize / p.activeVCs

/-- The loop of the shifting policy: `slots` is halved until `i` is zero, and `i` with it. -/
def halved : ℕ → ℕ → ℤ → ℤ
  | 0, _, slots => slots
  | fuel + 1, i, slots => if i = 0 then slots else halved fuel (i / 2) (slots / 2)

/-- The limit of the shifting policy.  The loop ends within `i` rounds. -/
def shiftedShare (p : LimitedBuffer) : ℤ :=
  let i := (p.activeVCs - 1).toNat
  halved i i p.bufSize

/-- `TakeBuffer` of the two policies with a changing limit.  They assert with different `text` that
a count that is not negative is not 0. -/
def takeBufferWith (text : String) (share : LimitedBuffer → ℤ) (p : LimitedBuffer) :
    Except Fault LimitedBuffer := do
  let taken ← p.takeBuffer
  require (.assertion text) (0 < taken.activeVCs)
  require (.assertion "_max_held_slots > 0") (0 < share taken)
  return { taken with maxHeldSlots := share taken }

/-- `SendingFlit` of the two policies with a changing limit. -/
def sendingFlitWith (share : LimitedBuffer → ℤ) (p : LimitedBuffer) (f : Flit) :
    Except Fault LimitedBuffer := do
  let sent ← p.sendingFlit f
  let limit := if f.tail ∧ sent.activeVCs ≠ 0 then share sent else sent.maxHeldSlots
  require (.assertion "_max_held_slots > 0") (0 < limit)
  return { sent with maxHeldSlots := limit }

end LimitedBuffer

/-! ## The feedback policies -/

/-- `FeedbackSharedBufferPolicy`. -/
structure FeedbackBuffer extends SharedBuffer where
  agingScale : ℕ
  offset : ℤ
  minLatency : ℤ
  occupancyLimit : ℤ → ℤ
  roundTripTime : ℤ → ℤ := fun _ => -1
  flitSentTime : ℤ → List ℤ := fun _ => []

namespace FeedbackBuffer

def new (cfg : BufferConfig) (minLatency : ℤ) : Except Fault FeedbackBuffer := do
  let p ← SharedBuffer.new cfg
  return { p with
    agingScale := cfg.feedbackAgingScale
    offset := cfg.feedbackOffset
    minLatency := minLatency
    occupancyLimit := fun _ => p.bufSize }

/-- A moving average of the round-trip time. -/
def computeRTT (p : FeedbackBuffer) (vc lastRTT : ℤ) : ℤ :=
  let rtt := p.roundTripTime vc
  if rtt < 0 then lastRTT else toInt (rtt * 2 ^ p.agingScale + lastRTT - rtt) / 2 ^ p.agingScale

def computeLimit (p : FeedbackBuffer) (rtt : ℤ) : ℤ :=
  max (toInt (2 * p.minLatency - rtt + p.offset)) 1

def computeMaxSlots (p : FeedbackBuffer) (now vc : ℤ) : ℤ :=
  match p.flitSentTime vc with
  | [] => p.occupancyLimit vc
  | sent :: _ =>
    min (p.occupancyLimit vc) (p.computeLimit (p.computeRTT vc (toInt (now - sent))))

def sendingFlit (p : FeedbackBuffer) (now : ℤ) (f : Flit) : Except Fault FeedbackBuffer := do
  let sent ← p.toSharedBuffer.sendingFlit f
  return { p with
    toSharedBuffer := sent
    flitSentTime := update p.flitSentTime f.vc (p.flitSentTime f.vc ++ [toInt now]) }

def freeSlotFor (p : FeedbackBuffer) (now vc : ℤ) (available empty : Bool) :
    Except Fault FeedbackBuffer := do
  let freed ← p.toSharedBuffer.freeSlotFor vc available empty
  match p.flitSentTime vc with
  | [] => .error (.assertion "!_flit_sent_time[vc].empty()")
  | sent :: rest =>
    let rtt := p.computeRTT vc (toInt (now - sent))
    return { p with
      toSharedBuffer := freed
      flitSentTime := update p.flitSentTime vc rest
      roundTripTime := update p.roundTripTime vc rtt
      occupancyLimit := update p.occupancyLimit vc (p.computeLimit rtt) }

def isFullFor (p : FeedbackBuffer) (now vc occupancy : ℤ) : Bool :=
  p.toSharedBuffer.isFullFor vc || occupancy ≥ p.computeMaxSlots now vc

def availableFor (p : FeedbackBuffer) (now vc occupancy : ℤ) : ℤ :=
  min (p.toSharedBuffer.availableFor vc) (p.computeMaxSlots now vc - occupancy)

def limitFor (p : FeedbackBuffer) (now vc : ℤ) : ℤ :=
  min (p.toSharedBuffer.limitFor vc) (p.computeMaxSlots now vc)

end FeedbackBuffer

/-- `SimpleFeedbackSharedBufferPolicy`. -/
structure SimpleFeedbackBuffer extends FeedbackBuffer where
  pendingCredits : ℤ → ℤ := fun _ => 0

namespace SimpleFeedbackBuffer

def sendingFlit (p : SimpleFeedbackBuffer) (now : ℤ) (f : Flit) (occupancy : ℤ) :
    Except Fault SimpleFeedbackBuffer :=
  if p.flitSentTime f.vc = [] then do
    require (.assertion "_buffer_state->OccupancyFor(vc) > 0") (0 < occupancy)
    let sent ← p.toFeedbackBuffer.sendingFlit now f
    return { p with
      toFeedbackBuffer := sent
      pendingCredits := update p.pendingCredits f.vc (occupancy - 1) }
  else do
    let sent ← p.toSharedBuffer.sendingFlit f
    return { p with toSharedBuffer := sent }

def freeSlotFor (p : SimpleFeedbackBuffer) (now vc : ℤ) (available empty : Bool) :
    Except Fault SimpleFeedbackBuffer :=
  if p.flitSentTime vc ≠ [] ∧ p.pendingCredits vc = 0 then do
    let freed ← p.toFeedbackBuffer.freeSlotFor now vc available empty
    return { p with toFeedbackBuffer := freed }
  else do
    require (.assertion "!_flit_sent_time[vc].empty()")
      (p.pendingCredits vc > 0 → p.flitSentTime vc ≠ [])
    let pending := if p.pendingCredits vc > 0 then p.pendingCredits vc - 1
      else p.pendingCredits vc
    let freed ← p.toSharedBuffer.freeSlotFor vc available empty
    return { p with
      toSharedBuffer := freed
      pendingCredits := update p.pendingCredits vc pending }

end SimpleFeedbackBuffer

/-! ## The seven policies -/

/-- A `BufferPolicy` object.  Each constructor is one of the classes. -/
inductive Policy where
  | private_ (vcBufSize : ℤ)
  | shared (p : SharedBuffer)
  | limited (p : LimitedBuffer)
  | dynamic (p : LimitedBuffer)
  | shifting (p : LimitedBuffer)
  | feedback (p : FeedbackBuffer)
  | simplefeedback (p : SimpleFeedbackBuffer)

namespace Policy

/-- `BufferPolicy::New`; `minLatency` is what `SetMinLatency` is called with afterwards. -/
def new (cfg : BufferConfig) (minLatency : ℤ) : Except Fault Policy :=
  match cfg.bufferPolicy with
  | .private_ => do
    let size := if cfg.bufSize ≤ 0 then cfg.vcBufSize else cfg.bufSize / cfg.numVCs
    require (.assertion "_vc_buf_size > 0") (0 < size)
    return .private_ size
  | .shared => do return .shared (← SharedBuffer.new cfg)
  | .limited => do return .limited (← LimitedBuffer.new cfg cfg.maxHeldSlots)
  | .dynamic => do return .dynamic (← LimitedBuffer.new cfg (-1))
  | .shifting => do return .shifting (← LimitedBuffer.new cfg (-1))
  | .feedback => do return .feedback (← FeedbackBuffer.new cfg minLatency)
  | .simplefeedback => do
    let p ← FeedbackBuffer.new cfg minLatency
    return .simplefeedback { p with }

def takeBuffer : Policy → Except Fault Policy
  | .limited p => do return .limited (← p.takeBuffer)
  | .dynamic p => do return .dynamic (← p.takeBufferWith "_active_vcs > 0" LimitedBuffer.evenShare)
  | .shifting p => do return .shifting (← p.takeBufferWith "_active_vcs" LimitedBuffer.shiftedShare)
  | p => .ok p

/-- `occupancy` is `OccupancyFor(f->vc)` of the owner, the flit included. -/
def sendingFlit (now : ℤ) (f : Flit) (occupancy : ℤ) : Policy → Except Fault Policy
  | .private_ vcBufSize =>
    if occupancy > vcBufSize then .error (.vcBufferOverflow f.vc) else .ok (.private_ vcBufSize)
  | .shared p => do return .shared (← p.sendingFlit f)
  | .limited p => do return .limited (← p.sendingFlit f)
  | .dynamic p => do return .dynamic (← p.sendingFlitWith LimitedBuffer.evenShare f)
  | .shifting p => do return .shifting (← p.sendingFlitWith LimitedBuffer.shiftedShare f)
  | .feedback p => do return .feedback (← p.sendingFlit now f)
  | .simplefeedback p => do return .simplefeedback (← p.sendingFlit now f occupancy)

def freeSlotFor (now vc : ℤ) (available empty : Bool) : Policy → Except Fault Policy
  | .private_ vcBufSize => .ok (.private_ vcBufSize)
  | .shared p => do return .shared (← p.freeSlotFor vc available empty)
  | .limited p => do
    return .limited { p with toSharedBuffer := ← p.toSharedBuffer.freeSlotFor vc available empty }
  | .dynamic p => do
    return .dynamic { p with toSharedBuffer := ← p.toSharedBuffer.freeSlotFor vc available empty }
  | .shifting p => do
    return .shifting { p with toSharedBuffer := ← p.toSharedBuffer.freeSlotFor vc available empty }
  | .feedback p => do return .feedback (← p.freeSlotFor now vc available empty)
  | .simplefeedback p => do return .simplefeedback (← p.freeSlotFor now vc available empty)

def isFullFor (now vc occupancy : ℤ) : Policy → Bool
  | .private_ vcBufSize => occupancy ≥ vcBufSize
  | .shared p => p.isFullFor vc
  | .limited p | .dynamic p | .shifting p => p.isFullFor vc occupancy
  | .feedback p => p.isFullFor now vc occupancy
  | .simplefeedback p => p.isFullFor now vc occupancy

def availableFor (now vc occupancy : ℤ) : Policy → ℤ
  | .private_ vcBufSize => vcBufSize - occupancy
  | .shared p => p.availableFor vc
  | .limited p | .dynamic p | .shifting p => p.availableFor vc occupancy
  | .feedback p => p.availableFor now vc occupancy
  | .simplefeedback p => p.availableFor now vc occupancy

def limitFor (now vc : ℤ) : Policy → ℤ
  | .private_ vcBufSize => vcBufSize
  | .shared p => p.limitFor vc
  | .limited p | .dynamic p | .shifting p => p.limitFor vc
  | .feedback p => p.limitFor now vc
  | .simplefeedback p => p.limitFor now vc

end Policy

/-! ## BufferState -/

structure BufferState where
  vcs : ℕ
  size : ℤ
  waitForTailCredit : Bool
  policy : Policy
  occupancy : ℤ := 0
  vcOccupancy : ℤ → ℤ := fun _ => 0
  /-- Who holds a VC; negative when nobody does. -/
  inUseBy : ℤ → ℤ := fun _ => -1
  tailSent : ℤ → Bool := fun _ => false

namespace BufferState

def new (cfg : BufferConfig) (minLatency : ℤ) : Except Fault BufferState := do
  let policy ← Policy.new cfg minLatency
  return {
    vcs := cfg.numVCs
    size := cfg.size
    waitForTailCredit := cfg.waitForTailCredit
    policy := policy }

def isAvailableFor (b : BufferState) (vc : ℤ) : Bool := b.inUseBy vc < 0

def isEmptyFor (b : BufferState) (vc : ℤ) : Bool := b.vcOccupancy vc = 0

def isFull (b : BufferState) : Bool := b.occupancy = b.size

def isFullFor (b : BufferState) (now vc : ℤ) : Bool := b.policy.isFullFor now vc (b.vcOccupancy vc)

def availableFor (b : BufferState) (now vc : ℤ) : ℤ :=
  b.policy.availableFor now vc (b.vcOccupancy vc)

def limitFor (b : BufferState) (now vc : ℤ) : ℤ := b.policy.limitFor now vc

/-- The assertion `( vc >= 0 ) && ( vc < _vcs )`. -/
def IsVC (b : BufferState) (vc : ℤ) : Prop := 0 ≤ vc ∧ vc < b.vcs

instance (b : BufferState) (vc : ℤ) : Decidable (b.IsVC vc) := inferInstanceAs (Decidable (_ ∧ _))

/-- One round of the loop of `ProcessCredit`. -/
def processCreditFor (now : ℤ) (b : BufferState) (vc : ℤ) : Except Fault BufferState := do
  require (.assertion "( vc >= 0 ) && ( vc < _vcs )") (b.IsVC vc)
  require (.idleCredit vc) (¬ (b.waitForTailCredit ∧ b.inUseBy vc < 0))
  require .occupancyBelowZero (0 ≤ b.occupancy - 1)
  require (.vcOccupancyBelowZero vc) (0 ≤ b.vcOccupancy vc - 1)
  let releases := b.waitForTailCredit && b.vcOccupancy vc - 1 = 0 && b.tailSent vc
  let freed := { b with
    occupancy := b.occupancy - 1
    vcOccupancy := update b.vcOccupancy vc (b.vcOccupancy vc - 1)
    inUseBy := if releases then update b.inUseBy vc (-1) else b.inUseBy }
  let policy ← b.policy.freeSlotFor now vc (freed.isAvailableFor vc) (freed.isEmptyFor vc)
  return { freed with policy := policy }

def processCredit (now : ℤ) (b : BufferState) (c : Credit) : Except Fault BufferState :=
  c.vc.foldlM (processCreditFor now) b

def sendingFlit (now : ℤ) (b : BufferState) (f : Flit) : Except Fault BufferState := do
  require (.assertion "f && ( vc >= 0 ) && ( vc < _vcs )") (b.IsVC f.vc)
  require .bufferOverflow (b.occupancy + 1 ≤ b.size)
  let policy ← b.policy.sendingFlit now f (b.vcOccupancy f.vc + 1)
  return { b with
    occupancy := b.occupancy + 1
    vcOccupancy := update b.vcOccupancy f.vc (b.vcOccupancy f.vc + 1)
    policy := policy
    tailSent := if f.tail then update b.tailSent f.vc true else b.tailSent
    inUseBy := if f.tail ∧ b.waitForTailCredit = false then update b.inUseBy f.vc (-1)
      else b.inUseBy }

def takeBuffer (b : BufferState) (vc tag : ℤ) : Except Fault BufferState := do
  require (.assertion "( vc >= 0 ) && ( vc < _vcs )") (b.IsVC vc)
  require (.bufferTaken vc) (b.inUseBy vc < 0)
  let policy ← b.policy.takeBuffer
  return { b with
    inUseBy := update b.inUseBy vc (toInt tag)
    tailSent := update b.tailSent vc false
    policy := policy }

end BufferState

/-! ## The faults of the policies -/

/-- The faults a policy can raise. -/
def Fault.OfPolicy : Fault → Prop
  | .privateBelowZero _ | .sharedBelowZero | .activeVCsBelowZero | .vcBufferOverflow _
  | .sharedOverflow | .tooManyActiveVCs | .assertion _ => True
  | _ => False

/-- The faults of the shared policy: a counter runs over or under. -/
def Fault.OfSlots : Fault → Prop
  | .privateBelowZero _ | .sharedBelowZero | .sharedOverflow => True
  | _ => False

theorem Fault.OfSlots.ofPolicy {e : Fault} (h : e.OfSlots) : e.OfPolicy := by
  cases e with
  | privateBelowZero i | sharedBelowZero | sharedOverflow => trivial
  | _ => exact h.elim

section PolicyFaults

/-- The policy returns, or raises a fault of its own. -/
abbrev Raises {α : Type} (x : Except Fault α) : Prop := Ends (fun _ => True) Fault.OfPolicy x

/-- The slots are counted, or one of the counters runs over or under. -/
abbrev CountsSlots {α : Type} (x : Except Fault α) : Prop := Ends (fun _ => True) Fault.OfSlots x

theorem CountsSlots.raises {α : Type} {x : Except Fault α} (h : CountsSlots x) : Raises x :=
  h.mono (fun _ => id) fun _ => Fault.OfSlots.ofPolicy

theorem SharedBuffer.processFreeSlot_counts (p : SharedBuffer) (vc : ℤ) :
    CountsSlots (p.processFreeSlot vc) := by
  refine .ite (fun _ => .error trivial) fun _ => .ite (fun _ => ?_) fun _ => .returns _
  exact .ite (fun _ => .error trivial) fun _ => .returns _

theorem SharedBuffer.takeSlot_counts (p : SharedBuffer) (vc : ℤ) : CountsSlots (p.takeSlot vc) := by
  refine .ite (fun _ => .returns _) fun _ => .ite (fun _ => ?_) fun _ => .returns _
  exact .ite (fun _ => .error trivial) fun _ => .returns _

theorem SharedBuffer.releaseReserved_counts (vc : ℤ) :
    ∀ (n : ℕ) (p : SharedBuffer), CountsSlots (releaseReserved vc n p)
  | 0, p => .returns p
  | n + 1, _ => (processFreeSlot_counts _ vc).bind fun q _ => releaseReserved_counts vc n q

theorem SharedBuffer.sendingFlit_counts (p : SharedBuffer) (f : Flit) :
    CountsSlots (p.sendingFlit f) := by
  refine (p.takeSlot_counts f.vc).bind fun q _ => ?_
  exact .ite (fun _ => releaseReserved_counts _ _ q) fun _ => .returns q

theorem SharedBuffer.freeSlotFor_counts (p : SharedBuffer) (vc : ℤ) (available empty : Bool) :
    CountsSlots (p.freeSlotFor vc available empty) :=
  .ite (fun _ => .returns _) fun _ => p.processFreeSlot_counts vc

theorem LimitedBuffer.takeBuffer_raises (p : LimitedBuffer) : Raises p.takeBuffer :=
  .ite (fun _ => .error trivial) fun _ => .returns _

theorem LimitedBuffer.sendingFlit_raises (p : LimitedBuffer) (f : Flit) :
    Raises (p.sendingFlit f) := by
  refine (p.toSharedBuffer.sendingFlit_counts f |>.raises).bind fun q _ => ?_
  refine .ite (fun _ => ?_) fun _ => .returns _
  exact .ite (fun _ => .error trivial) fun _ => .returns _

theorem LimitedBuffer.takeBufferWith_raises (text : String) (share : LimitedBuffer → ℤ)
    (p : LimitedBuffer) : Raises (p.takeBufferWith text share) := by
  refine p.takeBuffer_raises.bind fun q _ => .require (fun _ => ?_) fun _ => trivial
  exact .require (fun _ => .returns _) fun _ => trivial

theorem LimitedBuffer.sendingFlitWith_raises (share : LimitedBuffer → ℤ) (p : LimitedBuffer)
    (f : Flit) : Raises (p.sendingFlitWith share f) :=
  (p.sendingFlit_raises f).bind fun _ _ => .require (fun _ => .returns _) fun _ => trivial

theorem FeedbackBuffer.freeSlotFor_raises (p : FeedbackBuffer) (now vc : ℤ)
    (available empty : Bool) : Raises (p.freeSlotFor now vc available empty) := by
  refine (p.toSharedBuffer.freeSlotFor_counts vc available empty |>.raises).bind fun q _ => ?_
  cases p.flitSentTime vc with
  | nil => exact .error trivial
  | cons sent rest => exact .returns _

theorem Policy.takeBuffer_raises (p : Policy) : Raises p.takeBuffer := by
  cases p with
  | limited p => exact p.takeBuffer_raises.map _
  | dynamic p | shifting p => exact (p.takeBufferWith_raises _ _).map _
  | _ => exact .returns _

theorem Policy.sendingFlit_raises (now : ℤ) (f : Flit) (occupancy : ℤ) (p : Policy) :
    Raises (p.sendingFlit now f occupancy) := by
  cases p with
  | private_ size => exact .ite (fun _ => .error trivial) fun _ => .returns _
  | shared p => exact (p.sendingFlit_counts f |>.raises).map _
  | limited p => exact (p.sendingFlit_raises f).map _
  | dynamic p | shifting p => exact (p.sendingFlitWith_raises _ f).map _
  | feedback p => exact ((p.toSharedBuffer.sendingFlit_counts f |>.raises).map _).map _
  | simplefeedback p =>
    refine Ends.map (.ite (fun _ => .require (fun _ => ?_) fun _ => trivial) fun _ => ?_) _
    · exact ((p.toSharedBuffer.sendingFlit_counts f |>.raises).map _).map _
    · exact (p.toSharedBuffer.sendingFlit_counts f |>.raises).map _

theorem Policy.freeSlotFor_raises (now vc : ℤ) (available empty : Bool) (p : Policy) :
    Raises (p.freeSlotFor now vc available empty) := by
  cases p with
  | private_ size => exact .returns _
  | shared p => exact (p.freeSlotFor_counts vc available empty |>.raises).map _
  | limited p => exact (p.toSharedBuffer.freeSlotFor_counts vc available empty |>.raises).map _
  | dynamic p => exact (p.toSharedBuffer.freeSlotFor_counts vc available empty |>.raises).map _
  | shifting p => exact (p.toSharedBuffer.freeSlotFor_counts vc available empty |>.raises).map _
  | feedback p => exact (p.freeSlotFor_raises now vc available empty).map _
  | simplefeedback p =>
    refine Ends.map (.ite (fun _ => ?_) fun _ => .require (fun _ => ?_) fun _ => trivial) _
    · exact (p.toFeedbackBuffer.freeSlotFor_raises now vc available empty).map _
    · exact (p.toSharedBuffer.freeSlotFor_counts vc available empty |>.raises).map _

end PolicyFaults

/-! ## What the operations do -/

namespace BufferState

variable {now : ℤ} {b b' : BufferState}

theorem takeBuffer_eq_ok {vc tag : ℤ} (h : b.takeBuffer vc tag = .ok b') :
    b.IsVC vc ∧ b.inUseBy vc < 0 ∧ ∃ policy, b.policy.takeBuffer = .ok policy ∧ b' = { b with
      inUseBy := update b.inUseBy vc (toInt tag)
      tailSent := update b.tailSent vc false
      policy := policy } := by
  obtain ⟨hvc, h⟩ := require_ok.mp h
  obtain ⟨hfree, h⟩ := require_ok.mp h
  obtain ⟨policy, hpolicy, h⟩ := bind_ok.mp h
  exact ⟨hvc, hfree, policy, hpolicy, (return_ok.mp h).symm⟩

theorem sendingFlit_eq_ok {f : Flit} (h : b.sendingFlit now f = .ok b') :
    b.IsVC f.vc ∧ b.occupancy + 1 ≤ b.size ∧
      ∃ policy, b.policy.sendingFlit now f (b.vcOccupancy f.vc + 1) = .ok policy ∧ b' = { b with
          occupancy := b.occupancy + 1
          vcOccupancy := update b.vcOccupancy f.vc (b.vcOccupancy f.vc + 1)
          policy := policy
          tailSent := if f.tail then update b.tailSent f.vc true else b.tailSent
          inUseBy := if f.tail ∧ b.waitForTailCredit = false then update b.inUseBy f.vc (-1)
            else b.inUseBy } := by
  obtain ⟨hvc, h⟩ := require_ok.mp h
  obtain ⟨hsize, h⟩ := require_ok.mp h
  obtain ⟨policy, hpolicy, h⟩ := bind_ok.mp h
  exact ⟨hvc, hsize, policy, hpolicy, (return_ok.mp h).symm⟩

/-- Whether the credit for `vc` gives the VC free: its packet is gone. -/
def Releases (b : BufferState) (vc : ℤ) : Prop :=
  b.waitForTailCredit = true ∧ b.vcOccupancy vc = 1 ∧ b.tailSent vc = true

theorem processCreditFor_eq_ok {vc : ℤ} (h : b.processCreditFor now vc = .ok b') :
    b.IsVC vc ∧ 1 ≤ b.vcOccupancy vc ∧ b'.occupancy = b.occupancy - 1 ∧
      b'.vcOccupancy = update b.vcOccupancy vc (b.vcOccupancy vc - 1) ∧
      (b'.inUseBy = b.inUseBy ∨ b.Releases vc ∧ b'.inUseBy = update b.inUseBy vc (-1)) ∧
      b'.tailSent = b.tailSent ∧ b'.vcs = b.vcs ∧ b'.size = b.size ∧
      b'.waitForTailCredit = b.waitForTailCredit ∧
      b.policy.freeSlotFor now vc (b'.isAvailableFor vc) (b'.isEmptyFor vc) = .ok b'.policy := by
  obtain ⟨hvc, h⟩ := require_ok.mp h
  obtain ⟨-, h⟩ := require_ok.mp h
  obtain ⟨-, h⟩ := require_ok.mp h
  obtain ⟨hpos, h⟩ := require_ok.mp h
  obtain ⟨policy, hpolicy, rfl⟩ := bind_return_ok.mp h
  refine ⟨hvc, by omega, rfl, rfl, ?_, rfl, rfl, rfl, rfl, hpolicy⟩
  by_cases hrel : (b.waitForTailCredit && b.vcOccupancy vc - 1 = 0 && b.tailSent vc) = true
  · refine .inr ⟨?_, if_pos hrel⟩
    simp only [Bool.and_eq_true, decide_eq_true_eq] at hrel
    exact ⟨hrel.1.1, by omega, hrel.2⟩
  · exact .inl (if_neg hrel)

/-- A VC that nobody holds is not taken. -/
def FreeStays (b b' : BufferState) : Prop := ∀ vc, b.inUseBy vc < 0 → b'.inUseBy vc < 0

theorem FreeStays.refl (b : BufferState) : FreeStays b b := fun _ h => h

theorem FreeStays.trans {b₁ b₂ b₃ : BufferState} (h₁₂ : FreeStays b₁ b₂)
    (h₂₃ : FreeStays b₂ b₃) : FreeStays b₁ b₃ := fun vc h => h₂₃ vc (h₁₂ vc h)

theorem freeStays_of_update {vc : ℤ} (h : b'.inUseBy = update b.inUseBy vc (-1)) :
    FreeStays b b' := by
  intro v hv
  rw [h]
  by_cases hvc : v = vc
  · rw [hvc, Function.update_self]
    decide
  · rwa [Function.update_of_ne hvc]

theorem freeStays_sendingFlit {f : Flit} (h : b.sendingFlit now f = .ok b') : FreeStays b b' := by
  obtain ⟨-, -, policy, -, rfl⟩ := sendingFlit_eq_ok h
  by_cases hrel : f.tail ∧ b.waitForTailCredit = false
  · exact freeStays_of_update (if_pos hrel)
  · intro v hv
    simpa only [if_neg hrel] using hv

theorem freeStays_processCredit {c : Credit} (h : b.processCredit now c = .ok b') :
    FreeStays b b' := by
  refine rel_of_foldlM_eq_ok FreeStays.refl FreeStays.trans (fun b₁ b₂ vc _ hstep => ?_) h
  obtain ⟨-, -, -, -, hin | ⟨-, hin⟩, -⟩ := processCreditFor_eq_ok hstep
  · exact fun v hv => (congrFun hin v).trans_lt hv
  · exact freeStays_of_update hin

end BufferState

end BookSim
