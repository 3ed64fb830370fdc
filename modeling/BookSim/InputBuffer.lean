/-
# InputBuffer — the buffers at a router input

A `Buffer` holds the flits that have arrived at one router input, a queue for each VC.  A `VC`
also carries the state of the packet at its front:

    idle        no packet
    routing     its route is being computed
    vc_alloc    it has a route and waits for an output VC
    active      it has an output VC, and its flits compete for the switch

`AddFlit` checks that the flits of a packet are not mixed with those of another: after a flit
that is no tail it expects the same packet number.  `_last_id` and `_last_pid` are written and
never read, and left out.
-/
import BookSim.Flit
import BookSim.OutputSet
import BookSim.Lib.Fallible

namespace BookSim

open Function (update)

inductive VCState where
  | idle | routing | vc_alloc | active
  deriving DecidableEq, Repr

/-- Where the priority of a VC comes from. -/
inductive VCPriority where
  | local_age_based | queue_length_based | hop_count_based | none | other
  deriving DecidableEq, Repr

structure VCConfig where
  priType : VCPriority := .other
  priorityDonation : Bool := false

structure VC where
  state : VCState := .idle
  buffer : List Flit := []
  routeSet : Option OutputSet := none
  outPort : ℤ := -1
  outVC : ℤ := -1
  pri : ℤ := 0
  expectedPid : ℤ := -1
  /-- All the flits that have ever been added.  The source keeps no such record; it is here
  for the theorems to speak about. -/
  entered : List FlitLabel := []

namespace VC

variable {cfg : VCConfig} {now : ℤ} {v v' : VC} {f : Flit}

def setRouteSet (v : VC) (outputSet : OutputSet) : VC :=
  { v with routeSet := some outputSet, outPort := -1, outVC := -1 }

def setOutput (v : VC) (port vc : ℤ) : VC := { v with outPort := port, outVC := vc }

/-- The priority of the packet at the front; a flit behind it may donate its own. -/
def frontPri (cfg : VCConfig) (v : VC) : ℤ :=
  match v.buffer with
  | [] => v.pri
  | f :: rest =>
    match cfg.priType with
    | .queue_length_based => rest.length + 1
    | .none => v.pri
    | priType =>
      if priType ≠ .local_age_based ∧ cfg.priorityDonation then
        (rest.foldl (fun df bf => if bf.pri > df.pri then bf else df) f).pri
      else f.pri

def updatePriority (cfg : VCConfig) (v : VC) : VC := { v with pri := v.frontPri cfg }

/-- The packet number that is expected after `f`. -/
def expectAfter (v : VC) (f : Flit) : ℤ :=
  if 0 ≤ v.expectedPid then if f.tail then -1 else v.expectedPid
  else if f.tail then v.expectedPid else toInt f.pid

/-- The priority a flit gets when it is added. -/
def arrivalPri (cfg : VCConfig) (now : ℤ) (f : Flit) : ℤ :=
  match cfg.priType with
  | .local_age_based => toInt (2 ^ 31 - 1 - now)
  | .hop_count_based => f.hops
  | _ => f.pri

def addFlit (cfg : VCConfig) (now : ℤ) (v : VC) (f : Flit) : Except Fault VC := do
  require (.unexpectedFlit f.id f.pid v.expectedPid)
    (0 ≤ v.expectedPid → (f.pid : ℤ) = v.expectedPid)
  require (.assertion "f->pri >= 0") (cfg.priType = .local_age_based → 0 ≤ arrivalPri cfg now f)
  return updatePriority cfg { v with
    expectedPid := v.expectAfter f
    buffer := v.buffer ++ [{ f with pri := arrivalPri cfg now f }]
    entered := v.entered ++ [f.label] }

def removeFlit (cfg : VCConfig) (v : VC) : Except Fault (Flit × VC) :=
  match v.buffer with
  | [] => .error .emptyBuffer
  | f :: rest => .ok (f, updatePriority cfg { v with buffer := rest })

theorem addFlit_eq_ok (h : v.addFlit cfg now f = .ok v') :
    (0 ≤ v.expectedPid → (f.pid : ℤ) = v.expectedPid) ∧ ∃ fpri pri, v' = { v with
      expectedPid := v.expectAfter f
      buffer := v.buffer ++ [{ f with pri := fpri }]
      entered := v.entered ++ [f.label]
      pri := pri } := by
  obtain ⟨hexpected, h⟩ := require_ok.mp h
  obtain ⟨-, h⟩ := require_ok.mp h
  exact ⟨hexpected, _, _, (return_ok.mp h).symm⟩

theorem removeFlit_eq_ok (h : v.removeFlit cfg = .ok (f, v')) :
    ∃ rest pri, v.buffer = f :: rest ∧ v' = { v with buffer := rest, pri := pri } := by
  unfold removeFlit at h
  cases hbuffer : v.buffer with
  | nil =>
    simp only [hbuffer] at h
    exact nomatch h
  | cons g rest =>
    simp only [hbuffer] at h
    cases h
    exact ⟨rest, _, rfl, rfl⟩

end VC

/-- The buffer of a router input. -/
structure Buffer where
  size : ℤ
  occupancy : ℤ := 0
  vc : ℤ → VC := fun _ => {}

namespace Buffer

/-- A buffer with one VC replaced. -/
def setVC (b : Buffer) (vc : ℤ) (v : VC) : Buffer := { b with vc := update b.vc vc v }

def addFlit (cfg : VCConfig) (now : ℤ) (b : Buffer) (vc : ℤ) (f : Flit) : Except Fault Buffer := do
  require .flitBufferOverflow (b.occupancy < b.size)
  let v ← (b.vc vc).addFlit cfg now f
  return { b.setVC vc v with occupancy := b.occupancy + 1 }

def removeFlit (cfg : VCConfig) (b : Buffer) (vc : ℤ) : Except Fault (Flit × Buffer) := do
  let removed ← (b.vc vc).removeFlit cfg
  return (removed.1, { b.setVC vc removed.2 with occupancy := b.occupancy - 1 })

variable {cfg : VCConfig} {now vc : ℤ} {b b' : Buffer} {f : Flit}

theorem addFlit_eq_ok (h : b.addFlit cfg now vc f = .ok b') :
    b.occupancy < b.size ∧ ∃ v, (b.vc vc).addFlit cfg now f = .ok v ∧
      b' = { b.setVC vc v with occupancy := b.occupancy + 1 } := by
  obtain ⟨hroom, h⟩ := require_ok.mp h
  obtain ⟨v, hv, h⟩ := bind_ok.mp h
  exact ⟨hroom, v, hv, (return_ok.mp h).symm⟩

theorem removeFlit_eq_ok (h : b.removeFlit cfg vc = .ok (f, b')) :
    ∃ rest pri, (b.vc vc).buffer = f :: rest ∧
      b' = { b.setVC vc { b.vc vc with buffer := rest, pri := pri } with
        occupancy := b.occupancy - 1 } := by
  obtain ⟨⟨g, v⟩, hremoved, h⟩ := bind_ok.mp h
  cases h
  obtain ⟨rest, pri, hbuffer, rfl⟩ := VC.removeFlit_eq_ok hremoved
  exact ⟨rest, pri, hbuffer, rfl⟩

end Buffer

end BookSim
