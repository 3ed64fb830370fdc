/-
# Flits, credits, faults, and the VC ranges of the traffic classes

A packet travels as a sequence of flits.  `Flit` has the fields of `flit.hpp` that a
modelled function reads; left out are the statistics flags (`record`, `watch`), the packet
type and the lookahead route.  `ClassVCs` is what `InitializeRoutingMap` leaves in
the globals `gBeginVCs`, `gEndVCs` and `gNumVCs`.

A `Credit` is the set of VCs that have a free slot again.  A `Fault` is what the simulator
stops with: a call of `Error`, which ends the process, or a failed assertion.
-/
import BookSim.Lib.Fallible
import BookSim.Lib.KeyedSet
import Mathlib.Algebra.Ring.Int.Defs
import Mathlib.Algebra.Ring.Nat
import Mathlib.Data.Int.Order.Basic
import Mathlib.Data.Nat.Notation

namespace BookSim

/-- A flit.  The defaults are those of `Flit::Reset`. -/
structure Flit where
  /-- The flit's own number; no two flits share one. -/
  id : ℕ
  /-- The number of the packet it belongs to. -/
  pid : ℕ
  /-- The traffic class. -/
  cl : ℕ
  src : ℕ
  dest : ℕ
  /-- The virtual channel it occupies or is about to; negative before injection. -/
  vc : ℤ := -1
  head : Bool := false
  tail : Bool := false
  /-- When the packet was created, and when the flit entered and left the network. -/
  ctime : ℤ := -1
  itime : ℤ := -1
  atime : ℤ := -1
  pri : ℤ := 0
  hops : ℕ := 0
  subnetwork : ℕ := 0
  packetSize : ℕ := 0
  /-- The intermediate destination of a two-phase route, and the phase it is in. -/
  intm : ℤ := -1
  ph : ℤ := -1
  deriving DecidableEq, Repr

/-- What a flit is from its creation to its end, whatever happens to it on the way. -/
structure FlitLabel where
  id : ℕ
  pid : ℕ
  cl : ℕ
  src : ℕ
  dest : ℕ
  head : Bool
  tail : Bool
  ctime : ℤ
  packetSize : ℕ
  deriving DecidableEq, Repr

def Flit.label (f : Flit) : FlitLabel where
  id := f.id
  pid := f.pid
  cl := f.cl
  src := f.src
  dest := f.dest
  head := f.head
  tail := f.tail
  ctime := f.ctime
  packetSize := f.packetSize

/-- A credit: the elements of its `set<int>`, in the order of iteration. -/
structure Credit where
  vc : List ℤ := []
  deriving DecidableEq, Repr

/-- `vc.insert` of a VC; one that is there already is not inserted again. -/
def Credit.insert (c : Credit) (vc : ℤ) : Credit := ⟨KeyedSet.insert id vc c.vc⟩

/-- What a `long` becomes when it is stored in an `int`. -/
def toInt (x : ℤ) : ℤ := x.bmod (2 ^ 32)

theorem toInt_eq_self_iff {x : ℤ} : toInt x = x ↔ -2 ^ 31 ≤ x ∧ x < 2 ^ 31 := by
  unfold toInt
  constructor
  · intro h
    have hlow := Int.le_bmod (x := x) (m := 2 ^ 32) (by decide)
    have hhigh := Int.bmod_lt (x := x) (m := 2 ^ 32) (by decide)
    rw [h] at hlow hhigh
    omega
  · rintro ⟨hlow, hhigh⟩
    exact Int.bmod_eq_of_le (by omega) (by omega)

theorem toInt_eq {x : ℤ} (h₀ : 0 ≤ x) (h : x < 2 ^ 31) : toInt x = x :=
  toInt_eq_self_iff.mpr ⟨by omega, h⟩

/-- The ends of a run: the calls of `Error`, and the assertions. -/
inductive Fault where
  | bufferTaken (vc : ℤ)
  | idleCredit (vc : ℤ)
  | occupancyBelowZero
  | vcOccupancyBelowZero (vc : ℤ)
  | privateBelowZero (i : ℕ)
  | sharedBelowZero
  | activeVCsBelowZero
  | bufferOverflow
  | vcBufferOverflow (vc : ℤ)
  | sharedOverflow
  | tooManyActiveVCs
  | flitBufferOverflow
  | unexpectedFlit (id pid : ℕ) (expected : ℤ)
  | emptyBuffer
  | incorrectOutput (id dest : ℕ)
  | assertion (text : String)
  deriving DecidableEq, Repr

/-- The VC range of every traffic class, and the number of VCs there are.  That no range is
empty is asserted at start-up. -/
structure ClassVCs where
  gBeginVCs : ℕ → ℤ
  gEndVCs : ℕ → ℤ
  gNumVCs : ℕ
  begin_le_end : ∀ cl, gBeginVCs cl ≤ gEndVCs cl

/-- The VC a flit holds is one of its class. -/
def ClassVCs.Holds (vcs : ClassVCs) (f : Flit) : Prop :=
  vcs.gBeginVCs f.cl ≤ f.vc ∧ f.vc ≤ vcs.gEndVCs f.cl

instance (vcs : ClassVCs) (f : Flit) : Decidable (vcs.Holds f) :=
  inferInstanceAs (Decidable (_ ∧ _))

/-- The assertion every routing function starts with: the flit holds a VC of its class, or
it is being injected and holds none yet. -/
def ClassVCs.Admits (vcs : ClassVCs) (f : Flit) (inject : Bool) : Prop :=
  vcs.Holds f ∨ inject = true ∧ f.vc < 0

instance (vcs : ClassVCs) (f : Flit) (inject : Bool) : Decidable (vcs.Admits f inject) :=
  inferInstanceAs (Decidable (_ ∨ _))

end BookSim
