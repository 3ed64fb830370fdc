/-
# Channel — the links of a network

A channel is a delay line for flits or for credits.  In a cycle

    Send            what is sent waits in the input register
    ReadInputs      … moves on to the wait queue, with the time it is due
    WriteOutputs    the item that is due is put into the output register
    Receive         … where it is read in the next cycle
-/
import BookSim.Flit
import BookSim.Lib.Fallible

namespace BookSim

structure TimedChannel (α : Type) where
  delay : ℤ := 1
  input : Option α := none
  /-- The due times are stored in an `int`. -/
  waitQueue : List (ℤ × α) := []
  output : Option α := none

namespace TimedChannel

variable {α : Type} {c : TimedChannel α} {now : ℤ}

def send (c : TimedChannel α) (data : α) : TimedChannel α := { c with input := some data }

def readInputs (now : ℤ) (c : TimedChannel α) : TimedChannel α :=
  match c.input with
  | none => c
  | some data =>
    { c with input := none, waitQueue := c.waitQueue ++ [(toInt (now + c.delay - 1), data)] }

def writeOutputs (now : ℤ) (c : TimedChannel α) : Except Fault (TimedChannel α) :=
  match c.waitQueue with
  | [] => .ok { c with output := none }
  | (time, data) :: rest =>
    if now < time then .ok { c with output := none }
    else do
      require (.assertion "GetSimTime() == time") (now = time)
      return { c with output := some data, waitQueue := rest }

theorem input_readInputs : (c.readInputs now).input = none := by
  unfold readInputs
  cases h : c.input with
  | none => exact h
  | some data => rfl

end TimedChannel

end BookSim
