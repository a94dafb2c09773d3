import BlockThreads.Table
import BlockThreads.Value

/-!
# Frames

A thread has one `Frame` for each block on its stack. The frame holds what the block
has to remember: the parameters of a procedure call, what its inputs have reported,
the state of a block that is run again and again.

A frame can be cleared in two ways. `Frame.reset` makes it pristine, `Frame.reuse`
makes it pristine except that a frame in warp mode stays in warp mode.

Results:
1. `reset_eq`: a frame that is reset is a new frame, whatever it held.
2. `reuse_eq`: a frame that is reused is a new frame of its warp mode.
-/

namespace BlockThreads

/-- A stopwatch, by the time in milliseconds at which it was started. -/
structure Timer where
  started : Nat
  deriving DecidableEq, Repr

abbrev Params := Table String Value

/-- What a block keeps between two runs of itself. -/
structure Context where
  timer : Option Timer := none
  values : Table String Value := .empty

instance : Inhabited Context := ⟨{}⟩

/-- The block that a frame is running, with its opcode. -/
structure Operation where
  id : String
  opcode : String
  deriving DecidableEq, Repr

/-- What is remembered for one level of a stack. -/
structure Frame where
  isLoop : Bool := false
  /-- Run without giving way. -/
  warpMode : Bool := false
  /-- What the block reported that was just run at the wish of this one. -/
  justReported : Option Value := none
  /-- The reporter whose inputs are in `reported`. -/
  reporting : Option String := none
  reported : Option (Table String Value) := none
  /-- A reporter inside this block has not finished. -/
  waitingReporter : Bool := false
  /-- Only the frames of procedure calls have parameters. -/
  params : Option Params := none
  context : Option Context := none
  op : Option Operation := none

namespace Frame

instance : Inhabited Frame := ⟨{}⟩

def fresh (warpMode : Bool) : Frame := { warpMode }

def reset (_ : Frame) : Frame := {}

/-- Clears a frame for the next block at its level: its warp mode stays. -/
def reuse (f : Frame) : Frame := { f.reset with warpMode := f.warpMode }

/-- A frame that is reset is a new frame, whatever it held. -/
theorem reset_eq (f : Frame) : f.reset = fresh false := rfl

/-- A frame that is reused is a new frame of its warp mode. -/
theorem reuse_eq (f : Frame) : f.reuse = fresh f.warpMode := rfl

end Frame

end BlockThreads
