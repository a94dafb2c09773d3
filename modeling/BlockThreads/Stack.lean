import BlockThreads.Host

/-!
# The stack of a thread

The operations that move a thread through its script: going deeper and coming back,
going on to the next block, and stopping. Going deeper takes a frame from the pool of
the thread, coming back returns it.

A script is stopped by unwinding the stack. A level stands in the way if it waits for
a reporter, or if it calls a procedure: then the script around the call goes on behind
the call, which has already run. If nothing stands in the way the thread is done.

Results:
1. `stack_push`, `stack_drop`: the effect of one step on the stack.
2. `retire_state`: what a retired thread looks like.
-/

namespace BlockThreads

/-- How many of the frames around the top one are looked at for a recursive call. -/
def recursionCheckDepth : Nat := 5

namespace Machine

/-! ## Going deeper and coming back -/

/-- Puts a frame on top, in the warp mode of the frame that is there. -/
def pushFrame (m : Machine) : Machine :=
  let created := m.createFrame m.state.isWarpMode
  created.2.editState fun s => { s with frames := created.1 :: s.frames }

/-- Pushes a block. It gets a frame unless there is one left for it. -/
def push (id : String) (m : Machine) : Machine :=
  let m := m.editState fun s => { s with stack := some id :: s.stack }
  if m.state.frames.length < m.state.stack.length then m.pushFrame else m

def pushAll (ids : List String) (m : Machine) : Machine := ids.foldl (fun m id => m.push id) m

/-- Pushes a block and notes it in its frame. -/
def enter (id : String) (m : Machine) : Machine :=
  let opcode := ((m.host.container m.thread.container).block? id).elim "" Block.opcode
  (m.push id).editState
    (ThreadState.editFrame fun frame => { frame with op := some ⟨id, opcode⟩ })

/-- Drops the top level. Its frame goes back to the pool. -/
def drop (m : Machine) : Machine :=
  let m := m.releaseFrames (m.state.frames.take 1)
  m.editState fun s => { s with stack := s.stack.tail, frames := s.frames.tail }

def pop (m : Machine) : Option String × Machine := (m.state.peek, m.drop)

/-! ## Going on -/

/-- The block that runs after the top one at the same level. -/
def nextId (m : Machine) : Option String :=
  (m.state.peek.bind m.block?).bind Block.next

def goToNext (m : Machine) : Machine := m.editState (ThreadState.reuse m.nextId)

/-- Whether an id means a block that calls a procedure. -/
def isCall (id : String) (m : Machine) : Bool := (m.block? id).any Block.isCall

/-! ## Stopping -/

/-- Drops at most `levels` levels, down to one that stands in the way. -/
def unwind : Nat → Machine → Machine
  | 0, m => m
  | levels + 1, m =>
    match m.state.peek with
    | none => m
    | some id =>
      if m.state.isWaiting then m
      else if m.isCall id then m.goToNext
      else unwind levels m.drop

/-- Stops the script that is running on the thread. -/
def stopScript (m : Machine) : Machine :=
  let m := unwind m.state.stack.length m
  if m.state.stack.isEmpty then m.editState ThreadState.finish else m

/-- Drops everything on the stack and finishes the thread. -/
def retire (m : Machine) : Machine :=
  let m := (m.log (.retiring m.thread.name)).releaseFrames m.state.frames.reverse
  m.editState fun s => { s with stack := [], frames := [] }.finish

/-- Retires a thread that is not to be restarted. -/
def kill (m : Machine) : Machine := (m.editState fun s => { s with isKilled := true }).retire

/-! ## Recursive calls -/

/-- Whether a frame runs a call of a procedure. -/
def callsProcedure (code : String) (m : Machine) (frame : Frame) : Bool :=
  match frame.op.bind fun op => m.block? op.id with
  | some block => block.proccode == some code
  | none => false

/-- Whether calling a procedure now looks like a recursive call: one of the nearest
frames around the top one runs a call of it. -/
def isRecursive (code : String) (m : Machine) : Bool :=
  (m.state.frames.tail.take recursionCheckDepth).any (m.callsProcedure code)

/-! ## The base of the stack -/

/-- Puts a block in the place of the one at the base of the stack. -/
def replaceBase (id : String) (m : Machine) : Machine :=
  if m.state.stack.isEmpty then m.push id
  else m.editState fun s => { s with stack := ThreadState.replaceLast id s.stack }

/-! ## Warp mode -/

/-- Starts the warp timer, unless it runs. -/
def startWarpTimer (m : Machine) : Machine :=
  m.editState fun s => { s with warpTimer := some (s.warpTimer.getD ⟨m.host.now⟩) }

/-- Whether the warp timer runs and the time for scripts in warp mode is up. Whole
milliseconds are counted, and it takes a moment to look at the clock: when the count
reaches the limit, a little more than that time has passed. -/
def isWarpBudgetExceeded (m : Machine) : Bool :=
  m.state.warpTimer.any fun timer => m.host.config.warpBudget ≤ m.host.now - timer.started

/-! ## Laws -/

@[simp]
theorem stack_pushFrame (m : Machine) : m.pushFrame.state.stack = m.state.stack := rfl

@[simp]
theorem stack_push (id : String) (m : Machine) :
    (m.push id).state.stack = some id :: m.state.stack := by
  simp only [push]
  split <;> rfl

@[simp]
theorem stack_drop (m : Machine) : m.drop.state.stack = m.state.stack.tail := rfl

@[simp]
theorem frames_drop (m : Machine) : m.drop.state.frames = m.state.frames.tail := rfl

/-- What a retired thread looks like. -/
theorem retire_state (m : Machine) :
    m.retire.state = { m.state with stack := [], frames := [], glow := false, status := .done } :=
  rfl

end Machine

end BlockThreads
