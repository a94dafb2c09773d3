import BlockThreads.Stack

/-!
# Blocks of the older kind

A legacy block is called from compiled code. It expects to be on the stack, so the
base of the stack is replaced by a block id for it to look at; and it expects a
context that outlasts its run, so the thread carries the one that its caller hands
over. What the block asks for in the way of branches is noted for the caller.

Results:
1. `legacyContext_bindBlock`: the context that was handed over is the one in sight.
2. `frames_bindBlock`: binding does not touch the frames of a stack that is not empty.
-/

namespace BlockThreads

namespace Machine

/-- Binds the thread to a legacy block. Without a context it goes on with the one that
the thread carries, or a new one. -/
def bindBlock (block : String) (context : Option Context) (m : Machine) : Machine :=
  let context := context.getD (m.state.legacyContext.getD {})
  (m.replaceBase block).editState fun s => { s with legacyContext := some context }

/-- The context in sight, a new one if there is none. -/
def context (m : Machine) : Context := m.state.legacyContext.getD {}

def editContext (edit : Context → Context) (m : Machine) : Machine :=
  m.editState fun s => { s with legacyContext := some (edit m.context) }

/-- Starts the timer of the context, unless it runs. -/
def startContextTimer (m : Machine) : Machine :=
  m.editContext fun c => { c with timer := some (c.timer.getD ⟨m.host.now⟩) }

/-! ## Laws -/

/-- The context that was handed over is the one in sight. -/
theorem legacyContext_bindBlock (block : String) (context : Context) (m : Machine) :
    (m.bindBlock block (some context)).state.legacyContext = some context := rfl

/-- Binding does not touch the frames of a stack that is not empty. -/
theorem frames_bindBlock (block : String) (context : Option Context) {m : Machine}
    (h : m.state.stack ≠ []) : (m.bindBlock block context).state.frames = m.state.frames := by
  have hb : m.replaceBase block =
      m.editState fun s => { s with stack := ThreadState.replaceLast block s.stack } := by
    simp [replaceBase, h]
  simp only [bindBlock, hb]
  rfl

end Machine

end BlockThreads
