import BlockThreads.Program

/-!
# Threads

A `Thread` is a running script. Besides its open part it has things that nobody
changes from outside: the block it started from, the target it runs for, the container
whose blocks it runs, the pool its frames come from, and, once it is compiled, the
coroutine of its script and the table of its procedures.
-/

namespace BlockThreads

/-- The name of a container. The container without a name is the palette of a host
that has no other. -/
abbrev ContainerId := Option String

abbrev PoolId := String

/-- A sprite or the stage. -/
structure Target where
  id : String
  name : String
  /-- The blocks of this target. -/
  container : ContainerId
  deriving DecidableEq, Repr

/-- The thread that a procedure is bound to, and how it had been started then. -/
structure Binding where
  thread : String
  stackClick : Bool
  deriving DecidableEq, Repr

/-- A compiled procedure, bound to one thread. -/
structure Procedure where
  binding : Binding
  /-- The coroutine of a call with these arguments. -/
  call : List Value → Coroutine

/-- A running script. -/
structure Thread extends ThreadState where
  /-- The block the script starts from. -/
  top : String
  target : Target
  /-- The blocks this thread runs, not always those of its target. -/
  container : ContainerId
  pool : PoolId
  /-- The compiled script, unless it is being stepped right now or has ended. -/
  coroutine : Option Coroutine := none
  procedures : Table String Procedure := .empty

namespace Thread

/-- The name of the thread of a script of a target. No such name holds the mark
between the two parts elsewhere. -/
def nameOf (target top : String) : String := target ++ "&" ++ top

def name (t : Thread) : String := nameOf t.target.id t.top

/-- How a procedure is bound to this thread. -/
def binding (t : Thread) : Binding := ⟨t.name, t.stackClick⟩

/-- Whether the top of the stack is the block the script starts from. -/
def atStackTop (t : Thread) : Bool := t.peek == some t.top

def procedure? (t : Thread) (code : String) : Option Procedure := t.procedures.get? code

def editState (edit : ThreadState → ThreadState) (t : Thread) : Thread :=
  { t with toThreadState := edit t.toThreadState }

@[simp]
theorem toThreadState_editState (edit : ThreadState → ThreadState) (t : Thread) :
    (t.editState edit).toThreadState = edit t.toThreadState := rfl

end Thread

end BlockThreads
