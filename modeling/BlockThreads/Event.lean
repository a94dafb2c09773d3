import BlockThreads.Script

/-!
# Events

Everything that happens besides the change of a state is an `Event`: what is written
to the log, and every call of a foreign piece of code together with what it got to
see. The events of a run are its trace.

The wording of the log is in `Note.message`.
-/

namespace BlockThreads

/-- How much a note matters. -/
inductive LogLevel where
  | trace
  | debug
  | error
  deriving DecidableEq, Repr

def LogLevel.name : LogLevel → String
  | .trace => "TRACE"
  | .debug => "DEBUG"
  | .error => "ERROR"

/-- What is written to the log. -/
inductive Note where
  /-- A pool had no frame left. -/
  | allocatingFrame
  | retiring (thread : String)
  /-- A compilation that failed before is not tried again. -/
  | notCompiling (top : String) (error : CompileError)
  | usingRemembered (top : String)
  | cannotCompile (target : String) (error : CompileError)
  | rememberingScript (top : String)
  | rememberingError (top : String)
  deriving DecidableEq, Repr

namespace Note

/-- How much a note matters. -/
def level : Note → LogLevel
  | .allocatingFrame => .trace
  | .retiring _ => .debug
  | .notCompiling _ _ => .debug
  | .usingRemembered _ => .debug
  | .cannotCompile _ _ => .error
  | .rememberingScript _ => .trace
  | .rememberingError _ => .trace

def message : Note → String
  | .allocatingFrame => "allocating stack frame"
  | .retiring thread => "retiring thread " ++ thread
  | .notCompiling top error => "not compiling " ++ top ++ " after earlier error: " ++ error.message
  | .usingRemembered top => "using cached compile result for " ++ top
  | .cannotCompile target error => "cannot compile script " ++ target ++ ": " ++ error.message
  | .rememberingScript top => "caching compiled script for " ++ top
  | .rememberingError top => "caching compile error for " ++ top

/-- The note about an outcome that is remembered. -/
def remembering (top : String) : Outcome → Note
  | .ok _ => .rememberingScript top
  | .error _ => .rememberingError top

end Note

/-- Something that happens in a run. A thread in an event is the thread as foreign
code got to see it. -/
inductive Event where
  | log (note : Note)
  /-- A compiler is called, for the `call`-th time, counted from 0. -/
  | compile (compiler : String) (call : Nat) (thread : Thread)
  /-- A procedure is bound to a thread. -/
  | factory (code : String) (thread : Thread)
  /-- A compiled script is started. -/
  | start (thread : Thread)
  /-- A procedure is called. -/
  | call (code : String) (binding : Binding) (arguments : List Value)
  /-- A coroutine is stepped, the `position`-th time, counted from 0, while its thread
  has a status. `attached` tells the coroutine of the script from those of procedures. -/
  | enter (coroutine : String) (position : Nat) (status : Status) (attached : Bool)
  /-- A step of a coroutine is over, after these answers to its actions. -/
  | leave (coroutine : String) (answers : List Answer)
  /-- A failed compilation is made known. -/
  | compileError (target : Target) (error : CompileError)

end BlockThreads
