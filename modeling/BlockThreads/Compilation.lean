import BlockThreads.Host

/-!
# Compiling the script of a thread

A thread is compiled at most once; whatever comes of it, further requests change
nothing. What a compiler answers, a script or an error, is remembered with the blocks
of the script, so that the next thread with this script need not ask again. A thread
that was started by a click is compiled without its hat: it neither looks at what is
remembered nor adds to it.

To attach a script, every procedure is bound to the thread while the thread has none;
then the script is started, when the thread has all of them.

Results:
1. `compile_of_tried`: a thread is compiled at most once.
2. `attach_procedure?`: the thread has the procedures of the script and no others.
-/

namespace BlockThreads

namespace Machine

/-- Whether it is worth trying to compile the script of the thread. -/
def shouldCompile (m : Machine) : Bool :=
  !m.state.triedToCompile && m.host.config.compilerEnabled

/-! ## Attaching a script -/

def bindProcedures (script : Script) (m : Machine) : Machine where
  thread := { m.thread with procedures := script.factories.map fun _ factory => factory m.thread }
  host := m.host.recordAll (script.factories.keys.map fun code => .factory code m.thread)

/-- Starts a script, whose procedures are bound. -/
def startScript (script : Script) (m : Machine) : Machine where
  thread := { m.thread with
    coroutine := some (script.start m.thread)
    executableHat := script.executableHat }
  host := m.host.record (.start m.thread)

/-- Lets the script ask to glow, unless its container forbids it. -/
def requestGlow (m : Machine) : Machine :=
  if (m.host.container m.thread.container).forceNoGlow then m
  else m.editState fun s => { s with blockGlow := some m.thread.top, glow := true }

def attach (script : Script) (m : Machine) : Machine :=
  ((m.bindProcedures script).startScript script).requestGlow.editState
    fun s => { s with isCompiled := true }

/-! ## Asking a compiler -/

/-- Asks a compiler for the script of the thread. -/
def callCompiler (name : String) (m : Machine) : Outcome × Machine :=
  let compiler := m.host.compiler name
  let called := { compiler with calls := compiler.calls + 1 }
  (compiler.compile compiler.calls m.thread,
    (m.record (.compile name compiler.calls m.thread)).editHost
      fun h => { h with compilers := h.compilers.insert name called })

/-- Remembers an outcome for the script of the thread, unless it was clicked. -/
def rememberOutcome (outcome : Outcome) (m : Machine) : Machine :=
  if m.state.stackClick then m
  else m.editHost (Host.remember (m.host.outcomePlace m.thread) m.thread.top outcome)

/-- What is remembered of the script of the thread, unless it was clicked. -/
def rememberedOutcome? (m : Machine) : Option Outcome :=
  if m.state.stackClick then none
  else (m.host.container (m.host.outcomePlace m.thread)).outcome? m.thread.top

/-- Compiles the script of the thread, which nothing is remembered of. -/
def compileAfresh (compiler : String) (m : Machine) : Machine :=
  let called := m.callCompiler compiler
  match called.1 with
  | .ok script => (called.2.rememberOutcome (.ok script)).attach script
  | .error error =>
    ((called.2.log (.cannotCompile m.thread.target.name error)).rememberOutcome
      (.error error)).record (.compileError m.thread.target error)

/-- Compiles the script of the thread and attaches it. Only the first call counts. -/
def compile (compiler : String) (m : Machine) : Machine :=
  if m.state.triedToCompile then m
  else
    let m := m.editState fun s => { s with triedToCompile := true }
    match m.rememberedOutcome? with
    | some (.error error) => m.log (.notCompiling m.thread.top error)
    | some (.ok script) => (m.log (.usingRemembered m.thread.top)).attach script
    | none => m.compileAfresh compiler

/-! ## Laws -/

/-- A thread is compiled at most once. -/
theorem compile_of_tried {m : Machine} (compiler : String) (h : m.state.triedToCompile) :
    m.compile compiler = m := by
  simp [compile, h]

@[simp]
theorem requestGlow_procedures (m : Machine) :
    m.requestGlow.thread.procedures = m.thread.procedures := by
  unfold requestGlow
  split <;> rfl

/-- The thread has the procedures of the script and no others. -/
theorem attach_procedure? (script : Script) (m : Machine) (code : String) :
    (m.attach script).thread.procedure? code =
      (script.factories.get? code).map fun factory => factory m.thread := by
  have h : (m.attach script).thread.procedures =
      script.factories.map fun _ factory => factory m.thread :=
    requestGlow_procedures _
  rw [Thread.procedure?, h, Table.get?_map]

end Machine

end BlockThreads
