import BlockThreads.Compilation
import BlockThreads.Legacy
import BlockThreads.Resumption

/-!
# Performing actions

What each action does to a machine and what it answers. Most actions are one
operation. Three kinds call foreign code, which performs actions in its turn:

* to resume a thread or to run a procedure, a coroutine is stepped;
* a legacy block runs its errand;
* a sequencer is asked to retire the thread.

An errand is part of its action, so performing it goes down the action. Coroutines and
sequencers are not: `Action.perform` is given a way to run their programs, and
`Program.execute` ties the knot for calls of foreign code nested up to a depth. An
action whose calls are nested deeper has no answer; every other answer is the same for
all depths that suffice.
-/

namespace BlockThreads

/-- A way to run foreign code with a thread at hand. -/
abbrev Runner : Type 1 :=
  (α : Type) → Program α → Machine → Option ((List Answer × α) × Machine)

def Coroutine.step (run : Runner) (attached : Bool) : Stepper := fun c m => do
  let m := m.record (.enter c.name c.position m.state.status attached)
  let ((answers, step), m) ← run Step c.program m
  return ((step, c.advance answers), m.record (.leave c.name answers))

namespace Machine

/-- Calls a procedure and steps it once; nothing, if the thread does not have it. -/
def runProcedure (run : Runner) (code : String) (arguments : List Value) (m : Machine) :
    Option (Option Step × Machine) :=
  match m.thread.procedure? code with
  | none => some (none, m)
  | some procedure =>
    ((procedure.call arguments).step run false
      (m.record (.call code procedure.binding arguments))).map fun stepped =>
        (some stepped.1.1, stepped.2)

/-- Asks the sequencer to retire the thread. Answers whether there is one. -/
def askSequencer (run : Runner) (m : Machine) : Option (Bool × Machine) :=
  match m.host.sequencer with
  | none => some (false, m)
  | some sequencer => (run Unit sequencer.retire m).map fun r => (true, r.2)

/-- Makes a change that may be refused. -/
def attempt (change : ThreadState → Except Misuse ThreadState) (m : Machine) : Answer × Machine :=
  match change m.state with
  | .ok s => (.done, m.editState fun _ => s)
  | .error what => (.misuse what, m)

end Machine

mutual

/-- Performs an action. -/
def Action.perform (run : Runner) : Action → Machine → Option (Answer × Machine)
  | .push id, m => some (.done, m.push id)
  | .pushAll ids, m => some (.done, m.pushAll ids)
  | .enter id, m => some (.done, m.enter id)
  | .reuse id, m => some (.done, m.editState (ThreadState.reuse id))
  | .pop, m => some (.blockId m.pop.1, m.pop.2)
  | .peek, m => some (.blockId m.state.peek, m)
  | .peekFrame, m => some (.frame m.state.peekFrame, m)
  | .peekParentFrame, m => some (.frame m.state.peekParentFrame, m)
  | .editFrame edit, m =>
    some (.flag m.state.peekFrame.isSome, m.editState (ThreadState.editFrame edit))
  | .editParentFrame edit, m =>
    some (.flag m.state.peekParentFrame.isSome, m.editState (ThreadState.editParentFrame edit))
  | .resetFrame, m =>
    let m := m.editState (ThreadState.editFrame Frame.reset)
    some (.frame m.state.peekFrame, m)
  | .reuseFrame, m =>
    let m := m.editState (ThreadState.editFrame Frame.reuse)
    some (.frame m.state.peekFrame, m)
  | .report value, m => some (.done, m.editState (ThreadState.report value))
  | .initParams, m => some (m.attempt ThreadState.initParams)
  | .pushParam name value, m => some (m.attempt (ThreadState.pushParam name value))
  | .getParam name, m => some (.value (m.state.getParam name), m)
  | .getAllParams, m => some (.params m.state.getAllParams, m)
  | .atStackTop, m => some (.flag m.thread.atStackTop, m)
  | .next, m => some (.done, m.goToNext)
  | .stop, m => some (.done, m.stopScript)
  | .isRecursive code, m => some (.flag (m.isRecursive code), m)
  | .retire, m => some (.done, m.retire)
  | .kill, m => some (.done, m.kill)
  | .settle value, m => some (.done, m.editState (ThreadState.settle value))
  | .isWarpMode, m => some (.flag m.state.isWarpMode, m)
  | .startWarpTimer, m => some (.done, m.startWarpTimer)
  | .clearWarpTimer, m => some (.done, m.editState fun s => { s with warpTimer := none })
  | .warpBudgetExceeded, m => some (.flag m.isWarpBudgetExceeded, m)
  | .sleep ms, m => some (.done, m.editHost fun h => { h with now := h.now + ms })
  | .setStatus status, m => some (.done, m.editState fun s => { s with status })
  | .setKilled on, m => some (.done, m.editState fun s => { s with isKilled := on })
  | .setStackClick on, m => some (.done, m.editState fun s => { s with stackClick := on })
  | .setGlow on block, m =>
    some (.done, m.editState fun s => { s with glow := on, blockGlow := block })
  | .names, m => some (.names m.thread.name m.thread.top, m)
  | .shouldCompile, m => some (.flag m.shouldCompile, m)
  | .compile compiler, m => some (.done, m.compile compiler)
  | .hasProcedure code, m => some (.flag (m.thread.procedure? code).isSome, m)
  | .runProcedure code arguments, m =>
    (m.runProcedure run code arguments).map fun r => (.step r.1, r.2)
  | .resume, m => (m.resume (Coroutine.step run true)).map fun r => (.step (some r.1), r.2)
  | .takeContext, m =>
    some (.context m.state.legacyContext, m.editState fun s => { s with legacyContext := none })
  | .callLegacy block context errand, m => do
    let (answers, branch, m) ← errand.perform run none (m.bindBlock block context)
    return (.called answers branch, m)
  | .bindLegacy block context errand, m => do
    let (answers, branch, m) ← errand.perform run none (m.bindBlock block context)
    return (.bound answers branch m.host.sequencer.isSome, m)
  | .state, m => some (.state m.state, m)

/-- Performs a use of the utility of a legacy block, which has asked for `branch`. -/
def Use.perform (run : Runner) (branch : Option Branch) :
    Use → Machine → Option (Answer × Option Branch × Machine)
  | .context, m => some (.context (some m.context), branch, m.editContext id)
  | .setValue name value, m =>
    some (.value (m.context.values.get? name), branch,
      m.editContext fun c => { c with values := c.values.insert name value })
  | .unsetValue name, m =>
    some (.value (m.context.values.get? name), branch,
      m.editContext fun c => { c with values := c.values.erase name })
  | .startTimer, m => some (.flag m.context.timer.isNone, branch, m.startContextTimer)
  | .editContext edit, m => some (.done, branch, m.editContext edit)
  | .clearContext, m =>
    some (.done, branch, m.editState fun s => { s with legacyContext := none })
  | .startBranch number isLoop, m => some (.done, some ⟨number, isLoop⟩, m)
  | .startProcedure _, m => some (.refused .startProcedure, branch, m)
  | .initParams, m => some (.refused .initParams, branch, m)
  | .pushParam _ _, m => some (.refused .pushParam, branch, m)
  | .getParam _, m => some (.refused .getParam, branch, m)
  | .yield, m => some (.done, branch, m.editState fun s => { s with status := .yielded })
  | .yieldTick, m =>
    some (.done, branch, m.editState fun s => { s with status := .yieldedTick })
  | .onThread action, m => do
    let (answer, m) ← action.perform run m
    return (answer, branch, m)
  | .startedBranch, m => some (.branch branch, branch, m)
  | .retire, m => (m.askSequencer run).map fun r => (.flag r.1, branch, r.2)

/-- Performs the uses of an errand one by one. Answers what they answered and the
branch asked for last. -/
def Errand.perform (run : Runner) (branch : Option Branch) :
    Errand → Machine → Option (List Answer × Option Branch × Machine)
  | .finish, m => some ([], branch, m)
  | .ask first next, m => do
    let (answer, branch, m) ← first.perform run branch m
    let (answers, branch, m) ← (next answer).perform run branch m
    return (answer :: answers, branch, m)

end

/-! ## Nested calls -/

/-- Runs foreign code in which further foreign code is called, nested at most `depth`
deep together with this call. -/
def Program.execute : Nat → Runner
  | 0, _, _, _ => none
  | depth + 1, _, program, m => program.run (Action.perform (execute depth)) m

/-- Performs an action; foreign code may be nested `depth` deep. -/
def Machine.perform (depth : Nat) (action : Action) (m : Machine) : Option (Answer × Machine) :=
  action.perform (Program.execute depth) m

end BlockThreads
