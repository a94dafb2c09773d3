import BlockThreads.ThreadState

/-!
# What foreign code does with a thread

Compiled scripts, blocks of the older kind and sequencers are foreign code: the
library calls them and hands them a thread, and all they can do is perform actions on
it. This module says what the actions are, what each answers, and what a piece of
foreign code is.

* An `Action` is an operation on a thread, a `Use` one on the utility that a legacy
  block is given.
* A `Program` performs actions one by one. Each action may depend on the answers to
  the earlier ones, so a program is a finite tree that branches over answers. An
  `Errand` is the same for a legacy block, whose steps are uses.
* A `Coroutine` is stepped from time to time, each time with one program. Which one
  may depend on all answers it got in its earlier steps.
-/

namespace BlockThreads

/-! ## Answers -/

/-- The entry points of a block utility that compiled code does not offer. -/
inductive EntryPoint where
  | startProcedure
  | initParams
  | pushParam
  | getParam
  deriving DecidableEq, Repr

def EntryPoint.name : EntryPoint → String
  | .startProcedure => "startProcedure"
  | .initParams => "initParams"
  | .pushParam => "pushParam"
  | .getParam => "getParam"

def EntryPoint.message (e : EntryPoint) : String :=
  e.name ++ " is not supported by this BlockUtility"

/-- What an operation answers. -/
inductive Answer where
  | done
  | flag (value : Bool)
  | blockId (id : Option String)
  | names (thread top : String)
  | frame (frame : Option Frame)
  | value (value : Option Value)
  | params (params : Option Params)
  | context (context : Option Context)
  | step (step : Option Step)
  | branch (branch : Option Branch)
  | state (state : ThreadState)
  /-- The answers that a legacy block got, and the branch it asked for. -/
  | called (answers : List Answer) (branch : Option Branch)
  /-- The same for a utility that was bound by hand, and whether there is a sequencer. -/
  | bound (answers : List Answer) (branch : Option Branch) (sequencer : Bool)
  /-- Nothing was done. -/
  | misuse (what : Misuse)
  /-- Nothing was done. -/
  | refused (entry : EntryPoint)
  deriving Inhabited

/-! ## Actions -/

mutual

/-- An operation on a thread. -/
inductive Action where
  | push (id : String)
  | pushAll (ids : List String)
  /-- Pushes a block and notes it in its frame. -/
  | enter (id : String)
  | reuse (id : Option String)
  | pop
  | peek
  | peekFrame
  | peekParentFrame
  /-- Changes the top frame in any way. -/
  | editFrame (edit : Frame → Frame)
  /-- Changes the frame below the top in any way. -/
  | editParentFrame (edit : Frame → Frame)
  | resetFrame
  | reuseFrame
  | report (value : Option Value)
  | initParams
  | pushParam (name : String) (value : Value)
  | getParam (name : String)
  | getAllParams
  | atStackTop
  | next
  | stop
  | isRecursive (code : String)
  | retire
  | kill
  | settle (value : Option Value)
  | isWarpMode
  | startWarpTimer
  | clearWarpTimer
  | warpBudgetExceeded
  | sleep (ms : Nat)
  | setStatus (status : Status)
  | setKilled (on : Bool)
  | setStackClick (on : Bool)
  | setGlow (on : Bool) (block : Option String)
  | names
  | shouldCompile
  | compile (compiler : String)
  | hasProcedure (code : String)
  /-- Calls a procedure and steps it once. -/
  | runProcedure (code : String) (arguments : List Value)
  | resume
  | takeContext
  /-- Runs a legacy block. Without a context it goes on with the one of the thread. -/
  | callLegacy (block : String) (context : Option Context) (errand : Errand)
  /-- Binds a block utility and uses it. -/
  | bindLegacy (block : String) (context : Option Context) (errand : Errand)
  | state

/-- An operation on the utility of a legacy block. -/
inductive Use where
  | context
  | setValue (name : String) (value : Value)
  | unsetValue (name : String)
  | startTimer
  /-- Changes the context in any way. -/
  | editContext (edit : Context → Context)
  | clearContext
  | startBranch (number : Nat) (isLoop : Bool)
  | startProcedure (code : String)
  | initParams
  | pushParam (name : String) (value : Value)
  | getParam (name : String)
  | yield
  | yieldTick
  | onThread (action : Action)
  | startedBranch
  | retire

inductive Errand where
  | finish
  | ask (step : Use) (next : Answer → Errand)

end

/-- The errand that performs uses one by one, whatever they answer. -/
def Errand.ofUses : List Use → Errand
  | [] => .finish
  | first :: others => .ask first fun _ => ofUses others

/-! ## Programs and coroutines -/

/-- What foreign code does before it answers with a result. -/
inductive Program (α : Type) where
  | finish (result : α)
  | ask (action : Action) (next : Answer → Program α)

namespace Program

variable {α : Type}

/-- The program that performs actions one by one, whatever they answer. -/
def ofActions (result : α) : List Action → Program α
  | [] => .finish result
  | action :: actions => .ask action fun _ => ofActions result actions

/-- Runs a program, with a way to perform an action. Answers what the actions
answered and the result; nothing, if some action gets nowhere. -/
def run {σ : Type} (act : Action → σ → Option (Answer × σ)) :
    Program α → σ → Option ((List Answer × α) × σ)
  | .finish result, s => some (([], result), s)
  | .ask action next, s => do
    let (answer, s) ← act action s
    let ((answers, result), s) ← (next answer).run act s
    return ((answer :: answers, result), s)

end Program

/-- A computation that is stepped from time to time. -/
structure Coroutine where
  name : String
  /-- The program of the next step, given the answers of each earlier step, the
  latest step first. -/
  stage : List (List Answer) → Program Step
  past : List (List Answer) := []

namespace Coroutine

def position (c : Coroutine) : Nat := c.past.length

def program (c : Coroutine) : Program Step := c.stage c.past

/-- The coroutine after a step that got `answers`. -/
def advance (answers : List Answer) (c : Coroutine) : Coroutine :=
  { c with past := answers :: c.past }

end Coroutine

end BlockThreads
