import BlockThreads.Frame
import BlockThreads.Status

/-!
# The open part of a thread

A `ThreadState` is the part of a thread that everyone may look at: its stack of blocks
with their frames, its status, and what it asks of the screen. This module holds the
operations that concern this part alone.

Parameters are written to the top frame only, and only after it was given a parameter
table. They are read from the innermost frame that has one: the parameters of an
outer procedure are out of sight even if the inner one has none of that name.

Results:
1. `initParams_error_iff`, `pushParam_error_iff`: when parameters are misused.
2. `getParam_pushParam`: a parameter is read back.
3. `settle_of_ne`: a result from outside reaches only a thread that waits for it.
-/

namespace BlockThreads

/-- The part of a thread that everyone may look at. The stack and the frames have
their tops first. -/
structure ThreadState where
  /-- The block of each level; a level that ran off the end of its script has none. -/
  stack : List (Option String) := []
  frames : List Frame := []
  status : Status := .running
  isKilled : Bool := false
  /-- Started by a click on the script and not by its hat. -/
  stackClick : Bool := false
  /-- The script asks to be shown glowing. -/
  glow : Bool := false
  /-- The block that asks to be shown glowing. -/
  blockGlow : Option String := none
  warpTimer : Option Timer := none
  justReported : Option Value := none
  triedToCompile : Bool := false
  isCompiled : Bool := false
  /-- The entry point of the compiled script is a hat that restarts it. -/
  executableHat : Bool := false
  /-- The context that the legacy block at hand sees. -/
  legacyContext : Option Context := none

instance : Inhabited ThreadState := ⟨{}⟩

/-- An operation that may only be used after another one. -/
inductive Misuse where
  | initParamsOnEmptyStack
  | pushParamBeforeInit
  deriving DecidableEq, Repr

def Misuse.message : Misuse → String
  | .initParamsOnEmptyStack => "init_params called on an empty stack"
  | .pushParamBeforeInit => "push_param called before init_params"

namespace ThreadState

/-! ## Looking at the stack -/

def peek (s : ThreadState) : Option String := s.stack.head?.join

def peekFrame (s : ThreadState) : Option Frame := s.frames.head?

def peekParentFrame (s : ThreadState) : Option Frame := s.frames[1]?

def isWarpMode (s : ThreadState) : Bool := s.peekFrame.any Frame.warpMode

def isWaiting (s : ThreadState) : Bool := s.peekFrame.any Frame.waitingReporter

/-! ## Changing frames -/

def editFrame (edit : Frame → Frame) (s : ThreadState) : ThreadState :=
  { s with frames := s.frames.modify 0 edit }

def editParentFrame (edit : Frame → Frame) (s : ThreadState) : ThreadState :=
  { s with frames := s.frames.modify 1 edit }

/-- Moves to another block at the same level; the frame is cleared but for its warp
mode. Nothing happens on an empty stack. -/
def reuse (id : Option String) (s : ThreadState) : ThreadState :=
  match s.stack, s.frames with
  | _ :: stack, frame :: frames => { s with stack := id :: stack, frames := frame.reuse :: frames }
  | _, _ => s

/-- Puts `id` in the place of the last entry. -/
def replaceLast (id : String) : List (Option String) → List (Option String)
  | [] => []
  | [_] => [some id]
  | entry :: next :: rest => entry :: replaceLast id (next :: rest)

/-! ## Parameters -/

/-- Gives the top frame a parameter table, if it has none. -/
def initParams (s : ThreadState) : Except Misuse ThreadState :=
  match s.frames with
  | [] => .error .initParamsOnEmptyStack
  | frame :: frames =>
    .ok { s with frames := { frame with params := some (frame.params.getD .empty) } :: frames }

def pushParam (name : String) (value : Value) (s : ThreadState) : Except Misuse ThreadState :=
  match s.frames with
  | [] => .error .pushParamBeforeInit
  | frame :: frames =>
    match frame.params with
    | none => .error .pushParamBeforeInit
    | some params =>
      .ok { s with frames := { frame with params := some (params.insert name value) } :: frames }

/-- Looks a parameter up in the innermost frame that has parameters. -/
def getParam (name : String) (s : ThreadState) : Option Value :=
  (s.frames.findSome? Frame.params).bind fun params => params.get? name

def getAllParams (s : ThreadState) : Option Params := s.peekFrame.bind Frame.params

/-! ## Reports -/

/-- Notes what was just reported. -/
def report (value : Option Value) (s : ThreadState) : ThreadState :=
  { s with justReported := value }

/-- Hands over a result from outside to a thread that waits for one. -/
def settle (value : Option Value) (s : ThreadState) : ThreadState :=
  if s.status = .promiseWait then { s with status := .running }.report value else s

/-- Nothing is left to run and nothing asks to glow. -/
def finish (s : ThreadState) : ThreadState := { s with glow := false, status := .done }

/-! ## Laws -/

theorem initParams_error_iff {s : ThreadState} {what : Misuse} :
    s.initParams = .error what ↔ s.frames = [] ∧ what = .initParamsOnEmptyStack := by
  unfold initParams
  split <;> rename_i h <;> simp [h, eq_comm]

theorem pushParam_error_iff {s : ThreadState} {name : String} {value : Value} {what : Misuse} :
    s.pushParam name value = .error what ↔
      s.getAllParams = none ∧ what = .pushParamBeforeInit := by
  unfold pushParam getAllParams peekFrame
  split
  · rename_i h
    simp [h, eq_comm]
  · rename_i frame frames h
    cases hp : frame.params <;> simp [h, hp, eq_comm]

/-- A parameter is read back. -/
theorem getParam_pushParam {s t : ThreadState} {name : String} {value : Value}
    (h : s.pushParam name value = .ok t) (other : String) :
    t.getParam other = if name = other then some value else s.getParam other := by
  unfold pushParam at h
  split at h
  · simp at h
  · rename_i frame frames hf
    cases hp : frame.params with
    | none => simp [hp] at h
    | some params =>
      simp only [hp, Except.ok.injEq] at h
      subst h
      simp [getParam, hf, hp, Table.get?_insert]

/-- A result from outside reaches only a thread that waits for it. -/
theorem settle_of_ne {s : ThreadState} (value : Option Value) (h : s.status ≠ .promiseWait) :
    s.settle value = s := by
  simp [settle, h]

end ThreadState

end BlockThreads
