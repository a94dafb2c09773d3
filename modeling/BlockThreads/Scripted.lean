import BlockThreads.Host

/-!
# Foreign code that follows a plan

A `Plan` describes compiled code as data: for the script and for each procedure a list
of stages, the actions of one step and how the step ends. Compilers and sequencers of
this kind are enough to show every behaviour of a thread.

Results:
1. `scripted_program`: a scripted coroutine performs its stages in order, and then
   nothing.
-/

namespace BlockThreads

/-- How a step ends. -/
inductive Conclusion where
  | suspend (status : Status)
  /-- The coroutine is complete with one of its arguments, counted from 0. -/
  | argument (index : Nat)
  | complete (value : Value)
  | finish

/-- The step that a conclusion means for a coroutine with these arguments. -/
def Conclusion.step (arguments : List Value) : Conclusion → Step
  | .suspend status => .suspended status
  | .argument index => .completed arguments[index]?
  | .complete value => .completed (some value)
  | .finish => .completed none

structure Stage where
  actions : List Action := []
  conclusion : Conclusion := .finish

instance : Inhabited Stage := ⟨{}⟩

def Stage.program (arguments : List Value) (s : Stage) : Program Step :=
  .ofActions (s.conclusion.step arguments) s.actions

/-- The coroutine that performs stages in order. -/
def Coroutine.scripted (name : String) (arguments : List Value) (stages : List Stage) :
    Coroutine where
  name := name
  stage past := (stages[past.length]?.getD {}).program arguments

structure Plan where
  procedures : Table String (List Stage) := .empty
  script : List Stage := []
  /-- Whether the entry point is a hat, if that does not depend on the thread. -/
  executableHat : Option Bool := none

instance : Inhabited Plan := ⟨{}⟩

/-- The factory of a procedure with a code. -/
def Plan.factory (code : String) (stages : List Stage) (t : Thread) : Procedure where
  binding := t.binding
  call arguments := .scripted code arguments stages

/-- The script that a plan describes. -/
def Plan.toScript (executableHat : Bool) (p : Plan) : Script where
  factories := p.procedures.map Plan.factory
  start _ := .scripted "main" [] p.script
  executableHat := p.executableHat.getD executableHat

/-- The answer of a list for a call, the last one for every later call. -/
def Compiler.planFor (plans : List (Except CompileError Plan)) (call : Nat) :
    Except CompileError Plan :=
  plans[min call (plans.length - 1)]?.getD (.ok {})

/-- The compiler that answers its calls from a list. -/
def Compiler.scripted (plans : List (Except CompileError Plan)) : Compiler where
  compile call t := (planFor plans call).map (Plan.toScript !t.stackClick)

/-- The sequencer that performs one action. -/
def Sequencer.performing (action : Action) : Sequencer := ⟨.ofActions () [action]⟩

/-- A scripted coroutine performs its stages in order, and then nothing. -/
theorem Coroutine.scripted_program (name : String) (arguments : List Value)
    (stages : List Stage) (past : List (List Answer)) :
    { Coroutine.scripted name arguments stages with past }.program =
      match stages[past.length]? with
      | some stage => stage.program arguments
      | none => .finish (.completed none) := by
  unfold Coroutine.program Coroutine.scripted
  simp only
  cases stages[past.length]? <;> rfl

end BlockThreads
