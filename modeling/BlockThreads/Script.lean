import BlockThreads.Thread

/-!
# Compiled scripts

A compiler turns the script of a thread into a `Script`: code that every thread with
this script can use. To attach it to a thread its procedures are bound to the thread,
each by its factory, and its coroutine is started.
-/

namespace BlockThreads

/-- Why a script cannot be compiled. -/
inductive CompileError where
  | unsupported (opcode : String)
  | missingBlock (id : String)
  | other (message : String)
  deriving DecidableEq, Repr

def CompileError.message : CompileError → String
  | .unsupported opcode => "unsupported opcode: " ++ opcode
  | .missingBlock id => "block not found: " ++ id
  | .other message => message

/-- Compiled code, shared by all threads that run the script. -/
structure Script where
  /-- Binds the procedures to a thread, by their codes. -/
  factories : Table String (Thread → Procedure)
  /-- Starts the script for a thread. -/
  start : Thread → Coroutine
  /-- The entry point is a hat that restarts the script. -/
  executableHat : Bool

abbrev Outcome := Except CompileError Script

def Script.describe (s : Script) : String :=
  "CompiledScript \x7b procedures: [" ++
    String.intercalate ", " (s.factories.keys.map Text.quoted) ++
    "], executable_hat: " ++ (if s.executableHat then "true" else "false") ++ " \x7d"

/-- A compiler. What it answers may depend on the thread and on how often it was
called before. -/
structure Compiler where
  compile : Nat → Thread → Outcome
  calls : Nat := 0

/-- The script that does nothing. -/
def Script.idle : Script where
  factories := .empty
  start _ := { name := "", stage := fun _ => .finish (.completed none) }
  executableHat := false

/-- The compiler whose scripts do nothing. -/
def Compiler.idle : Compiler := { compile := fun _ _ => .ok .idle }

instance : Inhabited Compiler := ⟨.idle⟩

end BlockThreads
