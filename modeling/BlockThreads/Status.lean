import BlockThreads.Value

/-!
# Statuses and steps

A thread has a `Status`, which says whether it may be stepped. A computation that can
be suspended answers each resumption with a `Step`: it is suspended again, with the
status that its thread is to have, or it is complete, perhaps with a value.

Results:
1. `code_injective`: the numbers of statuses tell them apart.
-/

namespace BlockThreads

/-- Where a thread stands with respect to being stepped. -/
inductive Status where
  /-- Goes on from block to block. -/
  | running
  /-- Waits for a result from outside, and only that result makes it go on. -/
  | promiseWait
  /-- Gives way to other threads. -/
  | yielded
  /-- Gives way until the next tick at least. -/
  | yieldedTick
  /-- Has nothing left to run. -/
  | done
  deriving DecidableEq, Repr, Inhabited

namespace Status

/-- The number of a status, which compiled code knows it by. -/
def code : Status → Nat
  | .running => 0
  | .promiseWait => 1
  | .yielded => 2
  | .yieldedTick => 3
  | .done => 4

/-- The status with a number. -/
def ofCode? : Nat → Option Status
  | 0 => some .running
  | 1 => some .promiseWait
  | 2 => some .yielded
  | 3 => some .yieldedTick
  | 4 => some .done
  | _ => none

theorem ofCode?_code (s : Status) : ofCode? s.code = some s := by
  cases s <;> rfl

/-- The numbers of statuses tell them apart. -/
theorem code_injective {s t : Status} (h : s.code = t.code) : s = t := by
  have hs := ofCode?_code s
  rw [h, ofCode?_code] at hs
  exact (Option.some.inj hs).symm

end Status

inductive Step where
  | suspended (status : Status)
  | completed (value : Option Value)
  deriving Inhabited

/-- A branch that a block asks to be run. -/
structure Branch where
  number : Nat
  isLoop : Bool
  deriving DecidableEq, Repr

end BlockThreads
