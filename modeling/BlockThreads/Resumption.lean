import BlockThreads.Host

/-!
# Resuming a compiled script

A thread that is attached to a coroutine is resumed by stepping the coroutine, at most
once. While the coroutine is being stepped the thread is without it, so that code
which resumes the thread from inside finds nothing to step.

After the step its result and what it did to the thread are brought together: if the
thread is done by now, it stays done whatever the step answered.

Results:
1. `resume_done`, `resume_promiseWait`, `resume_of_ne`: when a coroutine is stepped.
2. `conclude_suspended`: a thread that is suspended has its coroutine again.
-/

namespace BlockThreads

/-- A way to step a coroutine with a thread at hand. -/
abbrev Stepper : Type := Coroutine → Machine → Option ((Step × Coroutine) × Machine)

namespace Machine

/-- Brings the result of a step and the state of the thread together. -/
def conclude (step : Step) (coroutine : Coroutine) (m : Machine) : Step × Machine :=
  if m.state.status = .done then (.completed none, m.editState ThreadState.finish)
  else
    match step with
    | .suspended .done => (.completed none, m.editState ThreadState.finish)
    | .suspended status =>
      (step, { m with thread := { m.thread with status, coroutine := some coroutine } })
    | .completed _ => (step, m.editState ThreadState.finish)

/-- Takes the coroutine off the thread. -/
def detach (m : Machine) : Machine := { m with thread := { m.thread with coroutine := none } }

/-- Lets a thread go on that has given way. -/
def wake (m : Machine) : Machine := m.editState fun s => { s with status := .running }

/-- Steps the coroutine of the thread, if it has one. -/
def stepAttached (stepper : Stepper) (m : Machine) : Option (Step × Machine) :=
  match m.thread.coroutine with
  | none => some (.completed none, m)
  | some coroutine =>
    (stepper coroutine m.detach).map fun stepped =>
      stepped.2.conclude stepped.1.1 stepped.1.2

/-- Runs the compiled script of the thread until it next stops. -/
def resume (stepper : Stepper) (m : Machine) : Option (Step × Machine) :=
  match m.state.status with
  | .done => some (.completed none, m)
  | .promiseWait => some (.suspended .promiseWait, m)
  | _ => m.wake.stepAttached stepper

/-! ## Laws -/

theorem resume_done {stepper : Stepper} {m : Machine} (h : m.state.status = .done) :
    m.resume stepper = some (.completed none, m) := by
  simp [resume, h]

theorem resume_promiseWait {stepper : Stepper} {m : Machine}
    (h : m.state.status = .promiseWait) :
    m.resume stepper = some (.suspended .promiseWait, m) := by
  simp [resume, h]

theorem resume_of_ne {stepper : Stepper} {m : Machine} (hd : m.state.status ≠ .done)
    (hp : m.state.status ≠ .promiseWait) : m.resume stepper = m.wake.stepAttached stepper := by
  unfold resume
  split
  · exact absurd ‹_› hd
  · exact absurd ‹_› hp
  · rfl

/-- A thread that is suspended has its coroutine again. -/
theorem conclude_suspended {step : Step} {coroutine : Coroutine} {m : Machine} {status : Status}
    (h : (m.conclude step coroutine).1 = .suspended status) :
    status ≠ .done ∧ (m.conclude step coroutine).2.state.status = status ∧
      (m.conclude step coroutine).2.thread.coroutine = some coroutine := by
  unfold conclude at h ⊢
  split at h
  · simp at h
  · rename_i hd
    rw [if_neg hd]
    split at h
    · simp at h
    · rename_i other hne
      cases h
      exact ⟨fun he => hne (he ▸ rfl), rfl, rfl⟩
    · simp at h

end Machine

end BlockThreads
