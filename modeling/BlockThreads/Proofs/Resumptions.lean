import BlockThreads.Proofs.Stepping

/-!
# What comes of a resumption

Whoever resumes a thread is told how far its script has come, and finds the thread in a
state. The scheduler goes by both, so they must never contradict each other. It is not the
script that sees to it: in its step it may assign any status, stop or retire its thread, or
say that it is suspended as done. The thread brings the two together when the step is over,
in favour of whoever finished it.

Results:
1. `coroutine_of_step`: a script that is being stepped cannot be attached again from inside.
2. `resumption_of_step`: a resumption that steps the script concludes the step.
3. `resumed_in_agreement`: the answer to a resumption agrees with the thread, at every moment
   of every run.
-/

namespace BlockThreads

namespace Machine

/-- What comes of resuming the thread, the answer and the machine then. Foreign code may be
nested `depth` deep. -/
def resumption (depth : Nat) (m : Machine) : Option (Step × Machine) :=
  m.resume (Coroutine.step (Program.execute depth) true)

/-- What comes of the step of a coroutine that is taken off the thread for it: how the step
ends, the coroutine behind it, and the machine then. -/
def scriptStep (depth : Nat) (c : Coroutine) (m : Machine) :
    Option ((Step × Coroutine) × Machine) :=
  c.step (Program.execute depth) true m.wake.detach

/-- The answer to a resumption agrees with the thread. -/
structure ResumesInAgreement (depth : Nat) (m : Machine) : Prop where
  /-- A thread that is done is not stepped, and nothing changes. -/
  done : m.state.status = .done → m.resumption depth = some (.completed none, m)
  /-- A thread that waits is not stepped either. -/
  waiting : m.state.status = .promiseWait →
    m.resumption depth = some (.suspended .promiseWait, m)
  /-- Where there is nothing to step, the thread is taken to be running. -/
  nothing : m.state.status.goesOn → m.thread.coroutine = none →
    m.resumption depth =
      some (.completed none, { m with thread := { m.thread with status := .running } })
  /-- If the step of the script comes to an end, so does the resumption. -/
  answered {c : Coroutine} : m.state.status.goesOn → m.thread.coroutine = some c →
    (m.resumption depth).isSome = (m.scriptStep depth c).isSome
  /-- The answer is that of the script, unless the thread was finished by then or the script
  says so itself. -/
  unfinished {c c' : Coroutine} {step : Step} {k : Machine} :
    m.state.status.goesOn → m.thread.coroutine = some c →
    m.scriptStep depth c = some ((step, c'), k) → k.state.status ≠ .done →
    step ≠ .suspended .done → ∃ n, m.resumption depth = some (step, n)
  /-- Who is told that the script is suspended finds its status with the thread, which is not
  done, and a script that was attached is attached again. -/
  suspended {status : Status} {n : Machine} :
    m.resumption depth = some (.suspended status, n) →
    status ≠ .done ∧ n.state.status = status ∧
      (m.thread.coroutine.isSome → n.thread.coroutine.isSome)
  /-- Who steps the script and is told that it is complete finds the thread finished. A value
  comes from the script, on a thread that nobody had finished by then. -/
  completed {c : Coroutine} {value : Option Value} {n : Machine} :
    m.state.status.goesOn → m.thread.coroutine = some c →
    m.resumption depth = some (.completed value, n) →
    n.state.status = .done ∧ n.state.glow = false ∧ n.thread.coroutine = none ∧
      (value = none ∨ ∃ c' k, m.scriptStep depth c = some ((.completed value, c'), k) ∧
        k.state.status ≠ .done)

end Machine

namespace ResumptionsLemmas

open ChronicleLemmas SteppingLemmas

variable {depth : Nat} {m n k : Machine} {c c' : Coroutine} {step : Step}

/-! ## The step of the script -/

theorem ne_of_goesOn {status : Status} (h : status.goesOn) :
    status ≠ .done ∧ status ≠ .promiseWait := by
  cases status with
  | done | promiseWait => cases h
  | running | yielded | yieldedTick => exact ⟨nofun, nofun⟩

/-- While a script is being stepped its thread does not have it, and whatever the step does,
it has none in the end. -/
theorem coroutine_of_step (htried : m.thread.triedToCompile)
    (hnone : m.thread.coroutine = none)
    (h : c.step (Program.execute depth) true m = some ((step, c'), k)) :
    k.thread.coroutine = none := by
  rw [Coroutine.step_eq] at h
  obtain ⟨⟨⟨answers, inner⟩, n⟩, hrun, heq⟩ := Option.map_eq_some_iff.mp h
  obtain ⟨-, rfl⟩ := Prod.mk.inj heq
  -- the moments of the step lead from the thread without a script to the one in the end
  have hleads := Program.execute_fits depth Step c.program
    (m.record (.enter c.name c.position m.state.status true))
  obtain ⟨u, hpath, hu⟩ := path_threads (s := []) hleads
  have hend : u = (n.thread, []) := by
    refine hu n ?_
    rw [hrun]
    rfl
  subst hend
  have hstart : Life.IsOf
      ((m.record (.enter c.name c.position m.state.status true)).thread, []) .ended :=
    .ended htried hnone
  obtain ⟨l, hl, hlife⟩ := life_path hstart hpath
  have hended : l = .ended :=
    hlife.keeps (P := fun l => l = .ended)
      (fun x _ s t hx hs => (ended_next (hs ▸ hx)).2) rfl
  subst hended
  cases hl with
  | ended _ hnone' => exact hnone'

/-- A resumption that steps the script concludes the step. -/
theorem resumption_of_step (hgoes : m.state.status.goesOn) (hc : m.thread.coroutine = some c) :
    m.resumption depth =
      (m.scriptStep depth c).map fun stepped =>
        stepped.2.conclude stepped.1.1 stepped.1.2 := by
  obtain ⟨hd, hp⟩ := ne_of_goesOn hgoes
  have hc' : m.wake.thread.coroutine = some c := hc
  rw [Machine.resumption, Machine.resume_of_ne hd hp]
  simp only [Machine.stepAttached, hc']
  rfl

/-! ## Answers -/

/-- On a thread that nobody has finished, a step is told as it is, unless it says that the
script is suspended as done. -/
theorem conclude_unfinished (hd : k.state.status ≠ .done) (hstep : step ≠ .suspended .done)
    (c' : Coroutine) : (k.conclude step c').1 = step := by
  unfold Machine.conclude
  rw [if_neg hd]
  cases step with
  | completed value => rfl
  | suspended status =>
    cases status with
    | done => exact absurd rfl hstep
    | running | yielded | yieldedTick | promiseWait => rfl

/-- A value that is told comes from the script, on a thread that nobody has finished. -/
theorem value_of_conclude {value : Option Value} (h : (k.conclude step c').1 = .completed value) :
    value = none ∨ step = .completed value ∧ k.state.status ≠ .done := by
  by_cases hd : k.state.status = .done
  · -- the thread was finished from inside, and a value is lost
    unfold Machine.conclude at h
    rw [if_pos hd] at h
    cases h
    exact .inl rfl
  · by_cases hstep : step = .suspended .done
    · subst hstep
      unfold Machine.conclude at h
      rw [if_neg hd] at h
      cases h
      exact .inl rfl
    · rw [conclude_unfinished hd hstep] at h
      exact .inr ⟨h, hd⟩

theorem suspended_resumption {status : Status}
    (h : m.resumption depth = some (.suspended status, n)) :
    status ≠ .done ∧ n.state.status = status ∧
      (m.thread.coroutine.isSome → n.thread.coroutine.isSome) := by
  cases hs : m.state.status with
  | done =>
    rw [Machine.resumption, Machine.resume_done hs] at h
    cases h
  | promiseWait =>
    rw [Machine.resumption, Machine.resume_promiseWait hs] at h
    cases h
    exact ⟨nofun, hs, id⟩
  | running | yielded | yieldedTick =>
    have hgoes : m.state.status.goesOn := by
      rw [hs]
      rfl
    cases hc : m.thread.coroutine with
    | none =>
      obtain ⟨hd, hp⟩ := ne_of_goesOn hgoes
      rw [Machine.resumption, Machine.resume_of_ne hd hp,
        Machine.stepAttached_of_none hc] at h
      cases h
    | some c =>
      rw [resumption_of_step hgoes hc] at h
      obtain ⟨⟨⟨step, c'⟩, k⟩, -, hconclude⟩ := Option.map_eq_some_iff.mp h
      obtain ⟨hne, hstatus, hcoroutine⟩ :=
        Machine.conclude_suspended (congrArg Prod.fst hconclude)
      have hn : (k.conclude step c').2 = n := congrArg Prod.snd hconclude
      rw [hn] at hstatus hcoroutine
      refine ⟨hne, hstatus, fun _ => ?_⟩
      rw [hcoroutine]
      rfl

theorem completed_resumption {value : Option Value} (htried : m.thread.triedToCompile)
    (hgoes : m.state.status.goesOn) (hc : m.thread.coroutine = some c)
    (h : m.resumption depth = some (.completed value, n)) :
    n.state.status = .done ∧ n.state.glow = false ∧ n.thread.coroutine = none ∧
      (value = none ∨ ∃ c' k, m.scriptStep depth c = some ((.completed value, c'), k) ∧
        k.state.status ≠ .done) := by
  rw [resumption_of_step hgoes hc] at h
  obtain ⟨⟨⟨step, c'⟩, k⟩, hstep, hconclude⟩ := Option.map_eq_some_iff.mp h
  have hnone : k.thread.coroutine = none :=
    coroutine_of_step (m := m.wake.detach) htried rfl hstep
  by_cases hlast : k.state.status = .done ∨ step.isLast
  · have hn : n = k.editState ThreadState.finish := by
      rw [← Machine.conclude_of_last c' hlast]
      exact (congrArg Prod.snd hconclude).symm
    subst hn
    refine ⟨rfl, rfl, hnone, ?_⟩
    rcases value_of_conclude (congrArg Prod.fst hconclude) with hvalue | ⟨rfl, hd⟩
    · exact .inl hvalue
    · exact .inr ⟨c', k, hstep, hd⟩
  · -- a step that is not the last one is not told to be complete
    obtain ⟨status, -, heq⟩ := Machine.conclude_of_not_last c' hlast
    rw [heq] at hconclude
    cases hconclude

/-- The answer to a resumption agrees with the thread, if no coroutine was attached to the
thread but by compiling it. -/
theorem resumes_in_agreement
    (htried : ∀ c, m.thread.coroutine = some c → m.thread.triedToCompile) :
    m.ResumesInAgreement depth where
  done := Machine.resume_done
  waiting := Machine.resume_promiseWait
  nothing hgoes hnone := by
    obtain ⟨hd, hp⟩ := ne_of_goesOn hgoes
    rw [Machine.resumption, Machine.resume_of_ne hd hp, Machine.stepAttached_of_none hnone]
    rfl
  answered hgoes hc := by
    rw [resumption_of_step hgoes hc, Option.isSome_map]
  unfinished {c c' step k} hgoes hc hstep hd hne := by
    refine ⟨(k.conclude step c').2, ?_⟩
    rw [resumption_of_step hgoes hc, hstep, Option.map_some]
    exact congrArg some (Prod.ext (conclude_unfinished hd hne c') rfl)
  suspended := suspended_resumption
  completed hgoes hc := completed_resumption (htried _ hc) hgoes hc

end ResumptionsLemmas

open SteppingLemmas ResumptionsLemmas

namespace World

/-- Whatever happens to a thread from its first day on, also while its script is being
stepped: at every moment, if the thread is resumed there, by the scheduler or by foreign
code, the answer agrees with the thread that it leaves behind. -/
theorem resumed_in_agreement {depth : Nat} {w : World} {tasks : List Task} {name top : String}
    {target : Target} {container : ContainerId} {pool : PoolId} {moments : List Moment}
    (hrun : (w.newThread name target top container pool).history depth name tasks = moments)
    (hlife : ∀ task ∈ tasks, task.command.ends name = false) :
    ∀ x ∈ moments, ∀ depth', x.machine.ResumesInAgreement depth' := by
  subst hrun
  have ht : (w.newThread name target top container pool).threads.get? name =
      some { top, target, container, pool } := Table.get?_insert_self _ _ _
  obtain ⟨u, hpath, _⟩ := World.history_path depth ht hlife
  intro x hx depth'
  obtain ⟨_, _, hl⟩ := life_of_mem (l := .unborn) (.unborn rfl) hpath hx
  exact resumes_in_agreement fun c hc => tried_of_coroutine hl hc

end World

/-! ## A script that retires its thread -/

/-- A script of one step, in which it retires its thread and then says that it is complete
with a value. -/
def exSelfRetiring : World where
  host :=
    { compilers := .ofList [("c", .scripted [.ok
        { script := [
            { actions := [.retire], conclusion := .complete (.text "over") }] }])] }

/-- The thread is compiled and resumed. -/
def exSelfRetired : List Moment :=
  (exSelfRetiring.newThread "t" { id := "sprite", name := "Sprite", container := none } "hat" none
    "pool").history 3 "t" [⟨0, .act "t" (.compile "c")⟩, ⟨1, .act "t" .resume⟩]

/-- When the thread is resumed, the answer is that it is complete without a value, and it is
finished. -/
theorem resumed_in_agreement_retired :
    ∃ compiled x rest, exSelfRetired = compiled :: x :: rest ∧ x.move.stepsScript ∧
      x.machine.ResumesInAgreement 3 ∧
      ∃ n, x.machine.resumption 3 = some (.completed none, n) ∧ n.state.status = .done ∧
        n.state.glow = false ∧ n.thread.coroutine = none := by
  have hagree := World.resumed_in_agreement (show _ = exSelfRetired from rfl) (by decide)
  have hx := hagree _ (List.mem_cons_of_mem _ List.mem_cons_self) 3
  obtain ⟨hstatus, hglow, hcoroutine, -⟩ := hx.completed rfl rfl rfl
  exact ⟨_, _, _, rfl, rfl, hx, _, rfl, hstatus, hglow, hcoroutine⟩

end BlockThreads
