import BlockThreads.Proofs.Chronicle
import BlockThreads.Scripted

/-!
# The steps of a script

The coroutine of a script has a life of its own: it comes with the compilation of its
thread, is stepped one time after the other, and ends. While it is being stepped its
thread does not have it, and a thread that has lost it for good never gets another one,
because it is compiled only once. So nothing that happens to the thread can disturb the
order of the steps, neither a status that is assigned to it nor code that resumes it from
inside the step.

Results:
1. `stepped_in_order`: the script of a thread is stepped in order and never past its end,
   at most once for every resumption, and only on a thread that may go on. At most one
   caller is handed the value that it completes with.
-/

namespace BlockThreads

/-- Whether a thread may be stepped. -/
def Status.goesOn : Status → Bool
  | .running => true
  | .yielded => true
  | .yieldedTick => true
  | _ => false

/-- Whether a step hands over a value. -/
def Step.hasValue : Step → Bool
  | .completed (some _) => true
  | _ => false

/-- Whether the last step of the script ends: its coroutine is complete, or suspended as
done, or its thread is done by now. -/
def Moment.endsScript (x : Moment) : Prop :=
  match x.move with
  | .leave _ _ step true => x.machine.state.status = .done ∨ step.isLast
  | _ => False

/-! ## The life of a script -/

/-- Where the script of a thread stands. -/
inductive Life where
  /-- The thread has not been compiled. -/
  | unborn
  /-- The coroutine waits for its next step. -/
  | ready (coroutine : Coroutine)
  /-- The coroutine is being stepped. -/
  | stepping (coroutine : Coroutine)
  /-- There is nothing to step, now and later. -/
  | ended

namespace Life

/-- How the life of a script goes on with what happens to its thread. -/
inductive Next : Life → Moment → Life → Prop
  | stay {l : Life} {x : Moment} : x.move.isOfScript = false → Next l x l
  | born {c : Coroutine} {x : Moment} : x.move.isOfScript = false → Next .unborn x (.ready c)
  | stillborn {x : Moment} : x.move.isOfScript = false → Next .unborn x .ended
  | enter {c : Coroutine} {m : Machine} : Next (.ready c) ⟨m, .enter c true⟩ (.stepping c)
  /-- The next step goes on behind this one. -/
  | suspend {c : Coroutine} {m : Machine} {answers : List Answer} {status : Status} :
      status ≠ .done → m.state.status ≠ .done →
      Next (.stepping c) ⟨m, .leave c answers (.suspended status) true⟩
        (.ready (c.advance answers))
  | finish {c : Coroutine} {m : Machine} {answers : List Answer} {step : Step} :
      Moment.endsScript ⟨m, .leave c answers step true⟩ →
      Next (.stepping c) ⟨m, .leave c answers step true⟩ .ended

/-- The life of the script of a thread while some coroutines are open. -/
inductive IsOf : Thread × List Coroutine → Life → Prop
  | unborn {t : Thread} : t.coroutine = none → IsOf (t, []) .unborn
  | ready {t : Thread} {c : Coroutine} :
      t.triedToCompile → t.coroutine = some c → IsOf (t, []) (.ready c)
  | stepping {t : Thread} {c : Coroutine} :
      t.triedToCompile → t.coroutine = none → IsOf (t, [c]) (.stepping c)
  | ended {t : Thread} : t.triedToCompile → t.coroutine = none → IsOf (t, []) .ended

end Life

namespace SteppingLemmas

open ChronicleLemmas

/-! ## Lives -/

variable {a b : Thread × List Coroutine} {l : Life} {x : Moment} {moments : List Moment}

theorem isOf_of_spares {m n : Machine} {s : List Coroutine} (h : Life.IsOf (m.thread, s) l)
    (hspares : m.Spares n) : Life.IsOf (n.thread, s) l := by
  have hc := hspares.coroutine
  have htried := hspares.tried
  cases h with
  | unborn hnone => exact .unborn (hc.trans hnone)
  | ready ht hsome => exact .ready (htried.trans ht) (hc.trans hsome)
  | stepping ht hnone => exact .stepping (htried.trans ht) (hc.trans hnone)
  | ended ht hnone => exact .ended (htried.trans ht) (hc.trans hnone)

/-- A request to compile counts only while the script is unborn. -/
theorem next_compile {s : List Coroutine} {m : Machine} (compiler : String)
    (h : Life.IsOf (m.thread, s) l) :
    ∃ l', Life.IsOf ((m.compile compiler).thread, s) l' ∧
      l.Next ⟨m, .act (.compile compiler)⟩ l' := by
  cases htried : m.state.triedToCompile with
  | true =>
    rw [Machine.compile_of_tried compiler htried]
    exact ⟨l, h, .stay rfl⟩
  | false =>
    have hfirst : m.thread.triedToCompile = false := htried
    cases h with
    | unborn hnone =>
      have ht := m.triedToCompile_compile compiler
      cases hc : (m.compile compiler).thread.coroutine with
      | none => exact ⟨.ended, .ended ht hc, .stillborn rfl⟩
      | some c => exact ⟨.ready c, .ready ht hc, .born rfl⟩
    | ready ht _ => simp [hfirst] at ht
    | stepping ht _ => simp [hfirst] at ht
    | ended ht _ => simp [hfirst] at ht

/-- The start of a step: only a coroutine that waits can be stepped. -/
theorem next_enter {s : List Coroutine} {m : Machine} {c : Coroutine}
    (h : Life.IsOf (m.thread, s) l) (hc : m.thread.coroutine = some c) :
    ∃ l', Life.IsOf ((Moment.after ⟨m, .enter c true⟩).thread, c :: s) l' ∧
      l.Next ⟨m, .enter c true⟩ l' := by
  cases h with
  | ready htried hsome =>
    obtain rfl := Option.some.inj (hsome.symm.trans hc)
    exact ⟨.stepping _, .stepping htried rfl, .enter⟩
  | unborn hnone => simp [hnone] at hc
  | stepping _ hnone => simp [hnone] at hc
  | ended _ hnone => simp [hnone] at hc

/-- The end of a step, by which the thread gets its coroutine back, or not. -/
theorem next_leave {s : List Coroutine} {m : Machine} {c : Coroutine} (answers : List Answer)
    (step : Step) (h : Life.IsOf (m.thread, c :: s) l) :
    ∃ l', Life.IsOf ((Moment.after ⟨m, .leave c answers step true⟩).thread, s) l' ∧
      l.Next ⟨m, .leave c answers step true⟩ l' := by
  cases h with
  | stepping htried hnone =>
    have hafter : Moment.after ⟨m, .leave c answers step true⟩ =
        ((m.record (.leave c.name answers)).conclude step (c.advance answers)).2 := rfl
    by_cases hlast : m.state.status = .done ∨ step.isLast
    · refine ⟨.ended, ?_, .finish hlast⟩
      rw [hafter, Machine.conclude_of_last (m := m.record (.leave c.name answers)) _ hlast]
      exact .ended htried hnone
    · obtain ⟨status, rfl, hconclude⟩ := Machine.conclude_of_not_last
        (m := m.record (.leave c.name answers)) (c.advance answers) hlast
      obtain ⟨hd, hs⟩ := not_or.mp hlast
      refine ⟨.ready (c.advance answers), ?_, .suspend (fun he => hs (decide_eq_true he)) hd⟩
      rw [hafter, hconclude]
      exact .ready htried rfl

/-- The life of a script goes on with what happens to its thread. -/
theorem next_life {s t : List Coroutine} (h : Life.IsOf (x.machine.thread, s) l)
    (hx : x.Happens s t) : ∃ l', Life.IsOf (x.after.thread, t) l' ∧ l.Next x l' := by
  obtain ⟨m, move⟩ := x
  cases hscript : move.isOfScript with
  | true =>
    cases hx with
    | enterScript hc _ _ => exact next_enter h hc
    | leaveScript => exact next_leave _ _ h
    | _ => simp [Move.isOfScript] at hscript
  | false =>
    cases hcompile : move.compiles with
    | false =>
      -- the script is neither stepped nor compiled, so it stays what it is
      obtain ⟨rfl, hspares⟩ := hx.spares hscript hcompile
      exact ⟨l, isOf_of_spares h hspares, .stay hscript⟩
    | true =>
      obtain ⟨compiler, rfl⟩ := Move.eq_compile hcompile
      cases hx with
      | act _ => exact next_compile compiler h

theorem next_joined (h : Life.IsOf a l) (hx : x.JoinsThreads a b) :
    ∃ l', Life.IsOf b l' ∧ l.Next x l' := by
  obtain ⟨t, s⟩ := a
  obtain ⟨u, s'⟩ := b
  obtain ⟨ht, hu, hhappens⟩ := hx
  subst ht hu
  exact next_life h hhappens

/-- What happens to a thread is a piece of the life of its script. -/
theorem life_path (h : Life.IsOf a l) (hpath : Path Moment.JoinsThreads a moments b) :
    ∃ l', Life.IsOf b l' ∧ Path Life.Next l moments l' := by
  induction hpath generalizing l with
  | nil => exact ⟨l, h, .nil⟩
  | cons hx _ ih =>
    obtain ⟨l₁, h₁, hnext⟩ := next_joined h hx
    obtain ⟨l₂, h₂, hrest⟩ := ih h₁
    exact ⟨l₂, h₂, .cons hnext hrest⟩

/-- Whatever happens to a thread, its script stands somewhere then. -/
theorem life_of_mem (h : Life.IsOf a l) (hpath : Path Moment.JoinsThreads a moments b)
    (hx : x ∈ moments) : ∃ s l', Life.IsOf (x.machine.thread, s) l' := by
  obtain ⟨s, _, hjoin, l', hl'⟩ := hpath.keeps_before (P := fun s => ∃ l, Life.IsOf s l)
    (fun _ _ _ _ hx hs => by
      obtain ⟨l, hl⟩ := hs
      obtain ⟨l', hl', _⟩ := next_joined hl hx
      exact ⟨l', hl'⟩) ⟨l, h⟩ x hx
  have hthread : x.machine.thread = s.1 := hjoin.1
  refine ⟨s.2, l', ?_⟩
  rw [hthread]
  exact hl'

/-! ## What a life can be -/

variable {l' : Life}

/-- A thread that has a coroutine has been compiled. -/
theorem tried_of_coroutine {t : Thread} {s : List Coroutine} {c : Coroutine}
    (h : Life.IsOf (t, s) l) (hc : t.coroutine = some c) : t.triedToCompile := by
  cases h with
  | unborn hnone => simp [hnone] at hc
  | ready htried _ => exact htried
  | stepping htried _ => exact htried
  | ended htried _ => exact htried

/-- A script that is over stays so. -/
theorem ended_next (h : Life.Next .ended x l') : x.move.isOfScript = false ∧ l' = .ended := by
  cases h with
  | stay hscript => exact ⟨hscript, rfl⟩

theorem ended_path (h : Path Life.Next .ended moments l') :
    ∀ x ∈ moments, x.move.isOfScript = false := by
  have hended : ∀ x ∈ moments, ∃ s t, Life.Next s x t ∧ s = .ended :=
    h.keeps_before (P := fun l => l = .ended) (fun x _ s t hx hs => (ended_next (hs ▸ hx)).2) rfl
  intro x hx
  obtain ⟨s, t, hnext, rfl⟩ := hended x hx
  exact (ended_next hnext).1

theorem stepsScript_of_isOfScript {move : Move} (h : move.isOfScript = false) :
    move.stepsScript = false := by
  cases move with
  | enter c attached => cases attached <;> first | rfl | simp [Move.isOfScript] at h
  | _ => rfl

theorem isOfScript_of_endsScript (hend : x.endsScript) : x.move.isOfScript := by
  obtain ⟨m, move⟩ := x
  cases move with
  | leave c answers step attached =>
    cases attached with
    | true => rfl
    | false => exact hend.elim
  | _ => exact hend.elim

/-- With the end of its last step a script is over. -/
theorem ended_of_endsScript (h : l.Next x l') (hend : x.endsScript) : l' = .ended := by
  cases h with
  | suspend hs hd =>
    rcases hend with he | he
    · exact absurd he hd
    · exact absurd (of_decide_eq_true he) hs
  | finish _ => rfl
  | enter => exact hend.elim
  | stay hscript | born hscript | stillborn hscript =>
    simp [isOfScript_of_endsScript hend] at hscript

/-- Who is handed a value is told so by the last step of the script. -/
theorem endsScript_of_hasValue {step : Step} (h : x.resumed? = some step) (hv : step.hasValue) :
    x.endsScript := by
  obtain ⟨m, move⟩ := x
  cases move with
  | pass =>
    have hstep : (if m.state.status = .promiseWait then Step.suspended .promiseWait
        else .completed none) = step := Option.some.inj h
    rw [← hstep] at hv
    split at hv <;> simp [Step.hasValue] at hv
  | leave c answers inner attached =>
    cases attached with
    | false => simp [Moment.resumed?] at h
    | true =>
      by_cases hlast : m.state.status = .done ∨ inner.isLast
      · exact hlast
      · obtain ⟨status, rfl, heq⟩ :=
          Machine.conclude_of_not_last (m := m.record (.leave c.name answers)) (c.advance answers)
            hlast
        have hstep : Step.suspended status = step := by
          rw [← Option.some.inj h]
          exact (congrArg Prod.fst heq).symm
        rw [← hstep] at hv
        simp [Step.hasValue] at hv
  | _ => simp [Moment.resumed?] at h

/-- Nobody is handed a value but by the script. -/
theorem hasValue_of_isOfScript (hscript : x.move.isOfScript = false) {step : Step}
    (h : x.resumed? = some step) : step.hasValue = false := by
  cases hv : step.hasValue with
  | false => rfl
  | true => simp [isOfScript_of_endsScript (endsScript_of_hasValue h hv)] at hscript

/-- A value is handed over at most once in the life of a script. -/
theorem countP_hasValue (h : Path Life.Next l moments l') :
    ((moments.filterMap Moment.resumed?).countP Step.hasValue) ≤ 1 := by
  induction h with
  | nil => exact Nat.zero_le 1
  | @cons l l₁ l₂ x moments hx hrest ih =>
    rw [List.filterMap_cons]
    split
    · exact ih
    · next step hstep =>
      rw [List.countP_cons]
      split
      · next hv =>
        -- the script is over, so nobody else is handed a value
        obtain rfl := ended_of_endsScript hx (endsScript_of_hasValue hstep hv)
        have hnone : (moments.filterMap Moment.resumed?).countP Step.hasValue = 0 := by
          rw [List.countP_eq_zero]
          intro step' hmem
          obtain ⟨y, hy, hy'⟩ := List.mem_filterMap.mp hmem
          rw [hasValue_of_isOfScript (ended_path hrest y hy) hy']
          exact Bool.false_ne_true
        omega
      · exact ih

/-! ## Resumptions -/

/-- Code that is run while the coroutine is off the thread does not step the script. -/
theorem stepsScript_of_leads {m : Machine} {result : Option Machine} (h : Leads m moments result)
    (htried : m.thread.triedToCompile) (hnone : m.thread.coroutine = none) :
    ∀ x ∈ moments, x.move.stepsScript = false := by
  obtain ⟨_, hpath, _⟩ := path_threads (s := []) h
  obtain ⟨_, _, hlife⟩ := life_path (.ended htried hnone) hpath
  exact fun x hx => stepsScript_of_isOfScript (ended_path hlife x hx)

theorem countP_stepsScript_eq_zero (h : ∀ x ∈ moments, x.move.stepsScript = false) :
    moments.countP (fun x => x.move.stepsScript) = 0 := by
  rw [List.countP_eq_zero]
  intro x hx
  rw [h x hx]
  exact Bool.false_ne_true

/-- Whoever resumes a thread steps its script at most once. -/
theorem countP_stepsScript_resume {m : Machine} {s : List Coroutine}
    (h : Life.IsOf (m.thread, s) l) (depth : Nat) :
    (m.moments depth .resume).countP (fun x => x.move.stepsScript) ≤ 1 := by
  have hmoments : m.moments depth .resume =
      m.resumeMoments (Program.execute depth) (Program.tell depth) := rfl
  rw [hmoments, Machine.resumeMoments]
  split
  · exact Nat.zero_le 1
  · split
    · exact Nat.zero_le 1
    · next c hc =>
      -- a thread with a coroutine has been compiled, so nothing in its step gives it another
      have htried : m.thread.triedToCompile := tried_of_coroutine h hc
      have hbody : (Program.tell depth Step c.program ((Move.enter c true).apply m)).countP
          (fun x => x.move.stepsScript) = 0 :=
        countP_stepsScript_eq_zero
          (stepsScript_of_leads (Program.execute_fits depth Step c.program _) htried rfl)
      rw [Coroutine.moments, List.countP_append, List.countP_cons, hbody]
      cases Program.execute depth Step c.program ((Move.enter c true).apply m) <;>
        exact Nat.le_refl 1

/-- Only a thread that may go on is stepped, and its status tells so to its script. -/
theorem status_of_stepsScript {s t : List Coroutine} (hx : x.Happens s t)
    (hsteps : x.move.stepsScript) :
    x.machine.state.status.goesOn ∧ x.after.state.status = .running := by
  cases hx with
  | @enterScript m _ c _ hd hp =>
    refine ⟨?_, rfl⟩
    change m.state.status.goesOn
    cases hs : m.state.status <;> first | rfl | exact absurd hs hd | exact absurd hs hp
  | _ => simp [Move.stepsScript] at hsteps

end SteppingLemmas

open SteppingLemmas

namespace World

/-- Whatever happens to a thread from its first day on, also while its script is being
stepped: its script is stepped only while the thread may go on; whoever resumes the thread
steps the script at most once, and is answered by the last thing that happens; the steps are
made one after the other, each from where the one before it stopped; behind the last step
there is no other; and at most one caller is handed a value. -/
theorem stepped_in_order {depth : Nat} {w : World} {tasks : List Task} {name top : String}
    {target : Target} {container : ContainerId} {pool : PoolId} {moments : List Moment}
    (hrun : (w.newThread name target top container pool).history depth name tasks = moments)
    (hlife : ∀ task ∈ tasks, task.command.ends name = false) :
    (∀ x ∈ moments, x.move.stepsScript →
        x.machine.state.status.goesOn ∧ x.after.state.status = .running) ∧
      (∀ x ∈ moments, ∀ depth',
        (x.machine.moments depth' .resume).countP (fun y => y.move.stepsScript) ≤ 1 ∧
        ∀ answer n, x.machine.perform depth' .resume = some (answer, n) →
          ∃ y step, (x.machine.moments depth' .resume).getLast? = some y ∧
            y.resumed? = some step ∧ answer = .step (some step)) ∧
      (∃ l, Path Life.Next .unborn moments l) ∧
      (∀ before x later, moments = before ++ x :: later → x.endsScript →
        ∀ y ∈ later, y.move.stepsScript = false) ∧
      (moments.filterMap Moment.resumed?).countP Step.hasValue ≤ 1 := by
  subst hrun
  have ht : (w.newThread name target top container pool).threads.get? name =
      some { top, target, container, pool } := Table.get?_insert_self _ _ _
  obtain ⟨u, hpath, _⟩ := World.history_path depth ht hlife
  have hfirst : Life.IsOf ({ top, target, container, pool }, []) .unborn := .unborn rfl
  obtain ⟨l, _, hlives⟩ := life_path hfirst hpath
  refine ⟨fun x hx hsteps => ?_, fun x hx depth' => ?_, ⟨l, hlives⟩, ?_, countP_hasValue hlives⟩
  · obtain ⟨_, _, hjoin⟩ := hpath.step_of_mem hx
    exact status_of_stepsScript hjoin.2.2 hsteps
  · obtain ⟨_, _, hl⟩ := life_of_mem hfirst hpath hx
    exact ⟨countP_stepsScript_resume hl depth', fun _ _ => Machine.resume_answer⟩
  · intro before x later heq hend y hy
    rw [heq] at hlives
    obtain ⟨_, _, hlater⟩ := hlives.split
    cases hlater with
    | cons hx hrest =>
      obtain rfl := ended_of_endsScript hx hend
      exact stepsScript_of_isOfScript (ended_path hrest y hy)

end World

/-! ## A script that is resumed from inside -/

/-- A script of two steps. In the first one it resumes its own thread and assigns a status
to it, in the second one it completes with a value. -/
def exSelfResuming : World where
  host :=
    { compilers := .ofList [("c", .scripted [.ok
        { script := [
            { actions := [.resume, .setStatus .promiseWait], conclusion := .suspend .yielded },
            { actions := [.resume], conclusion := .complete (.text "over") }] }])] }

/-- The thread is compiled and resumed again and again, also after its status was
assigned to it. -/
def exResumptions : List Task :=
  [⟨0, .act "t" (.compile "c")⟩, ⟨1, .act "t" .resume⟩, ⟨2, .act "t" .resume⟩,
    ⟨3, .act "t" (.setStatus .running)⟩, ⟨4, .act "t" (.compile "c")⟩, ⟨5, .act "t" .resume⟩]

/-- What happens to the thread in the meantime. -/
def exResumed : List Moment :=
  (exSelfResuming.newThread "t" { id := "sprite", name := "Sprite", container := none } "hat" none
    "pool").history 3 "t" exResumptions

/-- The script is stepped twice, and one of the five callers is handed its value. -/
theorem stepped_in_order_twice :
    exResumed.countP (fun x => x.move.stepsScript) = 2 ∧
      (exResumed.filterMap Moment.resumed?).length = 5 ∧
      (exResumed.filterMap Moment.resumed?).countP Step.hasValue = 1 ∧
      ∀ before x later, exResumed = before ++ x :: later → x.endsScript →
        ∀ y ∈ later, y.move.stepsScript = false :=
  ⟨by decide +kernel, by decide +kernel, by decide +kernel,
    (World.stepped_in_order (show _ = exResumed from rfl) (by decide)).2.2.2.1⟩

end BlockThreads
