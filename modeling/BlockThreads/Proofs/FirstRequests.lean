import BlockThreads.Proofs.Clicks
import BlockThreads.Proofs.Glow

/-!
# The first request to compile

A thread may be asked to be compiled as often as one likes, and only the first request
counts. It comes to a script, and everything that belongs to the script is attached to the
thread, or it comes to an error, and the thread has nothing of a script. There is no third
way: a thread never has half a script.

What the first request comes to may be remembered with the blocks, for other threads to
find. The only thing that is ever written there is an outcome that was missing.

Results:
1. `triedToCompile_path`: whether a thread was asked, after whatever has happened to it.
2. `compile_error`, `compile_ok`: what the first request makes of the thread.
3. `container_compile`: what a request makes of what is remembered.
4. `only_first_request_counts`: all of this, in every run.
-/

namespace BlockThreads

namespace Machine

/-- The outcome that a request to compile adds to what is remembered in a place, of the
script that starts from a block. A thread that was started by a click adds nothing. -/
def addedOutcome? (compiler : String) (place : ContainerId) (top : String) (m : Machine) :
    Option Outcome :=
  if m.state.triedToCompile = false ∧ m.state.stackClick = false ∧
      place = m.host.outcomePlace m.thread ∧ top = m.thread.top then
    some (m.outcome compiler)
  else none

end Machine

namespace FirstRequestsLemmas

open SharedOutcomesLemmas ClicksLemmas

variable {m : Machine} {compiler : String} {a b : Thread × List Coroutine}

/-! ## Whether a thread was asked -/

/-- A step of the script does not count as a request. -/
theorem triedToCompile_isOfScript {x : Moment} {s t : List Coroutine} (hx : x.Happens s t)
    (hscript : x.move.isOfScript) :
    x.after.thread.triedToCompile = x.machine.thread.triedToCompile := by
  cases hx with
  | enterScript => rfl
  | @leaveScript m _ c answers step =>
    obtain ⟨status, glow, coroutine, h⟩ := Machine.thread_leave c answers step m
    rw [Moment.after, h]
  | _ => simp [Move.isOfScript] at hscript

/-- A thread was asked if it was asked before, or is asked now. -/
theorem triedToCompile_happens {x : Moment} {s t : List Coroutine} (hx : x.Happens s t) :
    x.after.thread.triedToCompile =
      (x.machine.thread.triedToCompile || x.move.compiles) := by
  cases hcompile : x.move.compiles with
  | true =>
    obtain ⟨m, move⟩ := x
    obtain ⟨compiler, rfl⟩ := Move.eq_compile hcompile
    rw [Bool.or_true]
    exact m.triedToCompile_compile compiler
  | false =>
    rw [Bool.or_false]
    cases hscript : x.move.isOfScript with
    | true => exact triedToCompile_isOfScript hx hscript
    | false =>
      obtain ⟨_, hspares⟩ := hx.spares hscript hcompile
      exact hspares.tried

/-- Whether a thread was asked, after whatever has happened to it. -/
theorem triedToCompile_path {moments : List Moment}
    (hpath : Path Moment.JoinsThreads a moments b) :
    b.1.triedToCompile = (a.1.triedToCompile || moments.any fun x => x.move.compiles) := by
  induction hpath with
  | nil => rw [List.any_nil, Bool.or_false]
  | cons hx _ ih =>
    obtain ⟨ha, hb, hhappens⟩ := hx
    have hstep := triedToCompile_happens hhappens
    rw [ha, hb] at hstep
    rw [ih, hstep, List.any_cons, Bool.or_assoc]

/-! ## The thread -/

/-- The first request that comes to an error is noted, and changes nothing else of the
thread. -/
theorem compile_error (huntried : m.state.triedToCompile = false) {error : CompileError}
    (h : m.outcome compiler = .error error) :
    (m.compile compiler).thread = m.tried.thread := by
  rw [Machine.compile_of_untried compiler huntried]
  unfold Machine.outcome at h
  cases hout : m.tried.rememberedOutcome? with
  | some outcome =>
    rw [hout, Option.getD_some] at h
    subst h
    rfl
  | none =>
    rw [hout, Option.getD_none] at h
    simp only [Machine.compileAfresh_eq, h]
    exact Machine.rememberOutcome_thread (.error error) _

/-- The first request that comes to a script attaches it. -/
theorem compile_ok (huntried : m.state.triedToCompile = false) {script : Script}
    (h : m.outcome compiler = .ok script) :
    (m.compile compiler).thread = (m.tried.attach script).thread := by
  rw [Machine.compile_of_untried compiler huntried]
  unfold Machine.outcome at h
  cases hout : m.tried.rememberedOutcome? with
  | some outcome =>
    rw [hout, Option.getD_some] at h
    subst h
    exact thread_attach (m := m.tried) (n := m.tried.log (.usingRemembered m.thread.top)) rfl rfl
      script
  | none =>
    rw [hout, Option.getD_none] at h
    simp only [Machine.compileAfresh_eq, h]
    refine thread_attach (m := m.tried) ?_ ?_ script
    · exact Machine.rememberOutcome_thread (.ok script) (m.tried.callCompiler compiler).2
    · exact GlowLemmas.forceNoGlow_rememberOutcome (.ok script) (m.tried.callCompiler compiler).2 _

/-! ## What is remembered -/

/-- A request that follows a remembered outcome adds nothing to it. -/
theorem container_of_remembered {outcome : Outcome}
    (hout : m.tried.rememberedOutcome? = some outcome) (place : ContainerId) (top : String) :
    ((m.host.container place).outcome? top).or (m.addedOutcome? compiler place top) =
      (m.host.container place).outcome? top := by
  unfold Machine.addedOutcome?
  split
  · next h =>
    obtain ⟨_, hclick, rfl, rfl⟩ := h
    -- the outcome is found where one would be added
    have hclick' : m.tried.state.stackClick = false := hclick
    have hplace : (m.host.container (m.host.outcomePlace m.thread)).outcome? m.thread.top =
        some outcome := by
      unfold Machine.rememberedOutcome? at hout
      rw [hclick', if_neg Bool.false_ne_true] at hout
      exact hout
    rw [hplace]
    rfl
  · exact Option.or_none

/-- To remember an outcome in one place changes the outcomes of that place. -/
theorem container_remember (id place : ContainerId) (top : String) (outcome : Outcome)
    (h : Host) :
    ∃ outcomes, (h.editContainer id (Container.remember top outcome)).container place =
        { h.container place with outcomes } ∧
      ∀ other, outcomes.get? other =
        if place = id ∧ other = top then some outcome else (h.container place).outcome? other := by
  rw [container_editContainer]
  by_cases hplace : id = place
  · subst hplace
    rw [if_pos rfl]
    refine ⟨((h.container id).remember top outcome).outcomes, rfl, fun other => ?_⟩
    have hremember := Container.outcome?_remember (h.container id) top other outcome
    simp only [true_and, eq_comm (a := other)]
    exact hremember
  · rw [if_neg hplace]
    refine ⟨(h.container place).outcomes, rfl, fun other => ?_⟩
    rw [if_neg fun hboth => hplace hboth.1.symm]
    rfl

/-- A fresh compilation adds its outcome, where there was none. -/
theorem container_of_fresh (huntried : m.state.triedToCompile = false)
    (hnone : m.tried.rememberedOutcome? = none) (place : ContainerId) :
    ∃ outcomes, (m.tried.compileAfresh compiler).host.container place =
        { m.host.container place with outcomes } ∧
      ∀ top, outcomes.get? top =
        ((m.host.container place).outcome? top).or (m.addedOutcome? compiler place top) := by
  have houtcome : m.outcome compiler = (m.tried.callCompiler compiler).1 := by
    rw [Machine.outcome, hnone, Option.getD_none]
  have hcontainers : (m.tried.compileAfresh compiler).host.containers =
      if m.state.stackClick then m.host.containers
      else (m.host.editContainer (m.host.outcomePlace m.thread)
        (Container.remember m.thread.top (m.outcome compiler))).containers := by
    rw [houtcome]
    exact containers_compileAfresh compiler m.tried
  cases hclick : m.state.stackClick with
  | true =>
    rw [hclick, if_pos rfl] at hcontainers
    refine ⟨_, container_of_containers hcontainers place, fun top => ?_⟩
    have hnothing : m.addedOutcome? compiler place top = none := by
      unfold Machine.addedOutcome?
      rw [hclick, if_neg fun h => Bool.false_ne_true h.2.1.symm]
    rw [hnothing, Option.or_none]
    rfl
  | false =>
    rw [hclick, if_neg Bool.false_ne_true] at hcontainers
    have hmissing : (m.host.container (m.host.outcomePlace m.thread)).outcome? m.thread.top =
        none := by
      have hclick' : m.tried.state.stackClick = false := hclick
      unfold Machine.rememberedOutcome? at hnone
      rw [hclick', if_neg Bool.false_ne_true] at hnone
      exact hnone
    obtain ⟨outcomes, hcontainer, hget⟩ := container_remember (m.host.outcomePlace m.thread) place
      m.thread.top (m.outcome compiler) m.host
    refine ⟨outcomes, (container_of_containers hcontainers place).trans hcontainer, fun top => ?_⟩
    rw [hget, Machine.addedOutcome?]
    by_cases hentry : place = m.host.outcomePlace m.thread ∧ top = m.thread.top
    · rw [if_pos hentry, if_pos ⟨huntried, hclick, hentry⟩]
      obtain ⟨rfl, rfl⟩ := hentry
      rw [hmissing, Option.none_or]
    · rw [if_neg hentry, if_neg fun h => hentry h.2.2, Option.or_none]

/-- What a request makes of what is remembered: nothing is lost, and nothing is added but
the outcome of the request. -/
theorem container_compile (compiler : String) (m : Machine) (place : ContainerId) :
    ∃ outcomes, (m.compile compiler).host.container place =
        { m.host.container place with outcomes } ∧
      ∀ top, outcomes.get? top =
        ((m.host.container place).outcome? top).or (m.addedOutcome? compiler place top) := by
  cases htried : m.state.triedToCompile with
  | true =>
    rw [Machine.compile_of_tried compiler htried]
    refine ⟨_, rfl, fun top => ?_⟩
    have hnothing : m.addedOutcome? compiler place top = none := by
      unfold Machine.addedOutcome?
      rw [htried, if_neg fun h => Bool.false_ne_true h.1.symm]
    rw [hnothing, Option.or_none]
    rfl
  | false =>
    rw [Machine.compile_of_untried compiler htried]
    cases hout : m.tried.rememberedOutcome? with
    | none => exact container_of_fresh htried hout place
    | some outcome =>
      have hcontainer : (m.follow outcome).host.container place = m.host.container place :=
        container_of_containers (containers_of_quiet (quiet_follow outcome m)) place
      refine ⟨(m.host.container place).outcomes, ?_, fun top => ?_⟩
      · cases outcome with
        | error error => exact hcontainer
        | ok script =>
          rw [follow_ok] at hcontainer
          exact hcontainer
      · rw [container_of_remembered hout place top]
        rfl

end FirstRequestsLemmas

open FirstRequestsLemmas

namespace World

/-- Whatever has happened to a thread before it is asked to be compiled. If it was asked
already, with any compiler, nothing changes anywhere. Otherwise, if the request comes to an
error, the thread is marked as asked and is what it was; if it comes to a script, the thread
is what it was but for the script and its glow. In either case, of the rest of the world
only what is remembered, the counts of the compilers and the trace can change, and an
outcome is remembered only where there was none: the outcome of this request, for the block
that the thread starts from, in the place where the thread looks for it. -/
theorem only_first_request_counts {depth : Nat} {w : World} {tasks : List Task} {name : String}
    {t : Thread} {before later : List Moment} {m : Machine} {compiler : String}
    (ht : w.threads.get? name = some t)
    (hlife : ∀ task ∈ tasks, task.command.ends name = false)
    (hrun : w.history depth name tasks = before ++ ⟨m, .act (.compile compiler)⟩ :: later) :
    (if t.triedToCompile ∨ ∃ y ∈ before, y.move.compiles then m.compile compiler = m
      else
        match m.outcome compiler with
        | .error _ => (m.compile compiler).thread = { m.thread with triedToCompile := true }
        | .ok script => ∃ procedures coroutine glow blockGlow, (m.compile compiler).thread =
            { m.thread with
              triedToCompile := true
              isCompiled := true
              executableHat := script.executableHat
              procedures, coroutine := some coroutine, glow, blockGlow }) ∧
      m.host.Compiles (m.compile compiler).host ∧
      ∀ place, ∃ outcomes, (m.compile compiler).host.container place =
          { m.host.container place with outcomes } ∧
        ∀ top, outcomes.get? top =
          ((m.host.container place).outcome? top).or (m.addedOutcome? compiler place top) := by
  obtain ⟨u, hpath, _⟩ := World.history_path depth ht hlife
  rw [hrun] at hpath
  obtain ⟨v, hbefore, hrest⟩ := hpath.split
  have htried : m.state.triedToCompile =
      (t.triedToCompile || before.any fun x => x.move.compiles) := by
    cases hrest with
    | cons hx _ =>
      have hv := triedToCompile_path hbefore
      rw [← hx.1] at hv
      exact hv
  refine ⟨?_, Host.Compiles.compile compiler m, container_compile compiler m⟩
  split
  · next hasked =>
    refine Machine.compile_of_tried compiler ?_
    rw [htried, Bool.or_eq_true, List.any_eq_true]
    exact hasked
  · next hasked =>
    have huntried : m.state.triedToCompile = false := by
      rw [← Bool.not_eq_true, htried, Bool.or_eq_true, List.any_eq_true]
      exact hasked
    split
    · next error herror => exact compile_error huntried herror
    · next script hscript =>
      obtain ⟨glow, blockGlow, ha⟩ := m.tried.attach_thread script
      rw [compile_ok huntried hscript, ha]
      exact ⟨_, _, glow, blockGlow, rfl⟩

end World

/-! ## A thread that is asked twice -/

/-- A thread, one compiler that knows its script and one that does not. -/
def exTwoCompilers : World where
  host :=
    { containers := .ofList [(some "main", { blocks := .ofList [("hat", { opcode := "hat" })] })]
      compilers := .ofList
        [("c", .scripted [.ok {}]), ("d", .scripted [.error (.unsupported "hat")])] }
  threads := .ofList
    [("t", { top := "hat", target := { id := "sprite", name := "Sprite", container := some "main" },
             container := some "main", pool := "pool" })]

/-- The thread is asked to be compiled by the one, is marked as clicked, so that nothing that
is remembered counts, and is asked to be compiled by the other. -/
def exAskedTwice : List Task :=
  [⟨0, .act "t" (.compile "c")⟩, ⟨1, .act "t" (.setStackClick true)⟩,
    ⟨2, .act "t" (.compile "d")⟩]

/-- The first request attaches its script and is remembered. The second one would come to an
error, and nothing comes of it. -/
theorem only_first_request_counts_of_two :
    ∃ m x n, exTwoCompilers.history 1 "t" exAskedTwice =
        [⟨m, .act (.compile "c")⟩, x, ⟨n, .act (.compile "d")⟩] ∧
      (m.compile "c").thread.isCompiled ∧
      ((m.compile "c").host.container (some "main")).outcome? "hat" = some (m.outcome "c") ∧
      n.outcome "d" = .error (.unsupported "hat") ∧ n.compile "d" = n := by
  have hfirst := @World.only_first_request_counts 1 exTwoCompilers exAskedTwice "t" _ [] [_, _] _
    "c" rfl (by decide) rfl
  have hsecond := @World.only_first_request_counts 1 exTwoCompilers exAskedTwice "t" _ [_, _] [] _
    "d" rfl (by decide) rfl
  refine ⟨_, _, _, rfl, ?_, ?_, rfl, ?_⟩
  · obtain ⟨procedures, coroutine, glow, blockGlow, hthread⟩ := hfirst.1
    exact congrArg (fun t : Thread => t.isCompiled) hthread
  · obtain ⟨outcomes, hcontainer, hget⟩ := hfirst.2.2 (some "main")
    rw [hcontainer]
    exact hget "hat"
  · exact hsecond.1

end BlockThreads
