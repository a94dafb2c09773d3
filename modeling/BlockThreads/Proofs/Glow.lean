import BlockThreads.Proofs.SharedOutcomes
import BlockThreads.Proofs.Retirement

/-!
# Threads that ask to glow

A script asks to be shown glowing from the moment it is compiled. A thread that is done has
nothing to show, so whatever finishes a thread takes its wish to glow back: stopping,
retiring, and the end of its script. There is one way around it. A request to compile does
not look at the status, so a thread that is finished before it is compiled for the first
time asks to glow afterwards, and nobody takes that back.

Results:
1. `glow_compile`: when a request to compile makes a thread ask to glow.
2. `dark_until_compiled`: a thread that is done does not ask to glow, at every moment,
   exactly as long as it is not made to glow by its first request to compile while it is
   done.
3. `compile_lights`: a retired thread that is compiled asks to glow.
-/

namespace BlockThreads

/-- If the thread is done it does not ask to glow. -/
def ThreadState.DarkWhenDone (s : ThreadState) : Prop := s.status = .done → s.glow = false

instance (s : ThreadState) : Decidable s.DarkWhenDone :=
  inferInstanceAs (Decidable (s.status = .done → s.glow = false))

namespace Machine

/-- What the first request to compile comes to: the outcome that is remembered, or else the
answer of the compiler. -/
def outcome (compiler : String) (m : Machine) : Outcome :=
  m.tried.rememberedOutcome?.getD (m.tried.callCompiler compiler).1

/-- Whether a request to compile makes the thread ask to glow: it is the first one, it comes
to a script, and the container does not forbid scripts to glow. -/
def raisesGlow (compiler : String) (m : Machine) : Bool :=
  !m.state.triedToCompile && (m.outcome compiler).isOk &&
    !(m.host.container m.thread.container).forceNoGlow

end Machine

/-- Whether the glow is assigned from outside. -/
def Move.assignsGlow : Move → Bool
  | .act (.setGlow _ _) => true
  | _ => false

/-- Whether a thread that is done is made to ask to glow, by a request to compile. -/
def Moment.lightsFinished (x : Moment) : Bool :=
  match x.move with
  | .act (.compile compiler) =>
    decide (x.machine.state.status = .done) && x.machine.raisesGlow compiler
  | _ => false

namespace GlowLemmas

open SharedOutcomesLemmas

variable {m n : Machine} {x : Moment} {s t : List Coroutine}

/-! ## Compiling -/

theorem glow_attach (script : Script) (m : Machine) :
    (m.attach script).state.glow =
      (!(m.host.container m.thread.container).forceNoGlow || m.state.glow) := by
  have hcontainer :
      ((m.bindProcedures script).startScript script).host.container
        ((m.bindProcedures script).startScript script).thread.container =
      m.host.container m.thread.container := rfl
  simp only [Machine.attach, Machine.requestGlow, hcontainer]
  cases (m.host.container m.thread.container).forceNoGlow <;> rfl

/-- To remember an outcome does not change whether scripts may glow. -/
theorem forceNoGlow_rememberOutcome (outcome : Outcome) (m : Machine) (id : ContainerId) :
    ((m.rememberOutcome outcome).host.container id).forceNoGlow =
      (m.host.container id).forceNoGlow := by
  unfold Machine.rememberOutcome
  split
  · rfl
  · show ((Host.editContainer _ _ _).container id).forceNoGlow = _
    rw [container_editContainer]
    split
    · next h =>
      rw [h]
      rfl
    · rfl

/-- What a fresh compilation does to the glow. -/
theorem glow_compileAfresh (compiler : String) (m : Machine) :
    (m.compileAfresh compiler).state.glow =
      ((m.callCompiler compiler).1.isOk &&
        !(m.host.container m.thread.container).forceNoGlow || m.state.glow) := by
  rw [Machine.compileAfresh_eq]
  split
  · next script hscript =>
    rw [glow_attach, forceNoGlow_rememberOutcome, Machine.rememberOutcome_thread, hscript]
    have hstate : ((m.callCompiler compiler).2.rememberOutcome (.ok script)).state.glow =
        m.state.glow := congrArg (fun t => t.glow) (Machine.rememberOutcome_thread _ _)
    rw [hstate]
    rfl
  · next error herror =>
    rw [herror]
    exact congrArg (fun t => t.glow) (Machine.rememberOutcome_thread (.error error) _)

/-- When a request to compile makes a thread ask to glow. -/
theorem glow_compile (compiler : String) (m : Machine) :
    (m.compile compiler).state.glow = (m.raisesGlow compiler || m.state.glow) := by
  cases htried : m.state.triedToCompile with
  | true =>
    rw [Machine.compile_of_tried compiler htried, Machine.raisesGlow, htried]
    rfl
  | false =>
    rw [Machine.compile_of_untried compiler htried, Machine.raisesGlow, htried, Machine.outcome]
    cases hout : m.tried.rememberedOutcome? with
    | none => exact glow_compileAfresh compiler m.tried
    | some outcome =>
      cases outcome with
      | error error => rfl
      | ok script => exact glow_attach script (m.tried.log (.usingRemembered m.thread.top))

/-! ## What happens to a thread -/

/-- Work on the stack has nothing to do with the glow. -/
theorem dark_of_restacks (h : m.Restacks n) (hdark : m.state.DarkWhenDone) :
    n.state.DarkWhenDone := by
  obtain ⟨_, _, _, _, rfl⟩ := h
  exact hdark

theorem dark_finish (m : Machine) : (m.editState ThreadState.finish).state.DarkWhenDone :=
  fun _ => rfl

/-- A thread keeps dark when it performs an action, unless it is assigned another status or
glow, or is compiled when it is done. -/
theorem dark_act {action : Action} (hplain : action.isPlain) (hdark : m.state.DarkWhenDone)
    (hstatus : (Move.act action).assignsStatus = false)
    (hglow : (Move.act action).assignsGlow = false)
    (hlights : Moment.lightsFinished ⟨m, .act action⟩ = false) :
    ((Move.act action).apply m).state.DarkWhenDone := by
  by_cases hstack : action.movesStack
  · exact dark_of_restacks (Action.restacks hstack m) hdark
  · cases action with
    | stop =>
      show m.stopScript.state.DarkWhenDone
      rcases m.stopScript_cases with h | ⟨n, -, h⟩
      · exact dark_of_restacks h hdark
      · rw [h]
        exact dark_finish n
    | retire => exact fun _ => rfl
    | kill => exact fun _ => rfl
    | settle value =>
      show (m.state.settle value).DarkWhenDone
      unfold ThreadState.settle
      split
      · intro hdone
        cases hdone
      · exact hdark
    | compile compiler =>
      intro hdone
      have hstill : m.state.status = .done :=
        (Machine.status_compile compiler m).symm.trans hdone
      have hraises : m.raisesGlow compiler = false := by
        simpa [Moment.lightsFinished, hstill] using hlights
      show (m.compile compiler).state.glow = false
      rw [glow_compile, hraises, hdark hstill]
      rfl
    | setStatus status => cases hstatus
    | setGlow on block => cases hglow
    | report | startWarpTimer | clearWarpTimer | sleep | setKilled | setStackClick
    | takeContext => exact hdark
    | runProcedure | resume | callLegacy | bindLegacy => cases hplain
    | _ => exact absurd rfl hstack

/-- The end of a step leaves a thread dark when it finishes it, and not done else. -/
theorem dark_conclude (step : Step) (c : Coroutine) (m : Machine) :
    (m.conclude step c).2.state.DarkWhenDone := by
  by_cases hlast : m.state.status = .done ∨ step.isLast
  · rw [Machine.conclude_of_last c hlast]
    exact dark_finish m
  · obtain ⟨status, rfl, h⟩ := Machine.conclude_of_not_last c hlast
    rw [h]
    intro hdone
    exact absurd (.inr (decide_eq_true hdone)) hlast

/-- A thread keeps dark, unless it is assigned another status or glow, or is compiled when
it is done. -/
theorem dark_step (hx : x.Happens s t) (hdark : x.machine.state.DarkWhenDone)
    (hstatus : x.move.assignsStatus = false) (hglow : x.move.assignsGlow = false)
    (hlights : x.lightsFinished = false) : x.after.state.DarkWhenDone := by
  cases hx with
  | act hplain => exact dark_act hplain hdark hstatus hglow hlights
  | @use m _ step hplain =>
    cases step with
    | yield | yieldTick =>
      -- the thread is not done any longer
      intro hdone
      cases hdone
    | onThread | retire => cases hplain
    | _ => exact hdark
  | @bind m _ block context =>
    show (m.replaceBase block).state.DarkWhenDone
    exact dark_of_restacks (.replaceBase block m) hdark
  | call | enterCall | leaveCall => exact hdark
  | @pass m _ _ =>
    simp only [Moment.after, Move.apply]
    split
    · exact hdark
    · intro hdone
      cases hdone
  | enterScript _ _ _ =>
    intro hdone
    cases hdone
  | @leaveScript m _ c answers step =>
    exact dark_conclude step (c.advance answers) (m.record (.leave c.name answers))

/-- A request that makes a finished thread ask to glow leaves it done and asking. -/
theorem not_dark_of_lights (hlights : x.lightsFinished) : ¬ x.after.state.DarkWhenDone := by
  obtain ⟨m, move⟩ := x
  unfold Moment.lightsFinished at hlights
  split at hlights
  · next compiler hmove =>
    obtain rfl : move = .act (.compile compiler) := hmove
    obtain ⟨hdone, hraises⟩ := Bool.and_eq_true_iff.mp hlights
    have hdone' : m.state.status = .done := of_decide_eq_true hdone
    intro hdark
    have hglow : (m.compile compiler).state.glow = false :=
      hdark ((Machine.status_compile compiler m).trans hdone')
    have hraised : m.raisesGlow compiler = true := hraises
    rw [glow_compile, hraised] at hglow
    cases hglow
  · cases hlights

/-- A thread keeps dark at every moment, as long as nothing makes it glow when it is done. -/
theorem dark_path {a b : Thread × List Coroutine} {moments : List Moment}
    (hpath : Path Moment.JoinsThreads a moments b) (hdark : a.1.DarkWhenDone)
    (hassign : ∀ x ∈ moments, x.move.assignsStatus = false ∧ x.move.assignsGlow = false)
    (hlights : ∀ x ∈ moments, x.lightsFinished = false) :
    (∀ x ∈ moments, x.after.state.DarkWhenDone) ∧ b.1.DarkWhenDone := by
  have hkeeps := hpath.keeps_thread (P := fun t => t.DarkWhenDone)
    (fun x hx _ _ hhappens hbefore =>
      dark_step hhappens hbefore (hassign x hx).1 (hassign x hx).2 (hlights x hx)) hdark
  exact ⟨fun x hx => (hkeeps.1 x hx).2, hkeeps.2⟩

end GlowLemmas

open GlowLemmas

namespace World

/-- While nobody assigns a thread its status or its glow. After everything that happens to
the thread it does not ask to glow if it is done, exactly as long as no first request to
compile comes to a script when the thread is done already; and as long as that is so, it
does not ask to glow if it is done in the end. -/
theorem dark_until_compiled {depth : Nat} {w : World} {tasks : List Task} {name : String}
    {t : Thread} {moments rest : List Moment} (ht : w.threads.get? name = some t)
    (hdark : t.DarkWhenDone) (hlife : ∀ task ∈ tasks, task.command.ends name = false)
    (hrun : w.history depth name tasks = moments ++ rest)
    (hassign : ∀ x ∈ moments, x.move.assignsStatus = false ∧ x.move.assignsGlow = false) :
    ((∀ x ∈ moments, x.after.state.DarkWhenDone) ↔ ∀ x ∈ moments, x.lightsFinished = false) ∧
      ((∀ x ∈ moments, x.lightsFinished = false) → rest = [] →
        ∀ replies w', w.run depth tasks = some (replies, w') →
          ∃ t', w'.threads.get? name = some t' ∧ t'.DarkWhenDone) := by
  obtain ⟨u, hpath, hu⟩ := World.history_path depth ht hlife
  rw [hrun] at hpath
  obtain ⟨v, hmoments, hrest⟩ := hpath.split
  refine ⟨⟨fun hall x hx => ?_, fun hno => (dark_path hmoments hdark hassign hno).1⟩, ?_⟩
  · cases hlights : x.lightsFinished with
    | false => rfl
    | true => exact absurd (hall x hx) (not_dark_of_lights hlights)
  · rintro hno rfl replies w' hw
    obtain ⟨t', ht', hend⟩ := hu replies w' hw
    cases hrest
    have hv := (dark_path hmoments hdark hassign hno).2
    rw [hend] at hv
    exact ⟨t', ht', hv⟩

end World

/-! ## Compiling before and after the end -/

/-- A world with one thread and a compiler whose script does nothing. -/
def exGlowing : World where
  host := { compilers := .ofList [("c", .scripted [.ok {}])] }
  threads := .ofList [("t",
    { top := "hat"
      target := { id := "sprite", name := "Sprite", container := none }
      container := none
      pool := "pool" })]

/-- The thread is compiled, run and asked to be compiled again. -/
def exCompiled : List Task :=
  [⟨0, .act "t" (.compile "c")⟩, ⟨1, .act "t" .resume⟩, ⟨2, .act "t" (.compile "c")⟩]

/-- The thread is retired and then compiled. -/
def exRetiredEarly : List Task := [⟨0, .act "t" .retire⟩, ⟨1, .act "t" (.compile "c")⟩]

/-- A thread whose script has come to its end does not ask to glow, also when it is asked to
be compiled again. -/
theorem dark_until_compiled_run :
    (exGlowing.history 1 "t" exCompiled).length = 4 ∧
      ∀ x ∈ exGlowing.history 1 "t" exCompiled, x.after.state.DarkWhenDone := by
  refine ⟨by decide, ?_⟩
  exact (@World.dark_until_compiled 1 exGlowing exCompiled "t" _ _ [] rfl (by decide) (by decide)
    (List.append_nil _).symm (by decide)).1.mpr (by decide)

/-- A thread that is retired and then compiled is done and asks to glow, although nobody
assigned its status or its glow. -/
theorem compile_lights :
    (∀ x ∈ exGlowing.history 1 "t" exRetiredEarly,
      x.move.assignsStatus = false ∧ x.move.assignsGlow = false) ∧
    ∃ replies w t, exGlowing.run 1 exRetiredEarly = some (replies, w) ∧
      w.threads.get? "t" = some t ∧ t.status = .done ∧ t.glow = true :=
  ⟨by decide, _, _, _, rfl, rfl, rfl, rfl⟩

end BlockThreads
