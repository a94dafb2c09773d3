import BlockThreads.Proofs.Chronicle
import BlockThreads.Scripted

/-!
# Retired threads

A sequencer retires a thread so that it is never stepped again. Everything the library
does by itself respects that: a thread that is done stays done, whatever is asked of it,
and is not stepped. There is one exception. A legacy block that gives way sets the status
of its thread without a look at it, so it brings a retired thread back.

Results:
1. `retired_until_yield`: after a thread has retired, it is done at every moment exactly
   as long as no legacy block gives way on it, and as long as that is so its script is
   not stepped.
2. `yield_revives`: a retired thread on which a legacy block gives way is stepped again.
-/

namespace BlockThreads

namespace Move

/-- Whether a move retires the thread. -/
def isRetirement : Move → Bool
  | .act .retire => true
  | .act .kill => true
  | _ => false

def isYield : Move → Bool
  | .use .yield => true
  | .use .yieldTick => true
  | _ => false

/-- Whether the status is assigned from outside. -/
def assignsStatus : Move → Bool
  | .act (.setStatus _) => true
  | _ => false

end Move

namespace RetirementLemmas

variable {x : Moment} {s t : List Coroutine}

/-- A thread that is done stays done when it performs an action, unless its status is
assigned. -/
theorem done_act {action : Action} {m : Machine} (hplain : action.isPlain)
    (hd : m.state.status = .done) (ha : (Move.act action).assignsStatus = false) :
    ((Move.act action).apply m).state.status = .done := by
  by_cases hstack : action.movesStack
  · rw [(Action.restacks hstack m).status, hd]
  · cases action with
    | stop =>
      have hcases : m.Restacks m.stopScript ∨
          ∃ n, m.Restacks n ∧ m.stopScript = n.editState ThreadState.finish :=
        m.stopScript_cases
      rcases hcases with h | ⟨n, -, h⟩
      · exact h.status.trans hd
      · have happly : (Move.act .stop).apply m = m.stopScript := rfl
        rw [happly, h]
        rfl
    | retire => rfl
    | kill => rfl
    | settle value =>
      have hne : m.state.status ≠ .promiseWait := by rw [hd]; decide
      have happly : ((Move.act (.settle value)).apply m).state = m.state.settle value := rfl
      rw [happly, ThreadState.settle_of_ne value hne, hd]
    | compile compiler =>
      have happly : (Move.act (.compile compiler)).apply m = m.compile compiler := rfl
      rw [happly, Machine.status_compile, hd]
    | setStatus status => simp [Move.assignsStatus] at ha
    | report | startWarpTimer | clearWarpTimer | sleep | setKilled | setStackClick | setGlow
    | takeContext => exact hd
    | runProcedure | resume | callLegacy | bindLegacy => simp [Action.isPlain] at hplain
    | _ => simp [Action.movesStack] at hstack

/-- A thread that is done stays done when a legacy block uses its utility, unless the
block gives way. -/
theorem done_use {step : Use} {m : Machine} (hplain : step.isPlain)
    (hd : m.state.status = .done) (hy : (Move.use step).isYield = false) :
    ((Move.use step).apply m).state.status = .done := by
  cases step with
  | yield => simp [Move.isYield] at hy
  | yieldTick => simp [Move.isYield] at hy
  | onThread action => simp [Use.isPlain] at hplain
  | retire => simp [Use.isPlain] at hplain
  | _ => exact hd

/-- A thread that is done stays done, unless its status is assigned or a legacy block
gives way. -/
theorem done_step (hx : x.Happens s t) (hd : x.machine.state.status = .done)
    (ha : x.move.assignsStatus = false) (hy : x.move.isYield = false) :
    x.after.state.status = .done := by
  cases hx with
  | act hplain => exact done_act hplain hd ha
  | use hplain => exact done_use hplain hd hy
  | @bind m _ block context => exact (Machine.Restacks.replaceBase block m).status.trans hd
  | call _ => exact hd
  | @pass m _ _ =>
    have hsame : (Moment.after ⟨m, .pass⟩) = m := if_pos (.inl hd)
    rw [hsame]
    exact hd
  | enterScript _ hne _ => exact absurd hd hne
  | @leaveScript m _ c answers step =>
    -- whatever the coroutine answers, the thread is finished
    have hfinish : ((m.record (.leave c.name answers)).conclude step (c.advance answers)).2 = _ :=
      Machine.conclude_of_last _ (.inl hd)
    exact congrArg (fun n => n.state.status) hfinish
  | enterCall => exact hd
  | leaveCall => exact hd

/-- A legacy block that gives way leaves a thread that is not done. -/
theorem not_done_of_isYield (hy : x.move.isYield) : x.after.state.status ≠ .done := by
  obtain ⟨m, move⟩ := x
  cases move with
  | use step =>
    cases step with
    | yield => exact fun h => by cases h
    | yieldTick => exact fun h => by cases h
    | _ => simp [Move.isYield] at hy
  | _ => simp [Move.isYield] at hy

theorem done_of_isRetirement (hr : x.move.isRetirement) : x.after.state.status = .done := by
  obtain ⟨m, move⟩ := x
  cases move with
  | act action =>
    cases action with
    | retire => rfl
    | kill => rfl
    | _ => simp [Move.isRetirement] at hr
  | _ => simp [Move.isRetirement] at hr

variable {moments : List Moment} {a b : Thread × List Coroutine}

/-- A thread that is done stays done at every moment, as long as its status is not
assigned and no legacy block gives way. -/
theorem done_path (hpath : Path Moment.JoinsThreads a moments b) (hd : a.1.status = .done)
    (ha : ∀ x ∈ moments, x.move.assignsStatus = false)
    (hy : ∀ x ∈ moments, x.move.isYield = false) :
    (∀ x ∈ moments, x.machine.state.status = .done ∧ x.after.state.status = .done) ∧
      b.1.status = .done := by
  induction hpath with
  | nil => exact ⟨fun x hx => absurd hx List.not_mem_nil, hd⟩
  | @cons a b c x moments hx _ ih =>
    obtain ⟨hbefore, hafter, hhappens⟩ := hx
    have hdx : x.machine.state.status = .done := (congrArg (fun t => t.status) hbefore).trans hd
    have hdx' : x.after.state.status = .done :=
      done_step hhappens hdx (ha x List.mem_cons_self) (hy x List.mem_cons_self)
    have hdb : b.1.status = .done := (congrArg (fun t => t.status) hafter).symm.trans hdx'
    obtain ⟨hrest, hend⟩ := ih hdb (fun y hm => ha y (List.mem_cons_of_mem _ hm))
      fun y hm => hy y (List.mem_cons_of_mem _ hm)
    refine ⟨fun y hm => ?_, hend⟩
    rcases List.mem_cons.mp hm with rfl | hm
    · exact ⟨hdx, hdx'⟩
    · exact hrest y hm

/-- While a thread is done, its script is not stepped. -/
theorem stepsScript_of_done (hx : x.Happens s t) (hd : x.machine.state.status = .done) :
    x.move.stepsScript = false := by
  cases hx with
  | enterScript _ hne _ => exact absurd hd hne
  | _ => rfl

end RetirementLemmas

open RetirementLemmas

namespace World

/-- Once a thread has retired it is done at every moment, also inside foreign code, exactly
as long as no legacy block gives way on it; and as long as that is so, its script is not
stepped. -/
theorem retired_until_yield {depth : Nat} {w : World} {tasks : List Task} {name : String}
    {t : Thread} {before later rest : List Moment} {x : Moment}
    (ht : w.threads.get? name = some t)
    (hlife : ∀ task ∈ tasks, task.command.ends name = false)
    (hrun : w.history depth name tasks = before ++ x :: (later ++ rest))
    (hretire : x.move.isRetirement)
    (hassign : ∀ y ∈ later, y.move.assignsStatus = false) :
    x.after.state.status = .done ∧
      ((∀ y ∈ later, y.after.state.status = .done) ↔ ∀ y ∈ later, y.move.isYield = false) ∧
      ((∀ y ∈ later, y.move.isYield = false) →
        (∀ y ∈ later, y.move.stepsScript = false) ∧
        ∀ replies w', rest = [] → w.run depth tasks = some (replies, w') →
          (w'.threads.get? name).map (fun t => t.status) = some .done) := by
  obtain ⟨u, hpath, hu⟩ := World.history_path depth ht hlife
  rw [hrun] at hpath
  obtain ⟨_, _, hx⟩ := hpath.split
  cases hx with
  | @cons _ s _ _ _ hx hlater =>
  obtain ⟨v, hlater, hrest⟩ := hlater.split
  have hdone : x.after.state.status = .done := done_of_isRetirement hretire
  have hs : s.1.status = .done := (congrArg (fun t => t.status) hx.2.1).symm.trans hdone
  refine ⟨hdone, ⟨fun hall y hy => ?_, fun hno y hy => ?_⟩, fun hno => ⟨fun y hy => ?_, ?_⟩⟩
  · cases hyield : y.move.isYield with
    | false => rfl
    | true => exact absurd (hall y hy) (not_done_of_isYield hyield)
  · exact ((done_path hlater hs hassign hno).1 y hy).2
  · obtain ⟨_, _, hjoin⟩ := hlater.step_of_mem hy
    exact stepsScript_of_done hjoin.2.2 ((done_path hlater hs hassign hno).1 y hy).1
  · rintro replies w' rfl hw
    obtain ⟨t', ht', hend⟩ := hu replies w' hw
    cases hrest
    have hv := (done_path hlater hs hassign hno).2
    rw [hend] at hv
    rw [ht']
    exact congrArg some hv

end World

/-! ## Two runs after a retirement -/

/-- A world with one thread, whose script gives way to others in its only step. -/
def exRetiring : World where
  threads := .ofList [("t",
    { top := "hat"
      target := { id := "sprite", name := "Sprite", container := none }
      container := none
      pool := "pool"
      coroutine := some (.scripted "main" [] [{ conclusion := .suspend .yielded }])
      triedToCompile := true
      isCompiled := true })]

/-- The thread retires. Then it runs a legacy block, is told a result, and is resumed. -/
def exRetirement (uses : List Use) : List Task :=
  [⟨0, .act "t" .retire⟩, ⟨1, .act "t" (.callLegacy "wait" none (.ofUses uses))⟩,
    ⟨2, .act "t" (.settle none)⟩, ⟨3, .act "t" .resume⟩]

/-- A legacy block that starts a branch leaves the retired thread alone. -/
theorem retired_until_yield_branch :
    (exRetiring.history 2 "t" (exRetirement [.startBranch 1 false])).length = 5 ∧
    ∃ x later, exRetiring.history 2 "t" (exRetirement [.startBranch 1 false]) = x :: later ∧
      (∀ y ∈ later, y.after.state.status = .done) ∧ ∀ y ∈ later, y.move.stepsScript = false := by
  refine ⟨by decide, _, (exRetiring.history 2 "t" (exRetirement [.startBranch 1 false])).tail,
    rfl, ?_⟩
  have h := @World.retired_until_yield 2 exRetiring (exRetirement [.startBranch 1 false]) "t" _
    [] (exRetiring.history 2 "t" (exRetirement [.startBranch 1 false])).tail [] _ rfl
    (by decide) rfl rfl (by decide)
  exact ⟨h.2.1.mpr (by decide), (h.2.2 (by decide)).1⟩

/-- A legacy block that gives way brings the retired thread back: it is not done any
longer, and its script is stepped. -/
theorem yield_revives :
    ∃ x later, exRetiring.history 2 "t" (exRetirement [.yield]) = x :: later ∧
      x.move.isRetirement ∧ (∀ y ∈ later, y.move.assignsStatus = false) ∧
      ¬ (∀ y ∈ later, y.after.state.status = .done) ∧
      ¬ ∀ y ∈ later, y.move.stepsScript = false :=
  ⟨_, _, rfl, rfl, by decide, by decide, by decide⟩

end BlockThreads
