import BlockThreads.Proofs.ParameterScope

/-!
# Misused parameters

Two operations can be misused. Parameters are introduced at the level on top, so there has to
be one. They are bound at the level on top as well, and only if they have been introduced
there, since it was entered or moved on. Parameters that the thread sees are no help: they may
be those of a level further out, where nothing is bound now.

Each operation looks at the frame at hand to tell whether it is misused. This module tells it
from the history of the thread alone. Nobody else may put a parameter table into a frame or
take one out; apart from that, frames may be changed from outside.

Results:
1. `Runner.isSafe`, `World.perform_misuse`: no other operation is misused, and one that is
   leaves everything as it was. Each operation gets somewhere, if the foreign code that it
   calls does.
2. `MisusesLemmas.getAllParams_eq_none_iff`: the top frame has a parameter table exactly if
   parameters have been introduced in the visit to its level.
3. `World.misused_exactly`: when parameters are misused, by the history of a thread.
-/

namespace BlockThreads

/-- Parameters have been introduced in the visit to the level on top. With a level there this
cannot have failed. -/
def IsIntroduced (past : List Shift) : Prop :=
  ∃ v : Visit, v.IsOf past ∧ v.level = height past ∧ .initParams ∈ v.notes

/-- If frames are changed from outside, their parameter tables stay as they are. -/
def Moment.KeepsParams (x : Moment) : Prop :=
  x.move.editsFrames → x.after.state.frames.map Frame.params =
    x.machine.state.frames.map Frame.params

/-- Whether an action writes to the parameter table of the top frame. -/
def Action.writesParams : Action → Bool
  | .initParams => true
  | .pushParam _ _ => true
  | _ => false

/-- An action would be a misuse now. -/
def Machine.Misuses (m : Machine) (action : Action) (what : Misuse) : Prop :=
  ∃ depth n, m.perform depth action = some (.misuse what, n)

/-- The history of a thread tells when its parameters are misused. -/
structure Machine.MisusedBy (m : Machine) (past : List Shift) : Prop where
  initParams_iff : ∀ what, m.Misuses .initParams what ↔
    m.state.stack = [] ∧ what = .initParamsOnEmptyStack
  pushParam_iff : ∀ name value what, m.Misuses (.pushParam name value) what ↔
    (m.state.stack = [] ∨ ¬ IsIntroduced past) ∧ what = .pushParamBeforeInit

/-- Foreign code always comes to an end. -/
def Runner.Answers (run : Runner) : Prop :=
  ∀ (α : Type) (p : Program α) (m : Machine), (run α p m).isSome

/-- However foreign code is run, only the actions that write parameters can be misused, and
then nothing happens; and each operation gets somewhere, if the foreign code that it calls
does. -/
structure Runner.IsSafe (run : Runner) : Prop where
  act_misuse : ∀ {action : Action} {m n what}, action.perform run m = some (.misuse what, n) →
    action.writesParams ∧ n = m
  use_misuse : ∀ {step : Use} {branch branch' m n what},
    step.perform run branch m = some (.misuse what, branch', n) →
      (∃ action, step = .onThread action ∧ action.writesParams) ∧ branch' = branch ∧ n = m
  act_isSome : run.Answers → ∀ (action : Action) m, (action.perform run m).isSome
  use_isSome : run.Answers → ∀ branch (step : Use) m, (step.perform run branch m).isSome

/-! ## No trace -/

variable {run : Runner} {m n : Machine} {what : Misuse}

theorem Machine.attempt_misuse_iff {change : ThreadState → Except Misuse ThreadState} :
    m.attempt change = (.misuse what, n) ↔ change m.state = .error what ∧ n = m := by
  unfold attempt
  cases change m.state with
  | ok s => simp
  | error other => rw [Prod.mk.injEq, Answer.misuse.injEq, Except.error.injEq, eq_comm (a := n)]

/-- Only the actions that write parameters can be misused, and then nothing happens. -/
theorem Action.perform_misuse {action : Action}
    (h : action.perform run m = some (.misuse what, n)) : action.writesParams ∧ n = m := by
  cases action with
  | initParams | pushParam =>
    exact ⟨rfl, (Machine.attempt_misuse_iff.mp (Option.some.inj h)).2⟩
  | runProcedure | resume =>
    simp only [Action.perform, Option.map_eq_some_iff] at h
    obtain ⟨_, _, h⟩ := h
    cases h
  | callLegacy | bindLegacy =>
    simp only [Action.perform, Option.bind_eq_bind, Option.bind_eq_some_iff] at h
    obtain ⟨_, _, h⟩ := h
    cases h
  | _ => cases h

/-- The utility of a legacy block is not misused, but for the thread that it hands out. -/
theorem Use.perform_misuse {step : Use} {branch branch' : Option Branch}
    (h : step.perform run branch m = some (.misuse what, branch', n)) :
    (∃ action, step = .onThread action ∧ action.writesParams) ∧ branch' = branch ∧ n = m := by
  cases step with
  | onThread action =>
    simp only [Use.perform, Option.bind_eq_bind, Option.bind_eq_some_iff] at h
    obtain ⟨⟨answer, after⟩, hperform, h⟩ := h
    cases h
    obtain ⟨hwrites, hsame⟩ := Action.perform_misuse hperform
    exact ⟨⟨action, rfl, hwrites⟩, rfl, hsame⟩
  | retire =>
    simp only [Use.perform, Option.map_eq_some_iff] at h
    obtain ⟨_, _, h⟩ := h
    cases h
  | _ => cases h

/-- A command that is a misuse is an action of a thread that writes parameters, and the world
is left as it was. -/
theorem World.perform_misuse {depth : Nat} {w w' : World} {command : Command}
    (h : w.perform depth command = some (.answer (.misuse what), w')) :
    (∃ thread action, command = .act thread action ∧ action.writesParams) ∧ w' = w := by
  cases command with
  | act thread action =>
    cases ht : w.threads.get? thread with
    | none =>
      simp only [World.perform, World.onThread, ht, Option.map_some] at h
      cases h
    | some t =>
      rw [World.perform_act ht, Option.map_eq_some_iff] at h
      obtain ⟨⟨answer, n⟩, hperform, h⟩ := h
      cases h
      obtain ⟨hwrites, rfl⟩ := Action.perform_misuse hperform
      refine ⟨⟨thread, action, rfl, hwrites⟩, ?_⟩
      rw [Table.insert_of_get? ht]
  | stepCall thread call =>
    simp only [World.perform] at h
    split at h
    · cases h
    · simp only [World.stepCall, Option.map_eq_some_iff] at h
      obtain ⟨⟨stepped, _⟩, _, h⟩ := h
      cases stepped <;> cases h
  | newThread | makeCall =>
    simp only [World.perform, Option.some.injEq] at h
    split at h <;> cases h
  | releaseFrame slot handle =>
    simp only [World.perform, World.releaseFrame, Option.some.injEq] at h
    split at h <;> cases h
  | editFrame slot edit =>
    simp only [World.perform, World.editFrame, Option.some.injEq] at h
    split at h <;> cases h
  | _ => cases h

/-! ## Getting somewhere -/

theorem Coroutine.step_isSome (h : run.Answers) (attached : Bool) (c : Coroutine) (m : Machine) :
    (c.step run attached m).isSome := by
  rw [Coroutine.step_eq, Option.isSome_map]
  exact h _ _ _

theorem Machine.resume_isSome (h : run.Answers) (m : Machine) :
    (m.resume (Coroutine.step run true)).isSome := by
  by_cases hd : m.state.status = .done
  · rw [resume_done hd]
    rfl
  · by_cases hp : m.state.status = .promiseWait
    · rw [resume_promiseWait hp]
      rfl
    · rw [resume_of_ne hd hp]
      cases hc : m.thread.coroutine with
      | none =>
        rw [stepAttached_of_none hc]
        rfl
      | some c =>
        rw [stepAttached_of_some hc, Option.isSome_map]
        exact h _ _ _

theorem Machine.runProcedure_isSome (h : run.Answers) (code : String) (arguments : List Value)
    (m : Machine) : (m.runProcedure run code arguments).isSome := by
  unfold runProcedure
  split
  · rfl
  · rw [Option.isSome_map]
    exact Coroutine.step_isSome h _ _ _

theorem Machine.askSequencer_isSome (h : run.Answers) (m : Machine) :
    (m.askSequencer run).isSome := by
  unfold askSequencer
  split
  · rfl
  · rw [Option.isSome_map]
    exact h _ _ _

mutual

/-- An action gets somewhere, if the foreign code that it calls does. -/
theorem Action.perform_isSome (h : run.Answers) (action : Action) (m : Machine) :
    (action.perform run m).isSome := by
  cases action with
  | runProcedure code arguments =>
    rw [Action.perform, Option.isSome_map]
    exact Machine.runProcedure_isSome h code arguments m
  | resume =>
    rw [Action.perform, Option.isSome_map]
    exact Machine.resume_isSome h m
  | callLegacy block context errand | bindLegacy block context errand =>
    obtain ⟨result, hresult⟩ :=
      Option.isSome_iff_exists.mp (Errand.perform_isSome h none errand (m.bindBlock block context))
    rw [Action.perform, hresult]
    rfl
  | _ => rfl

theorem Use.perform_isSome (h : run.Answers) (branch : Option Branch) (step : Use)
    (m : Machine) : (step.perform run branch m).isSome := by
  cases step with
  | onThread action =>
    obtain ⟨result, hresult⟩ := Option.isSome_iff_exists.mp (Action.perform_isSome h action m)
    rw [Use.perform, hresult]
    rfl
  | retire =>
    rw [Use.perform, Option.isSome_map]
    exact Machine.askSequencer_isSome h m
  | _ => rfl

theorem Errand.perform_isSome (h : run.Answers) (branch : Option Branch) (errand : Errand)
    (m : Machine) : (errand.perform run branch m).isSome := by
  cases errand with
  | finish => rfl
  | ask first next =>
    obtain ⟨⟨answer, branch', n⟩, hfirst⟩ :=
      Option.isSome_iff_exists.mp (Use.perform_isSome h branch first m)
    rw [Errand.perform_ask, hfirst, Option.bind_some, Option.isSome_map]
    exact Errand.perform_isSome h branch' (next answer) n

end

/-- Foreign code is told that everything is done, and nothing is. -/
def Runner.deaf : Runner := fun _ p m => p.run (fun _ m => some (.done, m)) m

theorem Runner.answers_deaf : deaf.Answers := by
  intro α p m
  induction p with
  | finish result => rfl
  | ask action next ih =>
    rw [deaf, Program.run_ask, Option.bind_some, Option.isSome_map]
    exact ih .done

theorem Runner.isSafe (run : Runner) : run.IsSafe where
  act_misuse := Action.perform_misuse
  use_misuse := Use.perform_misuse
  act_isSome := Action.perform_isSome
  use_isSome := Use.perform_isSome

/-- A command that no thread carries out gets somewhere. -/
theorem World.perform_isSome {command : Command} (h : command.actor? = none) (depth : Nat)
    (w : World) : (w.perform depth command).isSome := by
  cases command with
  | act | stepCall => cases h
  | _ => rfl

/-! ## By the history -/

namespace MisusesLemmas

open VisitsLemmas ParameterScopeLemmas

variable {s : ThreadState} {past : List Shift}

/-- The visit to the level on top has the topmost notes. -/
theorem isIntroduced_iff {notes : List Action} {others : List (List Action)}
    (h : levelNotes past = notes :: others) : IsIntroduced past ↔ .initParams ∈ notes := by
  have htop : (levelNotes past)[0]? = some notes := by
    rw [h]
    rfl
  constructor
  · rintro ⟨v, hv, hlevel, hinit⟩
    have hnotes := levelNotes_of_visit hv
    rw [hlevel, Nat.sub_self, htop] at hnotes
    rwa [Option.some.inj hnotes]
  · intro hinit
    obtain ⟨v, hv, rfl, hlevel⟩ := visit_of_levelNotes htop
    exact ⟨v, hv, hlevel, hinit⟩

/-- Without levels nothing is introduced. -/
theorem not_isIntroduced (h : s.Tracks past) (hf : s.frames = []) : ¬ IsIntroduced past := by
  rintro ⟨v, hv, hlevel, _⟩
  have hpos := level_pos hv
  rw [hlevel, ← length_levelNotes, levelNotes_eq_nil h hf] at hpos
  exact Nat.lt_irrefl 0 hpos

/-- The top frame has a parameter table exactly if parameters have been introduced there. -/
theorem getAllParams_eq_none_iff (h : s.Tracks past) :
    s.getAllParams = none ↔ ¬ IsIntroduced past := by
  cases hf : s.frames with
  | nil =>
    refine iff_of_true ?_ (not_isIntroduced h hf)
    rw [ThreadState.getAllParams, ThreadState.peekFrame, hf]
    rfl
  | cons frame frames =>
    obtain ⟨notes, others, hnotes, hframe, _⟩ := exists_notes h hf
    have hall : s.getAllParams = paramsOf notes := by
      rw [ThreadState.getAllParams, ThreadState.peekFrame, hf, ← hframe]
      rfl
    rw [hall, isIntroduced_iff hnotes, ← paramsOf_isSome_iff, Option.not_isSome_iff_eq_none]

theorem misuses_iff {action : Action} {change : ThreadState → Except Misuse ThreadState}
    (h : ∀ depth, m.perform depth action = some (m.attempt change)) :
    m.Misuses action what ↔ change m.state = .error what := by
  constructor
  · rintro ⟨depth, n, hperform⟩
    rw [h] at hperform
    exact (Machine.attempt_misuse_iff.mp (Option.some.inj hperform)).1
  · intro herror
    exact ⟨0, m, by rw [h, Machine.attempt_misuse_iff.mpr ⟨herror, rfl⟩]⟩

theorem misusedBy_of_tracks (h : m.state.Tracks past) : m.MisusedBy past where
  initParams_iff what := by
    rw [misuses_iff fun _ => rfl, ThreadState.initParams_error_iff, h.aligned.stack_eq_nil_iff]
  pushParam_iff name value what := by
    -- on an empty stack there is no visit in which they could have been introduced
    have hempty : m.state.stack = [] → ¬ IsIntroduced past := fun hstack =>
      not_isIntroduced h (h.aligned.stack_eq_nil_iff.mp hstack)
    rw [misuses_iff fun _ => rfl, ThreadState.pushParam_error_iff, getAllParams_eq_none_iff h,
      or_iff_right_of_imp hempty]

/-- The frames of a thread hold the parameters that its history makes up, also if frames are
changed from outside in other ways. -/
theorem tracks_keeping {x : Moment} {c c' : List Coroutine} (hx : x.Happens c c')
    (hc : x.machine.host.IsClean) (hkeeps : x.KeepsParams) (h : x.machine.state.Tracks past) :
    x.after.state.Tracks (x.shifts.reverse ++ past) := by
  cases hedit : x.move.editsFrames with
  | false => exact tracks_moment hx hc hedit h
  | true =>
    have hparams := hkeeps hedit
    have haligned := hx.isAligned h.aligned
    obtain ⟨m, move⟩ := x
    -- only an edit of frames is left, and it makes no shift that changes the levels
    cases move with
    | act action =>
      cases action with
      | editFrame | editParentFrame | resetFrame | reuseFrame =>
        exact tracks_of_params h haligned hparams fun _ => rfl
      | _ => cases hedit
    | _ => cases hedit

/-- The frames of a thread that starts with none hold at each point what its history up to
there makes up. -/
theorem tracks_of_new {t : Thread} {b : Thread × List Coroutine} {moments : List Moment}
    (hnew : t.stack = [] ∧ t.frames = []) (hpath : Path Moment.JoinsThreads (t, []) moments b)
    (hclean : ∀ x ∈ moments, x.machine.host.IsClean) (hkeeps : ∀ x ∈ moments, x.KeepsParams) :
    b.1.Tracks (shiftsOf moments) := by
  have htracks := tracks_along hpath (fun x hx _ _ _ hhappens =>
    tracks_keeping hhappens (hclean x hx) (hkeeps x hx)) (tracks_nil hnew)
  rwa [List.append_nil] at htracks

end MisusesLemmas

open MisusesLemmas

/-- A thread that starts with nothing on its stack, on a host whose frames that wait are clear.
At every moment up to which nobody has changed the parameter tables of its frames from outside,
and in the end if nobody has, its history tells when parameters are misused: they cannot be
introduced with nothing on the stack, and they cannot be bound unless they have been introduced
in the visit to the level on top.

Whoever misuses them is told so, and nothing else happens, neither to the thread nor to
anything else in the world. No other operation is misused in any state, and each of them gets
somewhere as far as the foreign code that it calls does. -/
theorem World.misused_exactly {depth : Nat} {w : World} {tasks : List Task} {name : String}
    {t : Thread} (ht : w.threads.get? name = some t) (hnew : t.stack = [] ∧ t.frames = [])
    (hclean : w.host.IsClean) (hlife : ∀ task ∈ tasks, task.command.ends name = false) :
    (∀ before x later, w.history depth name tasks = before ++ x :: later →
      (∀ y ∈ before, y.KeepsParams) → x.machine.MisusedBy (shiftsOf before)) ∧
    ((∀ x ∈ w.history depth name tasks, x.KeepsParams) →
      ∀ replies w', w.run depth tasks = some (replies, w') →
        ∃ t', w'.threads.get? name = some t' ∧
          Machine.MisusedBy ⟨t', w'.host⟩ (shiftsOf (w.history depth name tasks))) ∧
    (∀ run : Runner, run.IsSafe) ∧
    ∀ (u : World) depth command,
      (command.actor? = none → (u.perform depth command).isSome) ∧
      ∀ what u', u.perform depth command = some (.answer (.misuse what), u') →
        (∃ thread action, command = .act thread action ∧ action.writesParams) ∧ u' = u := by
  obtain ⟨u, hpath, hu⟩ := World.history_path depth ht hlife
  have hcleans := ParameterScopeLemmas.clean_history depth name tasks hclean
  refine ⟨fun before x later heq hkeeps => ?_, fun hkeeps replies w' hrun => ?_, Runner.isSafe,
    fun u depth command =>
      ⟨fun hactor => perform_isSome hactor depth u, fun _ _ => perform_misuse⟩⟩
  · rw [heq] at hpath hcleans
    obtain ⟨v, hbefore, hrest⟩ := hpath.split
    have htracks := tracks_of_new hnew hbefore
      (fun y hy => hcleans y (List.mem_append_left _ hy)) hkeeps
    cases hrest with
    | cons hx _ =>
      refine misusedBy_of_tracks ?_
      show x.machine.thread.Tracks _
      rw [hx.1]
      exact htracks
  · obtain ⟨t', ht', rfl⟩ := hu replies w' hrun
    exact ⟨t', ht', misusedBy_of_tracks (tracks_of_new hnew hpath hcleans hkeeps)⟩

/-! ## A block inside a call -/

/-- The frame of the call is marked as a loop before the thread goes on to the block inside. -/
def exInside : List Task :=
  [⟨0, .act "t" (.push "call")⟩, ⟨0, .act "t" .initParams⟩,
    ⟨0, .act "t" (.pushParam "n" .null)⟩,
    ⟨0, .act "t" (.editFrame fun frame => { frame with isLoop := true })⟩,
    ⟨0, .act "t" (.push "say")⟩]

/-- Inside, the parameter of the call has its value, but none can be bound, as none have been
introduced; introducing them is no misuse, and whatever else is done gets somewhere. -/
theorem misused_exactly_inside :
    ∃ replies w' t', exScoped.run 0 exInside = some (replies, w') ∧
      w'.threads.get? "t" = some t' ∧ t'.getParam "n" = some .null ∧
      ¬ IsIntroduced (shiftsOf (exScoped.history 0 "t" exInside)) ∧
      Machine.Misuses ⟨t', w'.host⟩ (.pushParam "n" .null) .pushParamBeforeInit ∧
      (∀ what, ¬ Machine.Misuses ⟨t', w'.host⟩ .initParams what) ∧
      ∀ action : Action, (action.perform .deaf ⟨t', w'.host⟩).isSome := by
  have hclean : exScoped.host.IsClean := fun _ _ hframe => absurd hframe List.not_mem_nil
  have hkeeps : ∀ x ∈ exScoped.history 0 "t" exInside, x.KeepsParams := by
    intro x hx hedit
    -- the fourth of the five is the only one that changes a frame from outside
    rcases hx with _ | ⟨_, _ | ⟨_, _ | ⟨_, _ | ⟨_, _ | ⟨_, hx⟩⟩⟩⟩⟩
    · cases hedit
    · cases hedit
    · cases hedit
    · rfl
    · cases hedit
    · cases hx
  obtain ⟨_, hend, hsafe, _⟩ := @World.misused_exactly 0 exScoped exInside "t" _ rfl ⟨rfl, rfl⟩
    hclean (by decide)
  obtain ⟨t', ht', hmisused⟩ := hend hkeeps _ _ rfl
  obtain rfl := Option.some.inj ht'
  have hpush := (hmisused.pushParam_iff "n" .null .pushParamBeforeInit).mp ⟨0, _, rfl⟩
  refine ⟨_, _, _, rfl, rfl, rfl, ?_, ⟨0, _, rfl⟩, fun what hinit => ?_, fun action => ?_⟩
  · rcases hpush.1 with hempty | hfresh
    · cases hempty
    · exact hfresh
  · cases ((hmisused.initParams_iff what).mp hinit).1
  · exact (hsafe .deaf).act_isSome Runner.answers_deaf action _

end BlockThreads
