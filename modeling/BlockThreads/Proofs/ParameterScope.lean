import BlockThreads.Proofs.Visits
import BlockThreads.Proofs.Mirroring

/-!
# Which parameters a thread sees

A thread looks a parameter up in its frames, but what it finds can be told from its history
alone. Frames are recycled from thread to thread, cleared when a level moves on to another
block, and written to by whoever is on top; what they hold is at every moment what was
introduced and bound in the visits that the thread pays to its levels.

For this the frames must be written to by these operations only. Whoever has a frame at hand
may put any table into it.

Results:
1. `tracks_path`: the parameter tables of the frames are those that the notes of the levels
   make up, at every moment.
2. `scoped_to_visit`: a thread sees a parameter exactly if it was bound in its innermost
   visit with parameters.
-/

namespace BlockThreads

/-- Whether frames are changed from outside. -/
def Move.editsFrames : Move → Bool
  | .act (.editFrame _) => true
  | .act (.editParentFrame _) => true
  | .act .resetFrame => true
  | .act .reuseFrame => true
  | _ => false

/-- The frames of a thread hold the parameters that a history makes up. -/
structure ThreadState.Tracks (s : ThreadState) (past : List Shift) : Prop where
  aligned : s.IsAligned
  params : s.frames.map Frame.params = (levelNotes past).map paramsOf

namespace ParameterScopeLemmas

open Machine VisitsLemmas

variable {m n : Machine} {s : ThreadState} {past : List Shift} {id : String}

/-! ## Clean hosts -/

/-- Next to a clean host stands one that throws frames away. -/
theorem exists_mirror (h : m.host.IsClean) : ∃ r, m.Mirrors r :=
  ⟨⟨m.thread, { m.host with recycles := false, pools := .empty }⟩, rfl,
    ⟨rfl, rfl, rfl, rfl, h, rfl, fun _ => rfl⟩, rfl⟩

theorem clean_push (h : m.host.IsClean) (id : String) : (m.push id).host.IsClean := by
  obtain ⟨r, hr⟩ := exists_mirror h
  exact (hr.push id).host.clean

/-- To compile a thread has nothing to do with frames. -/
theorem pools_compile (compiler : String) (m : Machine) :
    (m.compile compiler).host.pools = m.host.pools := by
  have hattach : ∀ (script : Script) (n : Machine), (n.attach script).host.pools = n.host.pools := by
    intro script n
    simp only [Machine.attach, Machine.requestGlow]
    split <;> rfl
  have hremember : ∀ (outcome : Outcome) (n : Machine),
      (n.rememberOutcome outcome).host.pools = n.host.pools := by
    intro outcome n
    unfold Machine.rememberOutcome
    split <;> rfl
  cases htried : m.state.triedToCompile with
  | true => rw [Machine.compile_of_tried compiler htried]
  | false =>
    rw [Machine.compile_of_untried compiler htried]
    split
    · rfl
    · exact hattach _ _
    · rw [Machine.compileAfresh_eq]
      split
      · rw [hattach, hremember]
        rfl
      · exact hremember _ _

/-- Whatever happens to a thread, the frames that wait are clear. -/
theorem clean_moment {x : Moment} {s t : List Coroutine} (hx : x.Happens s t)
    (h : x.machine.host.IsClean) : x.after.host.IsClean := by
  cases hx with
  | @act m _ action hplain =>
    cases hcompile : (Move.act action).compiles with
    | true =>
      obtain ⟨compiler, hmove⟩ := Move.eq_compile hcompile
      obtain rfl : action = .compile compiler := Move.act.inj hmove
      intro id
      show (((m.compile compiler).host.pools.get? id).getD {}).IsPristine
      rw [pools_compile]
      exact h id
    | false =>
      obtain ⟨r, hr⟩ := exists_mirror h
      have hfollows : Machine.Follows (action.perform Runner.idle m)
          (action.perform Runner.idle r) := by
        refine MirroringLemmas.follows_of_isPlain hr hplain fun compiler heq => ?_
        subst heq
        cases hcompile
      show (((action.perform Runner.idle m).map Prod.snd).getD m).host.IsClean
      cases hperform : action.perform Runner.idle m with
      | none => exact h
      | some result =>
        obtain ⟨_, _, hmirrors⟩ := hfollows result.1 result.2 hperform
        exact hmirrors.host.clean
  | @use m _ step hplain =>
    cases step with
    | onThread | retire => cases hplain
    | _ => exact h
  | @bind m _ block context =>
    obtain ⟨r, hr⟩ := exists_mirror h
    exact (hr.bindBlock block context).host.clean
  | call | enterScript | enterCall | leaveCall => exact h
  | @pass m _ _ =>
    simp only [Moment.after, Move.apply]
    split <;> exact h
  | @leaveScript m _ c answers step =>
    show ((m.record (.leave c.name answers)).conclude step (c.advance answers)).2.host.IsClean
    rw [Machine.host_conclude]
    exact h

/-- Whatever is done, the frames that wait are clear. -/
theorem clean_deed {d : Deed} {h h' : Host} (hd : d.Joins h h') (hc : h.IsClean) :
    h'.IsClean := by
  obtain ⟨rfl, rfl, hjoin⟩ := hd
  cases d with
  | of thread x =>
    obtain ⟨_, _, hx⟩ := hjoin
    exact clean_moment hx hc
  | order w command =>
    cases hcontainer : command.changesContainer with
    | false => exact (World.serves_order hjoin hcontainer).isClean hc
    | true =>
      cases command with
      | insertBlock | remember | forget => exact hc
      | _ => cases hcontainer
  | clock w time => exact hc

theorem clean_history (depth : Nat) (name : String) {w : World} (tasks : List Task)
    (h : w.host.IsClean) : ∀ x ∈ w.history depth name tasks, x.machine.host.IsClean := by
  intro x hx
  obtain ⟨d, hd, hmoment⟩ := List.mem_filterMap.mp hx
  obtain ⟨_, hpath, _⟩ := World.chronicle_path depth w tasks
  obtain ⟨g, _, hjoin, hg⟩ := hpath.keeps_before (P := Host.IsClean)
    (fun _ _ _ _ hjoin => clean_deed hjoin) h d hd
  cases d with
  | of thread y =>
    have hy : (if thread = name then some y else none) = some x := hmoment
    split at hy
    · obtain rfl : y = x := Option.some.inj hy
      obtain rfl : y.machine.host = g := hjoin.1
      exact hg
    · cases hy
  | order | clock => cases hmoment

/-! ## Frames and notes -/

theorem tracks_nil (h : s.stack = [] ∧ s.frames = []) : s.Tracks [] where
  aligned := by
    rw [ThreadState.IsAligned, h.1, h.2]
    rfl
  params := by
    rw [h.2]
    rfl

/-- Without frames there are no notes. -/
theorem levelNotes_eq_nil (h : s.Tracks past) (hf : s.frames = []) : levelNotes past = [] := by
  have hparams := h.params
  rw [hf] at hparams
  exact List.map_eq_nil_iff.mp hparams.symm

/-- The top frame holds what the notes of the top level make up. -/
theorem exists_notes {frame : Frame} {frames : List Frame} (h : s.Tracks past)
    (hf : s.frames = frame :: frames) :
    ∃ notes others, levelNotes past = notes :: others ∧ frame.params = paramsOf notes ∧
      frames.map Frame.params = others.map paramsOf := by
  have hparams := h.params
  rw [hf, List.map_cons] at hparams
  cases hnotes : levelNotes past with
  | nil =>
    rw [hnotes] at hparams
    cases hparams
  | cons notes others =>
    rw [hnotes, List.map_cons] at hparams
    obtain ⟨hframe, hframes⟩ := List.cons.inj hparams
    exact ⟨notes, others, rfl, hframe, hframes⟩

/-- Only the stack and the frames matter. -/
theorem tracks_of_levels {t : ThreadState} (h : s.Tracks past) (hstack : t.stack = s.stack)
    (hframes : t.frames = s.frames) : t.Tracks past where
  aligned := by
    rw [ThreadState.IsAligned, hstack, hframes]
    exact h.aligned
  params := by
    rw [hframes]
    exact h.params

/-- An action that has to do neither with levels nor with parameters. -/
theorem tracks_of_params {t : ThreadState} {action : Action} (h : s.Tracks past)
    (haligned : t.IsAligned) (hparams : t.frames.map Frame.params = s.frames.map Frame.params)
    (haction : ∀ notes, paramsOf (action :: notes) = paramsOf notes) :
    t.Tracks (.stay action :: past) where
  aligned := haligned
  params := by
    rw [hparams, h.params, levelNotes]
    cases levelNotes past with
    | nil => rfl
    | cons notes others => exact congrArg (· :: _) (haction notes).symm

/-- An action that leaves all frames as they are. -/
theorem tracks_stay {t : ThreadState} {action : Action} (h : s.Tracks past)
    (hstack : t.stack = s.stack) (hframes : t.frames = s.frames)
    (haction : ∀ notes, paramsOf (action :: notes) = paramsOf notes) :
    t.Tracks (.stay action :: past) :=
  tracks_of_params h (tracks_of_levels h hstack hframes).aligned (congrArg _ hframes) haction

/-! ## Going deeper and coming back -/

theorem tracks_push (h : m.state.Tracks past) (hc : m.host.IsClean) (id : String) :
    (m.push id).state.Tracks (.enter :: past) where
  aligned := isAligned_push h.aligned id
  params := by
    have hfresh : (m.createFrame m.state.isWarpMode).1 = .fresh m.state.isWarpMode :=
      (hc.createFrame _ _).1
    rw [frames_push h.aligned, List.map_cons, h.params, hfresh]
    rfl

theorem tracks_pushAll (h : m.state.Tracks past) (hc : m.host.IsClean) (ids : List String) :
    (m.pushAll ids).state.Tracks ((ids.map fun _ => Shift.enter).reverse ++ past) := by
  induction ids generalizing m past with
  | nil => exact h
  | cons id ids ih =>
    rw [List.map_cons, List.reverse_cons, List.append_assoc]
    exact ih (tracks_push h hc id) (clean_push hc id)

theorem tracks_enter (h : m.state.Tracks past) (hc : m.host.IsClean) (id : String) :
    (m.enter id).state.Tracks (.enter :: past) where
  aligned := (isAligned_push h.aligned id).editFrames 0 _
  params := by
    have hpushed := (tracks_push h hc id).params
    show ((m.push id).state.frames.modify 0 _).map Frame.params = _
    rw [frames_push h.aligned] at hpushed ⊢
    exact hpushed

/-- Another block at the base of the stack does not change a level, unless there was none. -/
theorem tracks_replaceBase (h : m.state.Tracks past) (hc : m.host.IsClean) (id : String) :
    (m.replaceBase id).state.Tracks
      ((if m.state.stack.isEmpty then [Shift.enter] else []).reverse ++ past) := by
  have haligned := isAligned_replaceBase h.aligned id
  unfold Machine.replaceBase at haligned ⊢
  split
  · exact tracks_push h hc id
  · next hstack =>
    rw [if_neg hstack] at haligned
    exact ⟨haligned, h.params⟩

theorem tracks_drop (h : m.state.Tracks past) : m.drop.state.Tracks (.leave :: past) where
  aligned := isAligned_drop h.aligned
  params := by
    rw [frames_drop, List.map_tail, h.params, levelNotes, List.map_tail]

theorem tracks_reuse (h : s.Tracks past) (id : Option String) :
    (s.reuse id).Tracks (.moveOn :: past) where
  aligned := h.aligned.reuse id
  params := by
    cases hf : s.frames with
    | nil =>
      have hstack := h.aligned.stack_eq_nil_iff.mpr hf
      rw [levelNotes, levelNotes_eq_nil h hf, ThreadState.reuse, hstack, hf]
      rfl
    | cons frame frames =>
      obtain ⟨notes, others, hnotes, _, hframes⟩ := exists_notes h hf
      cases hs : s.stack with
      | nil =>
        rw [h.aligned.stack_eq_nil_iff.mp hs] at hf
        cases hf
      | cons entry stack =>
        rw [levelNotes, hnotes, ThreadState.reuse, hs, hf]
        exact congrArg (none :: ·) hframes

theorem tracks_unwind (h : m.state.Tracks past) (levels : Nat) :
    (unwind levels m).state.Tracks ((unwindShifts levels m).reverse ++ past) := by
  induction levels generalizing m past with
  | zero => exact h
  | succ levels ih =>
    unfold unwind unwindShifts
    cases m.state.peek with
    | none => exact h
    | some id =>
      dsimp only
      split
      · exact h
      · split
        · exact tracks_reuse h m.nextId
        · rw [List.reverse_cons, List.append_assoc]
          exact ih (tracks_drop h)

theorem tracks_stopScript (h : m.state.Tracks past) :
    m.stopScript.state.Tracks ((m.unwindShifts m.state.stack.length).reverse ++ past) := by
  have hunwound := tracks_unwind h m.state.stack.length
  unfold stopScript
  dsimp only
  split
  · exact tracks_of_levels hunwound rfl rfl
  · exact hunwound

theorem levelNotes_leave (levels : Nat) (past : List Shift) :
    levelNotes (List.replicate levels .leave ++ past) = (levelNotes past).drop levels := by
  induction levels with
  | zero => rfl
  | succ levels ih =>
    rw [List.replicate_succ, List.cons_append, levelNotes, ih, List.tail_drop]

/-- A thread without levels, when all levels have been left. -/
theorem tracks_leave_all {t : ThreadState} (h : s.Tracks past) (ht : t.stack = [] ∧ t.frames = []) :
    t.Tracks ((s.stack.map fun _ => Shift.leave).reverse ++ past) where
  aligned := (tracks_nil ht).aligned
  params := by
    have hlength : (levelNotes past).length ≤ s.stack.length := by
      have hparams := congrArg List.length h.params
      rw [List.length_map, List.length_map, ← h.aligned] at hparams
      exact Nat.le_of_eq hparams.symm
    rw [List.map_const', List.reverse_replicate, levelNotes_leave, List.drop_of_length_le hlength,
      ht.2]
    rfl

/-! ## Parameters -/

/-- What is done to the top level, seen in its frame and in its notes. -/
theorem tracks_note {t : ThreadState} {frame frame' : Frame} {frames : List Frame}
    {action : Action} (h : s.Tracks past) (hf : s.frames = frame :: frames)
    (haligned : t.IsAligned) (ht : t.frames = frame' :: frames)
    (hnote : ∀ notes, frame.params = paramsOf notes →
      frame'.params = paramsOf (action :: notes)) :
    t.Tracks (.stay action :: past) := by
  obtain ⟨notes, others, hnotes, hframe, hframes⟩ := exists_notes h hf
  refine ⟨haligned, ?_⟩
  rw [levelNotes, hnotes, ht, List.map_cons, hnote notes hframe, hframes]
  rfl

/-- Nothing is done to the top level if there is none. -/
theorem tracks_note_nil {action : Action} (h : s.Tracks past) (hf : s.frames = []) :
    s.Tracks (.stay action :: past) := by
  refine ⟨h.aligned, ?_⟩
  rw [levelNotes, levelNotes_eq_nil h hf, hf]
  rfl

theorem attempt_ok {change : ThreadState → Except Misuse ThreadState} {t : ThreadState}
    (h : change m.state = .ok t) : (m.attempt change).2.state = t := by
  unfold Machine.attempt
  rw [h]
  rfl

theorem attempt_error {change : ThreadState → Except Misuse ThreadState} {what : Misuse}
    (h : change m.state = .error what) : (m.attempt change).2.state = m.state := by
  unfold Machine.attempt
  rw [h]

theorem tracks_initParams (h : m.state.Tracks past) :
    (m.attempt ThreadState.initParams).2.state.Tracks (.stay .initParams :: past) := by
  cases hf : m.state.frames with
  | nil =>
    rw [attempt_error (ThreadState.initParams_error_iff.mpr ⟨hf, rfl⟩)]
    exact tracks_note_nil h hf
  | cons frame frames =>
    have hinit : m.state.initParams = .ok { m.state with
        frames := { frame with params := some (frame.params.getD .empty) } :: frames } := by
      rw [ThreadState.initParams, hf]
    rw [attempt_ok hinit]
    refine tracks_note h hf (h.aligned.initParams hinit) rfl fun notes hnotes => ?_
    show some (frame.params.getD .empty) = some ((paramsOf notes).getD .empty)
    rw [hnotes]

theorem tracks_pushParam (h : m.state.Tracks past) (name : String) (value : Value) :
    (m.attempt (ThreadState.pushParam name value)).2.state.Tracks
      (.stay (.pushParam name value) :: past) := by
  cases hf : m.state.frames with
  | nil =>
    have hnone : m.state.getAllParams = none := by
      rw [ThreadState.getAllParams, ThreadState.peekFrame, hf]
      rfl
    rw [attempt_error (ThreadState.pushParam_error_iff.mpr ⟨hnone, rfl⟩)]
    exact tracks_note_nil h hf
  | cons frame frames =>
    have hall : m.state.getAllParams = frame.params := by
      rw [ThreadState.getAllParams, ThreadState.peekFrame, hf]
      rfl
    cases hparams : frame.params with
    | none =>
      -- nothing is bound before parameters are introduced
      rw [attempt_error (ThreadState.pushParam_error_iff.mpr ⟨hall.trans hparams, rfl⟩)]
      refine tracks_note h hf h.aligned hf fun notes hnotes => ?_
      rw [paramsOf, ← hnotes, hparams]
      rfl
    | some params =>
      have hpush : m.state.pushParam name value = .ok { m.state with
          frames := { frame with params := some (params.insert name value) } :: frames } := by
        rw [ThreadState.pushParam, hf]
        simp only [hparams]
      rw [attempt_ok hpush]
      refine tracks_note h hf (h.aligned.pushParam hpush) rfl fun notes hnotes => ?_
      rw [paramsOf, ← hnotes, hparams]
      rfl

/-! ## What happens to a thread -/

theorem tracks_act {action : Action} (hplain : action.isPlain) (hc : m.host.IsClean)
    (hedit : (Move.act action).editsFrames = false) (h : m.state.Tracks past) :
    ((Move.act action).apply m).state.Tracks ((action.shifts m).reverse ++ past) := by
  cases action with
  | push id => exact tracks_push h hc id
  | pushAll ids => exact tracks_pushAll h hc ids
  | enter id => exact tracks_enter h hc id
  | reuse id => exact tracks_reuse h id
  | next => exact tracks_reuse h m.nextId
  | pop => exact tracks_drop h
  | stop => exact tracks_stopScript h
  | retire | kill => exact tracks_leave_all h ⟨rfl, rfl⟩
  | initParams => exact tracks_initParams h
  | pushParam name value => exact tracks_pushParam h name value
  | compile compiler =>
    obtain ⟨hstack, hframes⟩ := LevelsLemmas.levels_compile compiler m
    exact tracks_stay h hstack hframes fun _ => rfl
  | settle value =>
    have hlevels : (m.state.settle value).stack = m.state.stack ∧
        (m.state.settle value).frames = m.state.frames := by
      unfold ThreadState.settle
      split <;> exact ⟨rfl, rfl⟩
    exact tracks_stay h hlevels.1 hlevels.2 fun _ => rfl
  | editFrame | editParentFrame | resetFrame | reuseFrame => cases hedit
  | runProcedure | resume | callLegacy | bindLegacy => cases hplain
  | _ => exact tracks_stay h rfl rfl fun _ => rfl

/-- Whatever happens to a thread, its frames hold the parameters that its history makes up,
unless frames are changed from outside. -/
theorem tracks_moment {x : Moment} {c c' : List Coroutine} (hx : x.Happens c c')
    (hc : x.machine.host.IsClean) (hedit : x.move.editsFrames = false)
    (h : x.machine.state.Tracks past) : x.after.state.Tracks (x.shifts.reverse ++ past) := by
  cases hx with
  | act hplain => exact tracks_act hplain hc hedit h
  | @use m _ step hplain =>
    cases step with
    | onThread | retire => cases hplain
    | _ => exact tracks_of_levels h rfl rfl
  | @bind m _ block context =>
    exact tracks_of_levels (tracks_replaceBase h hc block) rfl rfl
  | call | enterCall | leaveCall => exact h
  | enterScript => exact tracks_of_levels h rfl rfl
  | @pass m _ _ =>
    simp only [Moment.after, Move.apply]
    split
    · exact h
    · exact tracks_of_levels h rfl rfl
  | @leaveScript m _ c answers step =>
    obtain ⟨hstack, hframes⟩ :=
      LevelsLemmas.levels_conclude step (c.advance answers) (m.record (.leave c.name answers))
    exact tracks_of_levels h hstack hframes

/-- What each moment keeps to its own shifts is kept to the shifts of all. -/
theorem tracks_along {a b : Thread × List Coroutine} {moments : List Moment}
    (hpath : Path Moment.JoinsThreads a moments b)
    (hstep : ∀ x ∈ moments, ∀ c c' past, x.Happens c c' → x.machine.state.Tracks past →
      x.after.state.Tracks (x.shifts.reverse ++ past)) (h : a.1.Tracks past) :
    b.1.Tracks (shiftsOf moments ++ past) := by
  induction hpath generalizing past with
  | nil => exact h
  | @cons a b c x moments hx _ ih =>
    obtain ⟨hbefore, hafter, hhappens⟩ := hx
    have hb : b.1.Tracks (x.shifts.reverse ++ past) := by
      rw [← hafter]
      refine hstep x List.mem_cons_self _ _ _ hhappens ?_
      show x.machine.thread.Tracks past
      rw [hbefore]
      exact h
    have hrest := ih (fun y hy => hstep y (List.mem_cons_of_mem _ hy)) hb
    rw [shiftsOf, List.flatMap_cons, List.reverse_append, List.append_assoc]
    exact hrest

/-- The frames of a thread hold the parameters that its history makes up, also when more has
happened to it. -/
theorem tracks_path {a b : Thread × List Coroutine} {moments : List Moment}
    (hpath : Path Moment.JoinsThreads a moments b)
    (hclean : ∀ x ∈ moments, x.machine.host.IsClean)
    (hedit : ∀ x ∈ moments, x.move.editsFrames = false) (h : a.1.Tracks past) :
    b.1.Tracks (shiftsOf moments ++ past) :=
  tracks_along hpath (fun x hx _ _ _ hhappens =>
    tracks_moment hhappens (hclean x hx) (hedit x hx)) h

theorem getParam_of_tracks (h : s.Tracks past) (name : String) (value : Value) :
    s.getParam name = some value ↔ IsVisible past name value := by
  have hfind : s.frames.findSome? Frame.params = (levelNotes past).findSome? paramsOf := by
    have hmap : ∀ {α : Type} (f : α → Option Params) (l : List α),
        (l.map f).findSome? id = l.findSome? f := fun f l => by
      rw [List.findSome?_map]
      rfl
    rw [← hmap Frame.params, h.params, hmap]
  rw [isVisible_iff, ThreadState.getParam, hfind]

end ParameterScopeLemmas

open ParameterScopeLemmas

namespace World

/-- A thread that starts with nothing on its stack, on a host whose frames that wait are
clear. At every moment up to which nobody has changed its frames from outside, and in the
end if nobody has, a parameter has a value exactly if it is visible after what the thread
has done with its levels until then. -/
theorem scoped_to_visit {depth : Nat} {w : World} {tasks : List Task} {name : String}
    {t : Thread} (ht : w.threads.get? name = some t) (hnew : t.stack = [] ∧ t.frames = [])
    (hclean : w.host.IsClean) (hlife : ∀ task ∈ tasks, task.command.ends name = false) :
    (∀ before x later, w.history depth name tasks = before ++ x :: later →
      (∀ y ∈ before, y.move.editsFrames = false) → ∀ parameter value,
        x.machine.state.getParam parameter = some value ↔
          IsVisible (shiftsOf before) parameter value) ∧
    ((∀ x ∈ w.history depth name tasks, x.move.editsFrames = false) →
      ∀ replies w', w.run depth tasks = some (replies, w') →
        ∃ t', w'.threads.get? name = some t' ∧ ∀ parameter value,
          t'.getParam parameter = some value ↔
            IsVisible (shiftsOf (w.history depth name tasks)) parameter value) := by
  obtain ⟨u, hpath, hu⟩ := World.history_path depth ht hlife
  have hcleans := clean_history depth name tasks hclean
  constructor
  · intro before x later heq hedit
    rw [heq] at hpath hcleans
    obtain ⟨v, hbefore, hrest⟩ := hpath.split
    have htracks := tracks_path hbefore (fun y hy => hcleans y (List.mem_append_left _ hy)) hedit
      (tracks_nil hnew)
    rw [List.append_nil] at htracks
    cases hrest with
    | cons hx _ =>
      intro parameter value
      refine getParam_of_tracks ?_ parameter value
      show x.machine.thread.Tracks _
      rw [hx.1]
      exact htracks
  · intro hedit replies w' hrun
    obtain ⟨t', ht', rfl⟩ := hu replies w' hrun
    have htracks := tracks_path hpath hcleans hedit (tracks_nil hnew)
    rw [List.append_nil] at htracks
    exact ⟨t', ht', getParam_of_tracks htracks⟩

end World

/-! ## A call with a parameter -/

/-- A world with one thread. -/
def exScoped : World where
  threads := .ofList [("t",
    { top := "hat"
      target := { id := "sprite", name := "Sprite", container := none }
      container := none
      pool := "pool" })]

/-- The thread calls a procedure, binds a parameter to nothing and goes on to a block inside. -/
def exBinding : List Task :=
  [⟨0, .act "t" (.push "call")⟩, ⟨0, .act "t" .initParams⟩,
    ⟨0, .act "t" (.pushParam "n" .null)⟩, ⟨0, .act "t" (.push "say")⟩]

/-- The block inside is another call, without parameters so far. -/
def exHiding : List Task := exBinding ++ [⟨1, .act "t" .initParams⟩]

/-- The parameter is visible inside the call, and not inside the inner call. -/
theorem scoped_to_visit_call :
    IsVisible (shiftsOf (exScoped.history 0 "t" exBinding)) "n" .null ∧
      ∀ value, ¬ IsVisible (shiftsOf (exScoped.history 0 "t" exHiding)) "n" value := by
  have hclean : exScoped.host.IsClean := fun _ _ hframe => absurd hframe List.not_mem_nil
  have hbinding := (@World.scoped_to_visit 0 exScoped exBinding "t" _ rfl ⟨rfl, rfl⟩ hclean
    (by decide)).2 (by decide)
  have hhiding := (@World.scoped_to_visit 0 exScoped exHiding "t" _ rfl ⟨rfl, rfl⟩ hclean
    (by decide)).2 (by decide)
  obtain ⟨_, ht, hvisible⟩ := hbinding _ _ rfl
  obtain ⟨_, ht', hhidden⟩ := hhiding _ _ rfl
  obtain rfl := Option.some.inj ht
  obtain rfl := Option.some.inj ht'
  refine ⟨(hvisible "n" .null).mp rfl, fun value hvalue => ?_⟩
  cases (hhidden "n" value).mpr hvalue

end BlockThreads
