import BlockThreads.Proofs.Chronicle

/-!
# The levels of a stack

A stack has a frame for each of its blocks, so it is a pile of levels: the blocks and the
frames are two lists of the same length, whatever is done with the thread and at every
moment of it. Work on the stack is work on levels. A push adds a level, a pop takes the
top one away, and going on to another block puts that block and a cleared frame in the
place of the top level. Stopping is made of the last two: levels are dropped down to one
that stands in the way, and if that one calls a procedure the thread goes on behind it.

Results:
1. `isAligned_history`: blocks and frames are aligned at every moment of a thread.
2. `stopScript_of_empty`, `stopScript_of_slot`, `stopScript_of_waiting`,
   `stopScript_of_call`, `stopScript_of_block`: what stopping does, by the top level.
-/

namespace BlockThreads

/-- Each block of the stack has its frame. -/
def ThreadState.IsAligned (s : ThreadState) : Prop := s.stack.length = s.frames.length

namespace ThreadState.IsAligned

variable {s : ThreadState}

theorem stack_eq_nil_iff (h : s.IsAligned) : s.stack = [] ↔ s.frames = [] := by
  rw [← List.length_eq_zero_iff, ← List.length_eq_zero_iff, h]

theorem reuse (h : s.IsAligned) (id : Option String) : (s.reuse id).IsAligned := by
  unfold ThreadState.reuse
  split
  · next hs hf =>
    unfold IsAligned at h ⊢
    simpa [hs, hf] using h
  · exact h

theorem editFrames (h : s.IsAligned) (i : Nat) (edit : Frame → Frame) :
    { s with frames := s.frames.modify i edit }.IsAligned := by
  show s.stack.length = (s.frames.modify i edit).length
  rw [List.length_modify]
  exact h

theorem initParams {t : ThreadState} (h : s.IsAligned) (ht : s.initParams = .ok t) :
    t.IsAligned := by
  unfold ThreadState.initParams at ht
  split at ht
  · cases ht
  · next hf =>
    cases ht
    unfold IsAligned at h ⊢
    simpa [hf] using h

theorem pushParam {t : ThreadState} {name : String} {value : Value} (h : s.IsAligned)
    (ht : s.pushParam name value = .ok t) : t.IsAligned := by
  unfold ThreadState.pushParam at ht
  split at ht
  · cases ht
  · next hf =>
    split at ht
    · cases ht
    · cases ht
      unfold IsAligned at h ⊢
      simpa [hf] using h

theorem length_replaceLast (id : String) (entries : List (Option String)) :
    (replaceLast id entries).length = entries.length := by
  induction entries with
  | nil => rfl
  | cons entry rest ih =>
    cases rest with
    | nil => rfl
    | cons next rest => exact congrArg (· + 1) ih

end ThreadState.IsAligned

namespace Machine

variable {m n : Machine} {id : String}

/-! ## Work on levels -/

/-- A push adds a level. Its frame comes from the pool, in the warp mode of the top one. -/
theorem frames_push (h : m.state.IsAligned) (id : String) :
    (m.push id).state.frames = (m.createFrame m.state.isWarpMode).1 :: m.state.frames := by
  have hroom : m.state.frames.length < (some id :: m.state.stack).length := by
    rw [List.length_cons, h]
    exact Nat.lt_succ_self _
  exact congrArg (fun n : Machine => n.state.frames) (if_pos hroom)

theorem isAligned_push (h : m.state.IsAligned) (id : String) : (m.push id).state.IsAligned := by
  show (m.push id).state.stack.length = (m.push id).state.frames.length
  rw [stack_push, frames_push h, List.length_cons, List.length_cons, h]

theorem isAligned_pushAll (h : m.state.IsAligned) (ids : List String) :
    (m.pushAll ids).state.IsAligned := by
  induction ids generalizing m with
  | nil => exact h
  | cons id ids ih => exact ih (isAligned_push h id)

theorem isAligned_drop (h : m.state.IsAligned) : m.drop.state.IsAligned := by
  show m.state.stack.tail.length = m.state.frames.tail.length
  rw [List.length_tail, List.length_tail, h]

theorem isAligned_goToNext (h : m.state.IsAligned) : m.goToNext.state.IsAligned :=
  h.reuse m.nextId

theorem isAligned_unwind (h : m.state.IsAligned) (levels : Nat) :
    (unwind levels m).state.IsAligned := by
  induction levels generalizing m with
  | zero => exact h
  | succ levels ih =>
    unfold unwind
    split
    · exact h
    · split
      · exact h
      · split
        · exact isAligned_goToNext h
        · exact ih (isAligned_drop h)

theorem isAligned_stopScript (h : m.state.IsAligned) : m.stopScript.state.IsAligned := by
  have hunwound := isAligned_unwind h m.state.stack.length
  unfold stopScript
  dsimp only
  split <;> exact hunwound

theorem isAligned_replaceBase (h : m.state.IsAligned) (id : String) :
    (m.replaceBase id).state.IsAligned := by
  unfold replaceBase
  split
  · exact isAligned_push h id
  · show (ThreadState.replaceLast id m.state.stack).length = m.state.frames.length
    rw [ThreadState.IsAligned.length_replaceLast]
    exact h

theorem isAligned_attempt {change : ThreadState → Except Misuse ThreadState}
    (h : m.state.IsAligned) (hchange : ∀ s, change m.state = .ok s → s.IsAligned) :
    (m.attempt change).2.state.IsAligned := by
  unfold attempt
  split
  · next s hs => exact hchange s hs
  · exact h

/-- To introduce parameters is to change the top frame, if there is one. -/
theorem attempt_initParams (m : Machine) : (m.attempt ThreadState.initParams).2 =
    m.editState (ThreadState.editFrame fun frame =>
      { frame with params := some (frame.params.getD .empty) }) := by
  obtain ⟨thread, host⟩ := m
  obtain ⟨⟨stack, frames⟩⟩ := thread
  cases frames <;> rfl

/-- To bind a parameter is to change the top frame, if it has a parameter table. -/
theorem attempt_pushParam (name : String) (value : Value) (m : Machine) :
    (m.attempt (ThreadState.pushParam name value)).2 =
      m.editState (ThreadState.editFrame fun frame =>
        { frame with params := frame.params.map fun params => params.insert name value }) := by
  obtain ⟨thread, host⟩ := m
  obtain ⟨⟨stack, frames⟩⟩ := thread
  cases frames with
  | nil => rfl
  | cons frame frames =>
    obtain ⟨_, _, _, _, _, _, params⟩ := frame
    cases params <;> rfl

/-! ## Stopping -/

/-- Work on the stack does not change what a thread means by an id. -/
theorem Restacks.block? (h : m.Restacks n) : n.block? = m.block? := by
  obtain ⟨_, _, _, _, rfl⟩ := h
  rfl

/-- When nothing is left on the stack the thread is done. -/
theorem stopScript_of_empty (h : m.state.stack = []) :
    m.stopScript = m.editState ThreadState.finish := by
  have hstill : unwind m.state.stack.length m = m := by rw [h]; rfl
  unfold stopScript
  rw [hstill]
  exact if_pos (List.isEmpty_iff.mpr h)

/-- A level stands in the way if the unwinding does not go past it. Then the thread is not
done by it. -/
theorem stopScript_of_unwind (levels : Nat) (h : m.state.stack.length = levels + 1)
    (hn : unwind (levels + 1) m = n) (hstack : n.state.stack ≠ []) : m.stopScript = n := by
  unfold stopScript
  rw [h, hn]
  exact if_neg fun hempty => hstack (List.isEmpty_iff.mp hempty)

/-- A level without a block stands in the way. -/
theorem stopScript_of_slot {rest : List (Option String)} (h : m.state.stack = none :: rest) :
    m.stopScript = m := by
  have hpeek : m.state.peek = none := by rw [ThreadState.peek, h]; rfl
  refine stopScript_of_unwind rest.length (by rw [h]; rfl) ?_ (by simp [h])
  rw [unwind, hpeek]

theorem peek_of_stack {rest : List (Option String)} (h : m.state.stack = some id :: rest) :
    m.state.peek = some id := by
  rw [ThreadState.peek, h]
  rfl

/-- A level that waits for a reporter stands in the way. -/
theorem stopScript_of_waiting {rest : List (Option String)} (h : m.state.stack = some id :: rest)
    (hwaiting : m.state.isWaiting) : m.stopScript = m := by
  refine stopScript_of_unwind rest.length (by rw [h]; rfl) ?_ (by simp [h])
  rw [unwind, peek_of_stack h]
  exact if_pos hwaiting

theorem stack_goToNext {entry : Option String} {rest : List (Option String)} {frame : Frame}
    {frames : List Frame} (h : m.state.stack = entry :: rest)
    (hf : m.state.frames = frame :: frames) :
    m.goToNext.state.stack = m.nextId :: rest ∧
      m.goToNext.state.frames = frame.reuse :: frames := by
  have hstate : m.goToNext.state = m.state.reuse m.nextId := rfl
  rw [hstate, ThreadState.reuse, h, hf]
  exact ⟨rfl, rfl⟩

/-- At a call the thread goes on behind the call. -/
theorem stopScript_of_call {rest : List (Option String)} (h : m.state.stack = some id :: rest)
    (hwaiting : m.state.isWaiting = false) (hcall : m.isCall id) : m.stopScript = m.goToNext := by
  refine stopScript_of_unwind rest.length (by rw [h]; rfl) ?_ ?_
  · rw [unwind, peek_of_stack h]
    simp only [hwaiting, hcall, Bool.false_eq_true, if_false, if_true]
  · have hstate : m.goToNext.state = m.state.reuse m.nextId := rfl
    rw [hstate, ThreadState.reuse, h]
    split
    · exact List.cons_ne_nil _ _
    · rw [h]
      exact List.cons_ne_nil _ _

/-- Any other level is dropped, and then the level below decides. -/
theorem stopScript_of_block {rest : List (Option String)} (h : m.state.stack = some id :: rest)
    (hwaiting : m.state.isWaiting = false) (hcall : m.isCall id = false) :
    m.stopScript = m.drop.stopScript := by
  have hlevels : m.state.stack.length = m.drop.state.stack.length + 1 := by
    rw [stack_drop, h]
    rfl
  have hunwind : unwind m.state.stack.length m = unwind m.drop.state.stack.length m.drop := by
    rw [hlevels, unwind, peek_of_stack h]
    simp only [hwaiting, hcall, Bool.false_eq_true, if_false]
  unfold stopScript
  rw [hunwind]

end Machine

/-! ## Moments -/

namespace LevelsLemmas

variable {m : Machine}

theorem levels_compile (compiler : String) (m : Machine) :
    (m.compile compiler).state.stack = m.state.stack ∧
      (m.compile compiler).state.frames = m.state.frames := by
  obtain ⟨_, _, _, _, _, _, _, h⟩ := Machine.compile_thread compiler m
  exact ⟨congrArg (fun t => t.stack) h, congrArg (fun t => t.frames) h⟩

theorem levels_conclude (step : Step) (c : Coroutine) (m : Machine) :
    (m.conclude step c).2.state.stack = m.state.stack ∧
      (m.conclude step c).2.state.frames = m.state.frames := by
  obtain ⟨_, _, _, h⟩ := Machine.conclude_machine step c m
  rw [h]
  exact ⟨rfl, rfl⟩

theorem isAligned_act {action : Action} (hplain : action.isPlain) (h : m.state.IsAligned) :
    ((Move.act action).apply m).state.IsAligned := by
  cases action with
  | push id => exact Machine.isAligned_push h id
  | pushAll ids => exact Machine.isAligned_pushAll h ids
  | enter id => exact (Machine.isAligned_push h id).editFrames 0 _
  | reuse id => exact h.reuse id
  | pop => exact Machine.isAligned_drop h
  | editFrame edit => exact h.editFrames 0 edit
  | editParentFrame edit => exact h.editFrames 1 edit
  | resetFrame => exact h.editFrames 0 Frame.reset
  | reuseFrame => exact h.editFrames 0 Frame.reuse
  | initParams => exact Machine.isAligned_attempt h fun _ => h.initParams
  | pushParam name value => exact Machine.isAligned_attempt h fun _ => h.pushParam
  | next => exact Machine.isAligned_goToNext h
  | stop => exact Machine.isAligned_stopScript h
  | retire | kill => rfl
  | settle value =>
    show (m.state.settle value).IsAligned
    unfold ThreadState.settle
    split <;> exact h
  | compile compiler =>
    obtain ⟨hstack, hframes⟩ := levels_compile compiler m
    show (m.compile compiler).state.stack.length = (m.compile compiler).state.frames.length
    rw [hstack, hframes]
    exact h
  | runProcedure | resume | callLegacy | bindLegacy => simp [Action.isPlain] at hplain
  | _ => exact h

end LevelsLemmas

open LevelsLemmas

/-- Whatever happens to a thread, its blocks and frames stay aligned. -/
theorem Moment.Happens.isAligned {x : Moment} {s t : List Coroutine} (hx : x.Happens s t)
    (h : x.machine.state.IsAligned) : x.after.state.IsAligned := by
  cases hx with
  | act hplain => exact isAligned_act hplain h
  | @use m _ step hplain =>
    cases step with
    | onThread | retire => simp [Use.isPlain] at hplain
    | _ => exact h
  | @bind m _ block context => exact Machine.isAligned_replaceBase h block
  | call | enterScript | enterCall | leaveCall => exact h
  | @pass m _ _ =>
    simp only [Moment.after, Move.apply]
    split <;> exact h
  | @leaveScript m _ c answers step =>
    obtain ⟨hstack, hframes⟩ :=
      levels_conclude step (c.advance answers) (m.record (.leave c.name answers))
    show List.length _ = List.length _
    simp only [Moment.after, Move.apply, if_true]
    rw [hstack, hframes]
    exact h

namespace World

/-- The blocks and frames of a thread that starts with as many of both are aligned at every
moment of it, and in the end. -/
theorem isAligned_history {depth : Nat} {w : World} {tasks : List Task} {name : String}
    {t : Thread} (ht : w.threads.get? name = some t) (h : t.IsAligned)
    (hlife : ∀ task ∈ tasks, task.command.ends name = false) :
    (∀ x ∈ w.history depth name tasks, x.machine.state.IsAligned) ∧
      ∀ replies w', w.run depth tasks = some (replies, w') →
        ∃ t', w'.threads.get? name = some t' ∧ t'.IsAligned := by
  obtain ⟨u, hpath, hu⟩ := World.history_path depth ht hlife
  have haligned := hpath.keeps_thread (P := fun t => t.IsAligned)
    (fun _ _ _ _ hx => hx.isAligned) h
  refine ⟨fun x hx => (haligned.1 x hx).1, fun replies w' hrun => ?_⟩
  obtain ⟨t', ht', rfl⟩ := hu replies w' hrun
  exact ⟨t', ht', haligned.2⟩

end World

end BlockThreads
