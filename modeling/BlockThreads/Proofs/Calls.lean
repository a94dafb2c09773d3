import Mathlib.Logic.Function.Iterate
import BlockThreads.Proofs.Levels

/-!
# What a call leaves behind

A caller pushes a block and hands the thread over. The callee may push and pop, move on,
stop, bind parameters and change the top frame, in any order and to any depth. As long as it
never comes down to the levels of its caller, they stay what they are: all of these
operations work at the top. So when the caller has popped what the callee has left on the
stack, it finds the thread as it was, and every question about it has the answer it had.

Results:
1. `Machine.Under`: the levels of one machine lie under those of another.
   `under_act`: they still do when a callee has performed an action above them.
2. `Machine.call_returns`: a call returns to an untouched caller.
-/

namespace BlockThreads

/-- Whether an action is one of those by which a callee works on the stack. -/
def Action.isOfCallee : Action → Bool
  | .push _ | .pushAll _ | .enter _ | .pop | .reuse _ | .next | .stop | .initParams
  | .pushParam _ _ | .editFrame _ | .resetFrame | .reuseFrame => true
  | _ => false

namespace Machine

/-- A callee performs an action, and there are more than `depth` levels then. -/
def WorksAbove (depth : Nat) (m : Machine) (action : Action) (n : Machine) : Prop :=
  action.isOfCallee ∧ (∃ limit answer, m.perform limit action = some (answer, n)) ∧
    depth < n.state.stack.length

/-- Pops the thread until it is no deeper than `depth`. -/
def popTo (depth : Nat) (m : Machine) : Machine :=
  (fun m => m.pop.2)^[m.state.stack.length - depth] m

/-- The levels of `caller` lie under those of `m`, and both mean the same blocks. -/
structure Under (caller m : Machine) : Prop where
  aligned : m.state.IsAligned
  stack : caller.state.stack <:+ m.state.stack
  frames : caller.state.frames <:+ m.state.frames
  block? : m.block? = caller.block?

end Machine

namespace CallsLemmas

open Machine

variable {caller m n : Machine} {α : Type} {base levels : List α}

/-! ## The top of a list -/

/-- What lies under a longer list lies under its tail. -/
theorem suffix_tail (h : base <:+ levels) (hlength : base.length < levels.length) :
    base <:+ levels.tail := by
  cases levels with
  | nil => exact absurd hlength (Nat.not_lt_zero _)
  | cons top rest =>
    rcases List.suffix_cons_iff.mp h with rfl | h
    · exact absurd hlength (Nat.lt_irrefl _)
    · exact h

theorem tail_modify_zero (edit : α → α) (levels : List α) :
    (levels.modify 0 edit).tail = levels.tail := by
  cases levels <;> rfl

theorem tail_reuse (s : ThreadState) (id : Option String) :
    (s.reuse id).stack.tail = s.stack.tail ∧ (s.reuse id).frames.tail = s.frames.tail := by
  unfold ThreadState.reuse
  split
  · next hstack hframes =>
    rw [hstack, hframes]
    exact ⟨rfl, rfl⟩
  · exact ⟨rfl, rfl⟩

theorem length_reuse_stack (s : ThreadState) (id : Option String) :
    (s.reuse id).stack.length = s.stack.length := by
  unfold ThreadState.reuse
  split
  · next hstack _ =>
    rw [hstack]
    rfl
  · rfl

/-! ## Work on the top level -/

theorem under_refl (h : m.state.IsAligned) : m.Under m where
  aligned := h
  stack := List.suffix_rfl
  frames := List.suffix_rfl
  block? := rfl

/-- A caller whose stack is the lower has the fewer frames, too. -/
theorem length_frames_lt (h : caller.Under m) (hcaller : caller.state.IsAligned)
    (hdepth : caller.state.stack.length < m.state.stack.length) :
    caller.state.frames.length < m.state.frames.length := by
  rw [← hcaller, ← h.aligned]
  exact hdepth

/-- Whatever happens to the top level alone, the levels under it stay. -/
theorem under_of_tail (h : caller.Under m) (hcaller : caller.state.IsAligned)
    (hdepth : caller.state.stack.length < m.state.stack.length) (hn : m.Restacks n)
    (haligned : n.state.IsAligned) (hstack : n.state.stack.tail = m.state.stack.tail)
    (hframes : n.state.frames.tail = m.state.frames.tail) : caller.Under n where
  aligned := haligned
  stack := by
    have hbase := suffix_tail h.stack hdepth
    rw [← hstack] at hbase
    exact hbase.trans (List.tail_suffix _)
  frames := by
    have hbase := suffix_tail h.frames (length_frames_lt h hcaller hdepth)
    rw [← hframes] at hbase
    exact hbase.trans (List.tail_suffix _)
  block? := hn.block?.trans h.block?

theorem under_reuse (h : caller.Under m) (hcaller : caller.state.IsAligned)
    (hdepth : caller.state.stack.length < m.state.stack.length) (id : Option String) :
    caller.Under (m.editState (ThreadState.reuse id)) := by
  obtain ⟨hstack, hframes⟩ := tail_reuse m.state id
  exact under_of_tail h hcaller hdepth (.reuse id m) (h.aligned.reuse id) hstack hframes

theorem under_editFrame (h : caller.Under m) (hcaller : caller.state.IsAligned)
    (hdepth : caller.state.stack.length < m.state.stack.length) (edit : Frame → Frame) :
    caller.Under (m.editState (ThreadState.editFrame edit)) :=
  under_of_tail h hcaller hdepth (.edit m _ rfl) (h.aligned.editFrames 0 edit) rfl
    (tail_modify_zero edit m.state.frames)

theorem under_initParams (h : caller.Under m) (hcaller : caller.state.IsAligned)
    (hdepth : caller.state.stack.length < m.state.stack.length) :
    caller.Under (m.attempt ThreadState.initParams).2 := by
  refine under_of_tail h hcaller hdepth (.initParams m)
    (isAligned_attempt h.aligned fun _ => h.aligned.initParams) ?_ ?_ <;>
  · unfold attempt ThreadState.initParams
    cases hf : m.state.frames <;> first | rfl | rw [hf]

theorem under_pushParam (h : caller.Under m) (hcaller : caller.state.IsAligned)
    (hdepth : caller.state.stack.length < m.state.stack.length) (name : String) (value : Value) :
    caller.Under (m.attempt (ThreadState.pushParam name value)).2 := by
  refine under_of_tail h hcaller hdepth (.pushParam name value m)
    (isAligned_attempt h.aligned fun _ => h.aligned.pushParam) ?_ ?_ <;>
  · unfold attempt ThreadState.pushParam
    cases hf : m.state.frames with
    | nil => first | rfl | rw [hf]
    | cons frame frames =>
      cases hp : frame.params <;> simp only [hp] <;> first | rfl | rw [hf]

/-! ## Going deeper and coming back -/

theorem under_push (h : caller.Under m) (id : String) : caller.Under (m.push id) where
  aligned := isAligned_push h.aligned id
  stack := by
    rw [stack_push]
    exact h.stack.trans (List.suffix_cons _ _)
  frames := by
    rw [frames_push h.aligned]
    exact h.frames.trans (List.suffix_cons _ _)
  block? := (Restacks.push id m).block?.trans h.block?

theorem under_pushAll (h : caller.Under m) (ids : List String) : caller.Under (m.pushAll ids) := by
  induction ids generalizing m with
  | nil => exact h
  | cons id ids ih => exact ih (under_push h id)

theorem length_push_gt (h : caller.Under m) (id : String) :
    caller.state.stack.length < (m.push id).state.stack.length := by
  rw [stack_push, List.length_cons]
  exact Nat.lt_succ_of_le h.stack.length_le

theorem under_drop (h : caller.Under m) (hcaller : caller.state.IsAligned)
    (hdepth : caller.state.stack.length < m.state.stack.length) : caller.Under m.drop where
  aligned := isAligned_drop h.aligned
  stack := suffix_tail h.stack hdepth
  frames := by
    rw [frames_drop]
    exact suffix_tail h.frames (length_frames_lt h hcaller hdepth)
  block? := (Restacks.drop m).block?.trans h.block?

/-! ## Stopping -/

/-- To unwind never adds a level. -/
theorem length_unwind_le (count : Nat) (m : Machine) :
    (unwind count m).state.stack.length ≤ m.state.stack.length := by
  induction count generalizing m with
  | zero => exact Nat.le_refl _
  | succ count ih =>
    unfold unwind
    split
    · exact Nat.le_refl _
    · split
      · exact Nat.le_refl _
      · split
        · exact Nat.le_of_eq (length_reuse_stack m.state m.nextId)
        · have hdrop : m.drop.state.stack.length ≤ m.state.stack.length := by
            rw [stack_drop, List.length_tail]
            exact Nat.sub_le _ _
          exact Nat.le_trans (ih m.drop) hdrop

/-- If there are levels of the callee when the unwinding is over, there were some all the
time. -/
theorem under_unwind (count : Nat) (h : caller.Under m) (hcaller : caller.state.IsAligned)
    (hdepth : caller.state.stack.length < (unwind count m).state.stack.length) :
    caller.Under (unwind count m) := by
  induction count generalizing m with
  | zero => exact h
  | succ count ih =>
    have hbefore := Nat.lt_of_lt_of_le hdepth (length_unwind_le (count + 1) m)
    unfold unwind at hdepth ⊢
    split
    · exact h
    · next id hpeek =>
      rw [hpeek] at hdepth
      dsimp only at hdepth
      split
      · exact h
      · next hwaiting =>
        rw [if_neg hwaiting] at hdepth
        split
        · exact under_reuse h hcaller hbefore m.nextId
        · next hcall =>
          rw [if_neg hcall] at hdepth
          exact ih (under_drop h hcaller hbefore) hdepth

theorem under_stopScript (h : caller.Under m) (hcaller : caller.state.IsAligned)
    (hdepth : caller.state.stack.length < m.stopScript.state.stack.length) :
    caller.Under m.stopScript := by
  have hstack : m.stopScript.state.stack = (unwind m.state.stack.length m).state.stack := by
    unfold stopScript
    dsimp only
    split <;> rfl
  rw [hstack] at hdepth
  -- with levels left the thread is not finished
  have hstop : m.stopScript = unwind m.state.stack.length m := by
    refine if_neg fun hempty => ?_
    rw [List.isEmpty_iff.mp hempty] at hdepth
    exact absurd hdepth (Nat.not_lt_zero _)
  rw [hstop]
  exact under_unwind _ h hcaller hdepth

/-! ## Actions -/

theorem isPlain_of_isOfCallee {action : Action} (h : action.isOfCallee) : action.isPlain := by
  cases action <;> first | rfl | cases h

/-- What a callee does leaves the levels of its caller where they are, if there are levels of
its own afterwards. -/
theorem under_act {action : Action} (haction : action.isOfCallee) (h : caller.Under m)
    (hcaller : caller.state.IsAligned)
    (hdepth : caller.state.stack.length < m.state.stack.length)
    (hleft : caller.state.stack.length < ((Move.act action).apply m).state.stack.length) :
    caller.Under ((Move.act action).apply m) := by
  cases action with
  | push id => exact under_push h id
  | pushAll ids => exact under_pushAll h ids
  | enter id => exact under_editFrame (under_push h id) hcaller (length_push_gt h id) _
  | pop => exact under_drop h hcaller hdepth
  | reuse id => exact under_reuse h hcaller hdepth id
  | next => exact under_reuse h hcaller hdepth m.nextId
  | stop => exact under_stopScript h hcaller hleft
  | initParams => exact under_initParams h hcaller hdepth
  | pushParam name value => exact under_pushParam h hcaller hdepth name value
  | editFrame edit => exact under_editFrame h hcaller hdepth edit
  | resetFrame => exact under_editFrame h hcaller hdepth Frame.reset
  | reuseFrame => exact under_editFrame h hcaller hdepth Frame.reuse
  | _ => cases haction

/-- The callee need not ask how deep calls may be nested. -/
theorem apply_of_perform {action : Action} {limit : Nat} {answer : Answer}
    (haction : action.isOfCallee) (h : m.perform limit action = some (answer, n)) :
    (Move.act action).apply m = n := by
  have hidle : action.perform Runner.idle m = some (answer, n) := by
    rw [← h]
    exact Action.perform_of_isPlain (isPlain_of_isOfCallee haction) _ m
  show ((action.perform Runner.idle m).map Prod.snd).getD m = n
  rw [hidle]
  rfl

/-! ## The run of a callee -/

theorem under_step {action : Action} (hcaller : caller.state.IsAligned)
    (hstep : WorksAbove caller.state.stack.length m action n)
    (h : caller.Under m ∧ caller.state.stack.length < m.state.stack.length) :
    caller.Under n ∧ caller.state.stack.length < n.state.stack.length := by
  obtain ⟨haction, ⟨limit, answer, hperform⟩, hleft⟩ := hstep
  obtain rfl := apply_of_perform haction hperform
  exact ⟨under_act haction h.1 hcaller h.2 hleft, hleft⟩

theorem levels_pops (hcaller : caller.state.IsAligned) (pops : Nat) (h : caller.Under m)
    (hpops : m.state.stack.length = caller.state.stack.length + pops) :
    ((fun m => m.pop.2)^[pops] m).state.stack = caller.state.stack ∧
      ((fun m => m.pop.2)^[pops] m).state.frames = caller.state.frames ∧
      ((fun m => m.pop.2)^[pops] m).block? = caller.block? := by
  induction pops generalizing m with
  | zero =>
    have hframes : caller.state.frames.length = m.state.frames.length := by
      rw [← hcaller, ← h.aligned, hpops, Nat.add_zero]
    exact ⟨(h.stack.eq_of_length hpops.symm).symm, (h.frames.eq_of_length hframes).symm,
      h.block?⟩
  | succ pops ih =>
    have hdepth : caller.state.stack.length < m.state.stack.length := by omega
    rw [Function.iterate_succ_apply]
    refine ih (under_drop h hcaller hdepth) ?_
    show m.state.stack.tail.length = _
    rw [List.length_tail, hpops]
    omega

/-- When all levels of the callee have been popped, those of the caller are left. -/
theorem levels_popTo (hcaller : caller.state.IsAligned) (h : caller.Under m) :
    (m.popTo caller.state.stack.length).state.stack = caller.state.stack ∧
      (m.popTo caller.state.stack.length).state.frames = caller.state.frames ∧
      (m.popTo caller.state.stack.length).block? = caller.block? :=
  levels_pops hcaller _ h (Nat.add_sub_of_le h.stack.length_le).symm

/-- A thread with the same frames that means the same blocks has the same recursive calls. -/
theorem isRecursive_of_frames (hframes : n.state.frames = m.state.frames)
    (hblock : n.block? = m.block?) (code : String) : n.isRecursive code = m.isRecursive code := by
  have hcalls : n.callsProcedure code = m.callsProcedure code := by
    funext frame
    unfold callsProcedure
    rw [hblock]
  rw [isRecursive, isRecursive, hframes, hcalls]

end CallsLemmas

namespace Machine

open CallsLemmas

/-- A call returns to an untouched caller. The caller is a thread that has a frame for each of
its blocks, as every thread in a run has (`isAligned_history`). It pushes a block, the callee
does what it likes with the levels above those of the caller, and then the thread is popped
until it is as deep as before. The blocks and the frames are those that were there before the
push, each parameter has the value it had, and so have the questions for all parameters, for
the warp mode and for recursive calls. -/
theorem call_returns {m n : Machine} {block : String} {actions : List Action}
    (h : m.state.IsAligned)
    (hcallee : Path (WorksAbove m.state.stack.length) (m.push block) actions n) :
    (n.popTo m.state.stack.length).state.stack = m.state.stack ∧
      (n.popTo m.state.stack.length).state.frames = m.state.frames ∧
      (∀ name, (n.popTo m.state.stack.length).state.getParam name = m.state.getParam name) ∧
      (n.popTo m.state.stack.length).state.getAllParams = m.state.getAllParams ∧
      (n.popTo m.state.stack.length).state.isWarpMode = m.state.isWarpMode ∧
      ∀ code, (n.popTo m.state.stack.length).isRecursive code = m.isRecursive code := by
  have hunder : m.Under n ∧ m.state.stack.length < n.state.stack.length :=
    hcallee.keeps (P := fun n => m.Under n ∧ m.state.stack.length < n.state.stack.length)
      (fun _ _ _ _ hstep => under_step h hstep)
      ⟨under_push (under_refl h) block, length_push_gt (under_refl h) block⟩
  obtain ⟨hstack, hframes, hblock⟩ := levels_popTo h hunder.1
  refine ⟨hstack, hframes, fun name => ?_, ?_, ?_, isRecursive_of_frames hframes hblock⟩
  · rw [ThreadState.getParam, ThreadState.getParam, hframes]
  · rw [ThreadState.getAllParams, ThreadState.getAllParams, ThreadState.peekFrame,
      ThreadState.peekFrame, hframes]
  · rw [ThreadState.isWarpMode, ThreadState.isWarpMode, ThreadState.peekFrame,
      ThreadState.peekFrame, hframes]

end Machine

/-! ## A call in warp mode -/

/-- A thread in the middle of a procedure call with a parameter. -/
def exCaller : Machine where
  thread :=
    { top := "hat"
      target := { id := "sprite", name := "Sprite", container := some "main" }
      container := some "main"
      pool := "pool"
      stack := [some "greet", some "hat"]
      frames := [{ params := some (.ofList [("n", .text "outer")]) },
        { op := some ⟨"greet", Block.callOpcode⟩ }] }
  host :=
    { containers := .ofList [(some "main",
        { blocks := .ofList [("greet",
            { opcode := Block.callOpcode, mutation := some { proccode := "greet" } })] })] }

/-- The callee binds the same parameter, goes deeper, is stopped down to a call and goes on
behind it, and switches the warp mode on. -/
def exCallee : List Action :=
  [.initParams, .pushParam "n" (.text "inner"), .push "greet", .push "say", .stop, .next,
    .editFrame fun frame => { frame with warpMode := true }]

/-- The callee ends two levels above its caller, in warp mode and inside its own call. The caller
gets its parameter back and is neither. -/
theorem call_returns_greet :
    exCaller.state.IsAligned ∧
      ∃ n, Path (Machine.WorksAbove exCaller.state.stack.length) (exCaller.push "greet")
          exCallee n ∧
        n.state.stack = [none, some "greet", some "greet", some "hat"] ∧
        n.state.isWarpMode ∧ n.isRecursive "greet" ∧
        (n.popTo 2).state.stack = [some "greet", some "hat"] ∧
        (n.popTo 2).state.getParam "n" = some (.text "outer") ∧
        (n.popTo 2).state.isWarpMode = false := by
  have hcallee : Path (Machine.WorksAbove 2) (exCaller.push "greet") exCallee _ :=
    .cons ⟨rfl, ⟨0, _, rfl⟩, by decide⟩ <| .cons ⟨rfl, ⟨0, _, rfl⟩, by decide⟩ <|
      .cons ⟨rfl, ⟨0, _, rfl⟩, by decide⟩ <| .cons ⟨rfl, ⟨0, _, rfl⟩, by decide⟩ <|
      .cons ⟨rfl, ⟨0, _, rfl⟩, by decide⟩ <| .cons ⟨rfl, ⟨0, _, rfl⟩, by decide⟩ <|
      .cons ⟨rfl, ⟨0, _, rfl⟩, by decide⟩ .nil
  obtain ⟨hstack, -, hparam, -, hwarp, -⟩ :=
    @Machine.call_returns exCaller _ "greet" exCallee rfl hcallee
  exact ⟨rfl, _, hcallee, rfl, rfl, rfl, hstack, hparam "n", hwarp⟩

end BlockThreads
