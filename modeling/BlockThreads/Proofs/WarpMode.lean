import BlockThreads.Proofs.WarpHistory

/-!
# Warp mode spreads inwards

Whoever switches warp mode on does so at the top of the stack. While nothing else changes it,
the frames of a thread are in warp mode as the history tells, whatever happens to the thread:
going on to another block keeps the warp mode of a level, and so do parameters and the blocks of
the older kind. Where the frame of a new level comes from does not matter either. Its warp mode
is written when it is taken from the pool, whichever thread has given it back.

Results:
1. `modes_moment`, `modes_path`: the frames of a thread have the warp modes that its shifts make
   up.
2. `calm_when_left`: warp mode ends when the outermost level in warp mode is left.
3. `warp_spreads_inwards`: at every moment of a thread calm levels are followed by levels in warp
   mode, the thread is in warp mode exactly if some level is, and a level is exactly if its
   history says so.
-/

namespace BlockThreads

/-! ## Warp modes -/

namespace ThreadState

/-- The warp modes of the frames, the top one first. -/
def warpModes (s : ThreadState) : List Bool := s.frames.map Frame.warpMode

/-- From the base to the top there are first so many calm levels and then so many levels in
warp mode. -/
def WarpsAbove (s : ThreadState) (calm warping : Nat) : Prop :=
  s.warpModes.reverse = .replicate calm false ++ .replicate warping true

end ThreadState

namespace Moment

/-- Whether the warp mode of a frame is changed in another way than by switching it on at the
top. -/
def misusesWarp (x : Moment) : Bool :=
  match x.move with
  | .act (.editFrame edit) =>
    x.machine.state.peekFrame.any fun frame => frame.warpMode && !(edit frame).warpMode
  | .act .resetFrame => x.machine.state.isWarpMode
  | .act (.editParentFrame edit) =>
    x.machine.state.peekParentFrame.any fun frame => (edit frame).warpMode != frame.warpMode
  | _ => false

/-- Whether warp mode, which was off, is switched on at the top. -/
def switchesWarpOn (x : Moment) : Bool :=
  match x.move with
  | .act (.editFrame edit) =>
    x.machine.state.peekFrame.any fun frame => !frame.warpMode && (edit frame).warpMode
  | _ => false

end Moment

/-- Whether a shift makes the stack higher or lower. -/
def Shift.changesHeight : Shift → Bool
  | .enter => true
  | .leave => true
  | _ => false

/-- The shifts of a moment that count for warp mode, the earliest first. -/
def Moment.warpShifts (x : Moment) : List Shift :=
  if x.switchesWarpOn then x.shifts else x.shifts.filter Shift.changesHeight

/-- The history of warp mode that moments make, the latest first. -/
def warpHistory (moments : List Moment) : List Shift :=
  (moments.flatMap Moment.warpShifts).reverse

/-- A thread is in warp mode as its history tells. -/
structure ThreadState.WarpsBy (s : ThreadState) (past : List Shift) : Prop where
  height_eq : height past = s.stack.length
  /-- Calm levels are followed by levels in warp mode. -/
  inwards : ∃ calm warping, s.WarpsAbove calm warping
  /-- The thread is in warp mode exactly if some level is. -/
  isWarpMode_iff : s.isWarpMode ↔ ∃ frame ∈ s.frames, frame.warpMode
  /-- Levels are counted from the base of the stack. -/
  level_iff : ∀ i frame, s.frames.reverse[i]? = some frame →
    (frame.warpMode ↔ IsInWarp past (i + 1))

namespace WarpModeLemmas

open Machine WarpHistoryLemmas

variable {m : Machine} {s : ThreadState}

theorem isWarpMode_eq (s : ThreadState) : s.isWarpMode = s.warpModes.headD false := by
  unfold ThreadState.isWarpMode ThreadState.peekFrame ThreadState.warpModes
  cases s.frames <;> rfl

theorem warpModes_of_frames {t : ThreadState} (h : t.frames = s.frames) :
    t.warpModes = s.warpModes := by
  rw [ThreadState.warpModes, h, ThreadState.warpModes]

/-- Whatever frame is taken from a pool, its warp mode is the one that is asked for. -/
theorem warpMode_create (p : Pool) (warpMode : Bool) :
    (p.create warpMode).1.warpMode = warpMode := by
  unfold Pool.create
  split <;> rfl

theorem modes_push (h : m.state.IsAligned) (id : String) :
    (m.push id).state.warpModes = Shift.enter.onWarp m.state.warpModes := by
  rw [ThreadState.warpModes, frames_push h, List.map_cons, Shift.onWarp, ← isWarpMode_eq]
  exact congrArg (· :: _) (warpMode_create _ _)

theorem modes_pushAll (h : m.state.IsAligned) (ids : List String) :
    (m.pushAll ids).state.warpModes =
      warpAfter (ids.map fun _ => .enter) m.state.warpModes := by
  induction ids generalizing m with
  | nil => rfl
  | cons id ids ih =>
    show ((m.push id).pushAll ids).state.warpModes = _
    rw [ih (isAligned_push h id), modes_push h]
    rfl

theorem modes_modify (s : ThreadState) (i : Nat) (edit : Frame → Frame)
    (hedit : ∀ frame, s.frames[i]? = some frame → (edit frame).warpMode = frame.warpMode) :
    (s.frames.modify i edit).map Frame.warpMode = s.warpModes := by
  refine List.ext_getElem? fun j => ?_
  rw [ThreadState.warpModes, List.getElem?_map, List.getElem?_map, List.getElem?_modify]
  cases hj : s.frames[j]? with
  | none => rfl
  | some frame =>
    by_cases hij : i = j
    · subst hij
      simp [hedit frame hj]
    · simp [hij]

theorem modes_drop (m : Machine) : m.drop.state.warpModes = Shift.leave.onWarp m.state.warpModes :=
  List.map_tail

theorem modes_reuse (s : ThreadState) (id : Option String) :
    (s.reuse id).warpModes = s.warpModes := by
  unfold ThreadState.reuse
  split
  · next hframes => rw [ThreadState.warpModes, ThreadState.warpModes, hframes]; rfl
  · rfl

theorem modes_unwind (levels : Nat) (m : Machine) :
    (unwind levels m).state.warpModes =
      warpAfter ((unwindShifts levels m).filter Shift.changesHeight) m.state.warpModes := by
  induction levels generalizing m with
  | zero => rfl
  | succ levels ih =>
    unfold unwind unwindShifts
    cases m.state.peek with
    | none => rfl
    | some id =>
      dsimp only
      split
      · rfl
      · split
        · exact modes_reuse m.state m.nextId
        · rw [ih m.drop, modes_drop]
          rfl

theorem modes_stopScript (m : Machine) :
    m.stopScript.state.warpModes =
      warpAfter ((m.unwindShifts m.state.stack.length).filter Shift.changesHeight)
        m.state.warpModes := by
  rw [← modes_unwind]
  unfold stopScript
  dsimp only
  split <;> rfl

/-- When all levels have been left there is none. -/
theorem warpAfter_leave_all (h : s.IsAligned) :
    warpAfter (s.stack.map fun _ => .leave) s.warpModes = [] := by
  rw [List.map_const', warpAfter_leave, List.drop_eq_nil_iff, ThreadState.warpModes,
    List.length_map]
  exact Nat.le_of_eq h.symm

/-! ## What happens to a thread -/

/-- The top frame keeps its warp mode when it is changed, unless that switches warp mode on. -/
theorem modes_editFrame (edit : Frame → Frame)
    (hmisuse : Moment.misusesWarp ⟨m, .act (.editFrame edit)⟩ = false) :
    (m.state.editFrame edit).warpModes =
      warpAfter (Moment.warpShifts ⟨m, .act (.editFrame edit)⟩) m.state.warpModes := by
  have hafter : (m.state.editFrame edit).warpModes =
      (m.state.frames.modify 0 edit).map Frame.warpMode := rfl
  have hswitches : Moment.switchesWarpOn ⟨m, .act (.editFrame edit)⟩ =
      m.state.frames.head?.any fun frame => !frame.warpMode && (edit frame).warpMode := rfl
  have hmisuses : Moment.misusesWarp ⟨m, .act (.editFrame edit)⟩ =
      m.state.frames.head?.any fun frame => frame.warpMode && !(edit frame).warpMode := rfl
  rw [hmisuses] at hmisuse
  rw [hafter, ThreadState.warpModes, Moment.warpShifts, hswitches]
  cases hframes : m.state.frames with
  | nil => rfl
  | cons frame frames =>
    rw [hframes, List.head?_cons, Option.any_some] at hmisuse
    rw [List.head?_cons, Option.any_some, List.modify_zero_cons, List.map_cons, List.map_cons]
    split
    · next hswitch =>
      rw [(Bool.and_eq_true_iff.mp hswitch).2]
      rfl
    · next hkept =>
      have hsame : (edit frame).warpMode = frame.warpMode := by
        revert hmisuse hkept
        cases frame.warpMode <;> cases (edit frame).warpMode <;> simp
      rw [hsame]
      rfl

theorem filter_changesHeight {α : Type} {shift : Shift} (hshift : shift.changesHeight)
    (entries : List α) : (entries.map fun _ => shift).filter Shift.changesHeight =
      entries.map fun _ => shift := by
  refine List.filter_eq_self.mpr fun other hother => ?_
  obtain ⟨_, _, rfl⟩ := List.mem_map.mp hother
  exact hshift

theorem modes_act {action : Action} (hplain : action.isPlain) (h : m.state.IsAligned)
    (hmisuse : Moment.misusesWarp ⟨m, .act action⟩ = false) :
    ((Move.act action).apply m).state.warpModes =
      warpAfter (Moment.warpShifts ⟨m, .act action⟩) m.state.warpModes := by
  cases action with
  | push id => exact modes_push h id
  | pushAll ids =>
    have hshifts : Moment.warpShifts ⟨m, .act (.pushAll ids)⟩ = ids.map fun _ => .enter :=
      filter_changesHeight rfl ids
    rw [hshifts]
    exact modes_pushAll h ids
  | enter id =>
    refine Eq.trans (modes_modify (m.push id).state 0 (fun frame => { frame with op := _ }) ?_)
      (modes_push h id)
    exact fun _ _ => rfl
  | reuse id => exact modes_reuse m.state id
  | next => exact modes_reuse m.state m.nextId
  | pop => exact modes_drop m
  | stop => exact modes_stopScript m
  | retire | kill =>
    have hshifts : m.state.stack.map (fun _ => Shift.leave) =
        (m.state.stack.map fun _ => Shift.leave).filter Shift.changesHeight :=
      (filter_changesHeight rfl _).symm
    have hall := warpAfter_leave_all h
    rw [hshifts] at hall
    exact hall.symm
  | initParams =>
    show (m.attempt ThreadState.initParams).2.state.warpModes = _
    rw [attempt_initParams]
    exact modes_modify m.state 0 _ fun _ _ => rfl
  | pushParam name value =>
    show (m.attempt (ThreadState.pushParam name value)).2.state.warpModes = _
    rw [attempt_pushParam]
    exact modes_modify m.state 0 _ fun _ _ => rfl
  | editFrame edit => exact modes_editFrame edit hmisuse
  | editParentFrame edit =>
    refine modes_modify m.state 1 edit fun frame hframe => ?_
    have hkept : ((edit frame).warpMode != frame.warpMode) = false := by
      unfold Moment.misusesWarp ThreadState.peekParentFrame at hmisuse
      dsimp only at hmisuse
      rw [hframe] at hmisuse
      exact hmisuse
    exact bne_eq_false_iff_eq.mp hkept
  | resetFrame =>
    refine modes_modify m.state 0 Frame.reset fun frame hframe => ?_
    have hcalm : m.state.isWarpMode = false := hmisuse
    unfold ThreadState.isWarpMode ThreadState.peekFrame at hcalm
    rw [List.head?_eq_getElem?, hframe] at hcalm
    exact hcalm.symm
  | reuseFrame => exact modes_modify m.state 0 Frame.reuse fun _ _ => rfl
  | compile compiler => exact warpModes_of_frames (LevelsLemmas.levels_compile compiler m).2
  | settle value =>
    refine warpModes_of_frames ?_
    show (m.state.settle value).frames = _
    unfold ThreadState.settle
    split <;> rfl
  | runProcedure | resume | callLegacy | bindLegacy => cases hplain
  | _ => rfl

/-- Whatever happens to a thread, its frames have the warp modes that its shifts make up, unless
the warp mode of a frame is changed in another way. -/
theorem modes_moment {x : Moment} {c c' : List Coroutine} (hx : x.Happens c c')
    (h : x.machine.state.IsAligned) (hmisuse : x.misusesWarp = false) :
    x.after.state.warpModes = warpAfter x.warpShifts x.machine.state.warpModes := by
  cases hx with
  | act hplain => exact modes_act hplain h hmisuse
  | @use m _ step hplain =>
    cases step with
    | onThread | retire => cases hplain
    | _ => rfl
  | @bind m _ block context =>
    show (m.replaceBase block).state.warpModes = _
    unfold replaceBase Moment.warpShifts Moment.shifts
    dsimp only [Moment.switchesWarpOn]
    split
    · next hempty => exact modes_push h block
    · rfl
  | call | enterScript | enterCall | leaveCall => rfl
  | @pass m _ _ =>
    simp only [Moment.after, Move.apply]
    split <;> rfl
  | @leaveScript m _ c answers step =>
    exact warpModes_of_frames (LevelsLemmas.levels_conclude step (c.advance answers)
      (m.record (.leave c.name answers))).2

/-! ## What a history tells -/

/-- Moving on does not count for warp mode. -/
theorem moveOn_not_mem (x : Moment) : .moveOn ∉ x.warpShifts := by
  obtain ⟨m, move⟩ := x
  unfold Moment.warpShifts
  split
  · next hswitch =>
    unfold Moment.switchesWarpOn at hswitch
    split at hswitch
    · next edit hmove =>
      obtain rfl : move = .act (.editFrame edit) := hmove
      exact fun hmem => nomatch List.mem_singleton.mp hmem
    · cases hswitch
  · exact fun hmem => nomatch (List.mem_filter.mp hmem).2

theorem moveOn_not_mem_history (moments : List Moment) : .moveOn ∉ warpHistory moments := by
  intro hmem
  obtain ⟨x, _, hx⟩ := List.mem_flatMap.mp (List.mem_reverse.mp hmem)
  exact moveOn_not_mem x hx

/-- A thread whose frames have the warp modes that a history makes up is in warp mode as the
history tells. -/
theorem warpsBy_of_modes {past : List Shift} (h : s.IsAligned) (hmodes : s.warpModes = warpOf past)
    (hmove : .moveOn ∉ past) : s.WarpsBy past where
  height_eq := by
    rw [← length_warpOf, ← hmodes, ThreadState.warpModes, List.length_map, h]
  inwards := by
    obtain ⟨warping, calm, hwarp⟩ := inwards_warpOf past
    refine ⟨calm, warping, ?_⟩
    rw [ThreadState.WarpsAbove, hmodes, hwarp, List.reverse_append, List.reverse_replicate,
      List.reverse_replicate]
  isWarpMode_iff := by
    have hany : (∃ frame ∈ s.frames, frame.warpMode) ↔ true ∈ s.warpModes := by
      rw [ThreadState.warpModes, List.mem_map]
    obtain ⟨warping, calm, hwarp⟩ := inwards_warpOf past
    rw [hany, isWarpMode_eq, hmodes, hwarp]
    cases warping with
    | zero => cases calm <;> simp [List.replicate_succ]
    | succ warping => simp [List.replicate_succ]
  level_iff i frame hframe := by
    rw [isInWarp_iff hmove, ← hmodes, ThreadState.warpModes, ← List.map_reverse,
      List.getElem?_map, hframe]
    simp

/-- The frames of a thread have the warp modes that its shifts make up, also when more has
happened to it. -/
theorem modes_path {a b : Thread × List Coroutine} {moments : List Moment}
    (hpath : Path Moment.JoinsThreads a moments b) (h : a.1.IsAligned)
    (hmisuse : ∀ x ∈ moments, x.misusesWarp = false) :
    b.1.IsAligned ∧
      b.1.warpModes = warpAfter (moments.flatMap Moment.warpShifts) a.1.warpModes := by
  induction hpath with
  | nil => exact ⟨h, rfl⟩
  | @cons a b c x moments hx _ ih =>
    obtain ⟨hbefore, hafter, hhappens⟩ := hx
    have haligned : x.machine.state.IsAligned := by
      show x.machine.thread.IsAligned
      rw [hbefore]
      exact h
    have hb : b.1.IsAligned := by
      rw [← hafter]
      exact hhappens.isAligned haligned
    have hmodes : b.1.warpModes = warpAfter x.warpShifts a.1.warpModes := by
      rw [← hafter, ← hbefore]
      exact modes_moment hhappens haligned (hmisuse x List.mem_cons_self)
    obtain ⟨hc, hrest⟩ := ih hb fun y hy => hmisuse y (List.mem_cons_of_mem _ hy)
    refine ⟨hc, ?_⟩
    rw [hrest, hmodes, List.flatMap_cons, warpAfter, warpAfter, warpAfter, List.foldl_append]

theorem isAligned_of_new (hnew : s.stack = [] ∧ s.frames = []) : s.IsAligned := by
  rw [ThreadState.IsAligned, hnew.1, hnew.2]
  rfl

theorem warpsBy_path {t : Thread} {b : Thread × List Coroutine} {moments : List Moment}
    (hnew : t.stack = [] ∧ t.frames = []) (hpath : Path Moment.JoinsThreads (t, []) moments b)
    (hmisuse : ∀ x ∈ moments, x.misusesWarp = false) : b.1.WarpsBy (warpHistory moments) := by
  have hcalm : t.warpModes = [] := by rw [ThreadState.warpModes, hnew.2]; rfl
  obtain ⟨haligned, hmodes⟩ := modes_path hpath (isAligned_of_new hnew) hmisuse
  refine warpsBy_of_modes haligned ?_ (moveOn_not_mem_history moments)
  rw [hmodes, hcalm, warpHistory, warpOf_reverse]

/-! ## Leaving warp mode -/

theorem unwindShifts_leave (levels : Nat) (m : Machine) :
    ∃ left, (unwindShifts levels m).filter Shift.changesHeight = .replicate left .leave := by
  induction levels generalizing m with
  | zero => exact ⟨0, rfl⟩
  | succ levels ih =>
    unfold unwindShifts
    cases m.state.peek with
    | none => exact ⟨0, rfl⟩
    | some id =>
      dsimp only
      split
      · exact ⟨0, rfl⟩
      · split
        · exact ⟨0, rfl⟩
        · obtain ⟨left, hleft⟩ := ih m.drop
          exact ⟨left + 1, congrArg (List.cons Shift.leave) hleft⟩

/-- Whatever leaves a level does nothing else that counts for warp mode. -/
theorem warpShifts_of_leave {x : Moment} (h : .leave ∈ x.shifts) :
    ∃ left, x.warpShifts = .replicate left .leave := by
  obtain ⟨m, move⟩ := x
  cases move with
  | act action =>
    cases action with
    | pop => exact ⟨1, rfl⟩
    | stop => exact unwindShifts_leave m.state.stack.length m
    | retire | kill =>
      refine ⟨m.state.stack.length, ?_⟩
      rw [← List.map_const']
      exact filter_changesHeight rfl m.state.stack
    | _ => simp [Moment.shifts, Action.shifts] at h
  | bind block context =>
    unfold Moment.shifts at h
    dsimp only at h
    split at h <;> simp at h
  | _ => simp [Moment.shifts] at h

theorem mem_shifts {x : Moment} {shift : Shift} (h : shift ∈ x.warpShifts) :
    shift ∈ x.shifts := by
  unfold Moment.warpShifts at h
  split at h
  · exact h
  · exact (List.mem_filter.mp h).1

theorem stack_of_misuse {x : Moment} (h : x.misusesWarp = true) :
    x.after.state.stack = x.machine.state.stack := by
  obtain ⟨m, move⟩ := x
  unfold Moment.misusesWarp at h
  split at h
  · next hmove =>
    obtain rfl := hmove
    rfl
  · next hmove =>
    obtain rfl := hmove
    rfl
  · next hmove =>
    obtain rfl := hmove
    rfl
  · cases h

theorem length_warpModes (h : s.IsAligned) : s.warpModes.length = s.stack.length := by
  rw [ThreadState.warpModes, List.length_map, h]

/-- If so many levels are left that only calm ones stay, the thread is not in warp mode. -/
theorem calm_of_drop {calm warping left : Nat} (h : s.WarpsAbove calm warping)
    (hleft : (s.warpModes.drop left).length ≤ calm) :
    (s.warpModes.drop left).headD false = false := by
  have hmodes : s.warpModes = .replicate warping true ++ .replicate calm false := by
    rw [← List.reverse_reverse s.warpModes, h, List.reverse_append, List.reverse_replicate,
      List.reverse_replicate]
  have hrest : s.warpModes.drop left =
      .replicate (warping - left) true ++ .replicate (calm - (left - warping)) false := by
    rw [hmodes, List.drop_append, List.drop_replicate, List.length_replicate, List.drop_replicate]
  rw [hrest, List.length_append, List.length_replicate, List.length_replicate] at hleft
  have hall : warping - left = 0 := by omega
  rw [hrest, hall]
  cases calm - (left - warping) <;> rfl

/-- As soon as the outermost level in warp mode is left, the thread is in warp mode no longer. -/
theorem calm_when_left {x : Moment} {c c' : List Coroutine} (hx : x.Happens c c')
    (h : x.machine.state.IsAligned) {calm warping : Nat}
    (hwarp : x.machine.state.WarpsAbove calm (warping + 1))
    (hleft : x.after.state.stack.length ≤ calm) : x.after.state.isWarpMode = false := by
  have hlength : x.machine.state.stack.length = calm + (warping + 1) := by
    rw [← length_warpModes h, ← List.length_reverse, hwarp, List.length_append,
      List.length_replicate, List.length_replicate]
  cases hmisuse : x.misusesWarp with
  | true =>
    rw [stack_of_misuse hmisuse, hlength] at hleft
    omega
  | false =>
    have hmodes := modes_moment hx h hmisuse
    rw [← length_warpModes (hx.isAligned h), hmodes] at hleft
    rw [isWarpMode_eq, hmodes]
    by_cases hleave : .leave ∈ x.shifts
    · obtain ⟨left, hshifts⟩ := warpShifts_of_leave hleave
      rw [hshifts, warpAfter_leave] at hleft ⊢
      exact calm_of_drop hwarp hleft
    · have hkept := length_warpAfter (fun hmem => hleave (mem_shifts hmem))
        x.machine.state.warpModes
      rw [length_warpModes h, hlength] at hkept
      omega

end WarpModeLemmas

open WarpModeLemmas

namespace World

/-- A thread that starts with nothing on its stack, on any host. At every moment up to which
warp mode has only been switched on at its top, and in the end if that is so then, the thread is
in warp mode as its history tells: from the base there are first calm levels and then levels in
warp mode, the thread is in warp mode exactly if some level is, and a level is exactly if warp
mode was switched on while the level was on top, since it was pushed, or if it was pushed onto a
level in warp mode. And whatever happens then: if it leaves no more than the calm levels, the
thread is not in warp mode afterwards. -/
theorem warp_spreads_inwards {depth : Nat} {w : World} {tasks : List Task} {name : String}
    {t : Thread} (ht : w.threads.get? name = some t) (hnew : t.stack = [] ∧ t.frames = [])
    (hlife : ∀ task ∈ tasks, task.command.ends name = false) :
    (∀ before x later, w.history depth name tasks = before ++ x :: later →
      (∀ y ∈ before, y.misusesWarp = false) →
        x.machine.state.WarpsBy (warpHistory before) ∧
        ∀ calm warping, x.machine.state.WarpsAbove calm (warping + 1) →
          x.after.state.stack.length ≤ calm → x.after.state.isWarpMode = false) ∧
    ((∀ x ∈ w.history depth name tasks, x.misusesWarp = false) →
      ∀ replies w', w.run depth tasks = some (replies, w') →
        ∃ t', w'.threads.get? name = some t' ∧
          t'.WarpsBy (warpHistory (w.history depth name tasks))) := by
  obtain ⟨u, hpath, hu⟩ := World.history_path depth ht hlife
  constructor
  · intro before x later heq hmisuse
    rw [heq] at hpath
    obtain ⟨v, hbefore, hrest⟩ := hpath.split
    have hv := warpsBy_path hnew hbefore hmisuse
    cases hrest with
    | cons hx _ =>
      obtain ⟨hmachine, _, hhappens⟩ := hx
      have hwarps : x.machine.thread.WarpsBy (warpHistory before) := hmachine ▸ hv
      have haligned := (isAligned_history ht (isAligned_of_new hnew) hlife).1 x
        (heq ▸ List.mem_append_right _ List.mem_cons_self)
      exact ⟨hwarps, fun _ _ hwarp hleft => calm_when_left hhappens haligned hwarp hleft⟩
  · intro hmisuse replies w' hrun
    obtain ⟨t', ht', rfl⟩ := hu replies w' hrun
    exact ⟨t', ht', warpsBy_path hnew hpath hmisuse⟩

end World

/-! ## A call in warp mode -/

/-- A world with one thread. -/
def exWarpWorld : World where
  threads := .ofList [("t",
    { top := "hat"
      target := { id := "sprite", name := "Sprite", container := none }
      container := none
      pool := "pool" })]

/-- The thread calls a procedure in warp mode, goes into it and comes back. -/
def exWarping : List Task :=
  [⟨0, .act "t" (.push "hat")⟩, ⟨0, .act "t" (.push "call")⟩,
    ⟨0, .act "t" (.editFrame fun frame => { frame with warpMode := true })⟩,
    ⟨0, .act "t" (.push "say")⟩, ⟨0, .act "t" .pop⟩, ⟨0, .act "t" .pop⟩]

/-- Inside the call the top level is in warp mode, the base is not, and when the call is left the
thread is not in warp mode any longer. -/
theorem warp_spreads_inwards_call :
    ∃ entering x leaving, exWarpWorld.history 0 "t" exWarping = entering ++ [x, leaving] ∧
      IsInWarp (warpHistory entering) 3 ∧ ¬ IsInWarp (warpHistory entering) 1 ∧
      leaving.machine.state.isWarpMode = true ∧ leaving.after.state.isWarpMode = false := by
  have hspreads := (@World.warp_spreads_inwards 0 exWarpWorld exWarping "t" _ rfl ⟨rfl, rfl⟩
    (by decide)).1
  have hinside := (hspreads [_, _, _, _] _ _ rfl (by decide)).1.level_iff
  have hleaving := (hspreads [_, _, _, _, _] _ _ rfl (by decide)).2
  refine ⟨[_, _, _, _], _, _, rfl, (hinside 2 _ rfl).mp rfl, fun hbase => ?_, rfl, ?_⟩
  · cases (hinside 0 _ rfl).mpr hbase
  · exact hleaving 1 0 rfl (Nat.le_refl 1)

end BlockThreads
