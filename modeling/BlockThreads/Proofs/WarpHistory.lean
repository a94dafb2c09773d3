import BlockThreads.Proofs.Visits

/-!
# The history of warp mode

A level in warp mode is run without giving way, and so is everything inside it: a new level
starts in the warp mode of the level below. Which levels are in warp mode is told by the history
of shifts alone: a level is, if warp mode was switched on at it while it was on top, or if the
level below was in warp mode when this one was pushed.

To move on to another block does not begin a new level here, so the history is one of levels
that are entered and left, and of switches, the shifts that stay on a level.

Results:
1. `isInWarp_enter_iff`, `isInWarp_leave_iff`, `isInWarp_stay_iff`: what one shift more does.
2. `isInWarp_iff`: going through the history once shows the warp mode of each level.
3. `inwards_warpOf`: from the base of the stack to its top there are first calm levels and then
   levels in warp mode.
-/

namespace BlockThreads

/-- A level is in warp mode after a history: warp mode was switched on in the visit to the level
while it was on top, or the level below was in warp mode when the level was pushed. -/
inductive IsInWarp : List Shift → Nat → Prop
  | switched {past : List Shift} (v : Visit) :
      v.IsOf past → v.notes ≠ [] → IsInWarp past v.level
  | inherited {past : List Shift} (v : Visit) :
      v.IsOf past → IsInWarp v.before (v.level - 1) → IsInWarp past v.level

/-- What a shift does to the warp modes of the levels, the top one first. -/
def Shift.onWarp : Shift → List Bool → List Bool
  | .enter, modes => modes.headD false :: modes
  | .leave, modes => modes.tail
  | .moveOn, modes => modes
  | .stay _, modes => modes.modify 0 fun _ => true

/-- The warp modes after more shifts, the earliest of which comes first. -/
def warpAfter (shifts : List Shift) (modes : List Bool) : List Bool :=
  shifts.foldl (fun modes shift => shift.onWarp modes) modes

/-- The warp modes that a history makes up. -/
def warpOf (past : List Shift) : List Bool := past.foldr Shift.onWarp []

namespace WarpHistoryLemmas

open VisitsLemmas

variable {past : List Shift} {shift : Shift} {level : Nat}

theorem level_of_isInWarp (h : IsInWarp past level) : 0 < level ∧ level ≤ height past := by
  cases h with
  | switched v hv _ => exact ⟨level_pos hv, level_le hv⟩
  | inherited v hv _ => exact ⟨level_pos hv, level_le hv⟩

/-- Once warp mode is switched on at a level, that is noted as long as the level is visited. -/
theorem notes_extend_ne_nil {v : Visit} (hv : v.IsOf past) (hnotes : v.notes ≠ []) :
    (v.extend shift).notes ≠ [] := by
  cases shift with
  | stay action =>
    rw [notes_extend_stay hv]
    split
    · exact List.cons_ne_nil _ _
    · exact hnotes
  | enter | leave | moveOn => exact hnotes

/-- A level stays in warp mode until it is left. -/
theorem isInWarp_extend (h : IsInWarp past level) (hle : level ≤ height (shift :: past))
    (hmove : shift ≠ .moveOn) : IsInWarp (shift :: past) level := by
  cases h with
  | switched v hv hnotes =>
    exact .switched (v.extend shift) (isOf_extend hv hle fun hshift => absurd hshift hmove)
      (notes_extend_ne_nil hv hnotes)
  | inherited v hv hparent =>
    exact .inherited (v.extend shift) (isOf_extend hv hle fun hshift => absurd hshift hmove)
      hparent

/-- There are three ways into warp mode: to be in it before, to inherit it, and a switch. -/
theorem isInWarp_cons (h : IsInWarp (shift :: past) level) (hmove : shift ≠ .moveOn) :
    IsInWarp past level ∨
      (shift = .enter ∧ level = height past + 1 ∧ IsInWarp past (height past)) ∨
      (∃ action, shift = .stay action) ∧ level = height past := by
  cases h with
  | switched v hv hnotes =>
    rcases isOf_cons hv with rfl | ⟨u, hu, rfl, _, _⟩
    · exact absurd rfl hnotes
    · cases shift with
      | stay action =>
        rw [notes_extend_stay hu] at hnotes
        split at hnotes
        · next htop => exact .inr (.inr ⟨⟨action, rfl⟩, htop.symm⟩)
        · exact .inl (.switched u hu hnotes)
      | enter | leave => exact .inl (.switched u hu hnotes)
      | moveOn => exact absurd rfl hmove
  | inherited v hv hparent =>
    rcases isOf_cons hv with rfl | ⟨u, hu, rfl, _, _⟩
    · rcases hv.starts with hstart | ⟨hstart, _⟩
      · obtain rfl : shift = .enter := hstart
        exact .inr (.inl ⟨rfl, rfl, hparent⟩)
      · exact absurd hstart hmove
    · exact .inl (.inherited u hu hparent)

/-- A new level inherits the warp mode of the level below. -/
theorem isInWarp_enter_iff :
    IsInWarp (.enter :: past) level ↔
      IsInWarp past level ∨ level = height past + 1 ∧ IsInWarp past (height past) := by
  constructor
  · intro h
    rcases isInWarp_cons h nofun with h | ⟨-, h⟩ | ⟨⟨_, hshift⟩, -⟩
    · exact .inl h
    · exact .inr h
    · cases hshift
  · rintro (h | ⟨rfl, h⟩)
    · have hle := (level_of_isInWarp h).2
      exact isInWarp_extend h (Nat.le_succ_of_le hle) nofun
    · exact .inherited ⟨[], .enter, past⟩ (isOf_start (.inl rfl)) h

/-- The levels that are not left keep their warp mode. -/
theorem isInWarp_leave_iff :
    IsInWarp (.leave :: past) level ↔ IsInWarp past level ∧ level ≤ height past - 1 := by
  constructor
  · intro h
    refine ⟨?_, (level_of_isInWarp h).2⟩
    rcases isInWarp_cons h nofun with h | ⟨hshift, -⟩ | ⟨⟨_, hshift⟩, -⟩
    · exact h
    · cases hshift
    · cases hshift
  · rintro ⟨h, hle⟩
    exact isInWarp_extend h hle nofun

/-- Warp mode can be switched on at the top level. -/
theorem isInWarp_stay_iff {action : Action} :
    IsInWarp (.stay action :: past) level ↔
      IsInWarp past level ∨ 0 < level ∧ level = height past := by
  constructor
  · intro h
    have hpos := (level_of_isInWarp h).1
    rcases isInWarp_cons h nofun with h | ⟨hshift, -⟩ | ⟨-, hlevel⟩
    · exact .inl h
    · cases hshift
    · exact .inr ⟨hpos, hlevel⟩
  · rintro (h | ⟨hpos, rfl⟩)
    · exact isInWarp_extend h (level_of_isInWarp h).2 nofun
    · obtain ⟨v, hv, hlevel⟩ := exists_visit hpos (Nat.le_refl _)
      have hnotes : (v.extend (.stay action)).notes ≠ [] := by
        rw [notes_extend_stay hv, if_pos hlevel.symm]
        exact List.cons_ne_nil _ _
      rw [← hlevel]
      exact .switched (v.extend (.stay action))
        (isOf_extend hv (Nat.le_of_eq hlevel) nofun) hnotes

/-! ## Going through the history -/

theorem length_warpOf (past : List Shift) : (warpOf past).length = height past := by
  induction past with
  | nil => rfl
  | cons shift past ih =>
    show (shift.onWarp (warpOf past)).length = _
    cases shift with
    | enter => rw [Shift.onWarp, List.length_cons, ih, height]
    | leave => rw [Shift.onWarp, List.length_tail, ih, height]
    | moveOn => rw [Shift.onWarp, ih, height]
    | stay action => rw [Shift.onWarp, List.length_modify, ih, height]

/-- The top level is the last one from the base. -/
theorem getElem?_top {modes : List Bool} {top : Nat} (htop : modes.length = top + 1) :
    modes.reverse[top]? = some true ↔ modes.headD false = true := by
  cases modes with
  | nil => cases htop
  | cons mode modes =>
    obtain rfl : modes.length = top := Nat.succ.inj htop
    rw [List.reverse_cons, List.getElem?_append_right (by simp)]
    simp

theorem getElem?_enter (modes : List Bool) (i : Nat) :
    (Shift.enter.onWarp modes).reverse[i]? =
      if i < modes.length then modes.reverse[i]?
      else if i = modes.length then some (modes.headD false) else none := by
  rw [Shift.onWarp, List.reverse_cons, List.getElem?_append, List.length_reverse]
  split
  · rfl
  · next habove =>
    have hnew : i - modes.length = 0 ↔ i = modes.length := by omega
    rw [List.getElem?_singleton]
    simp only [hnew]

theorem getElem?_leave (modes : List Bool) (i : Nat) :
    (Shift.leave.onWarp modes).reverse[i]? =
      if i < modes.length - 1 then modes.reverse[i]? else none := by
  rw [Shift.onWarp, ← List.dropLast_reverse, List.getElem?_dropLast, List.length_reverse]

theorem getElem?_stay (action : Action) (modes : List Bool) (i : Nat) :
    ((Shift.stay action).onWarp modes).reverse[i]? =
      if i + 1 = modes.length then some true else modes.reverse[i]? := by
  cases modes with
  | nil => rfl
  | cons mode modes =>
    have hset : (Shift.stay action).onWarp (mode :: modes) = true :: modes := rfl
    rw [hset, List.reverse_cons, List.reverse_cons, List.getElem?_append, List.getElem?_append,
      List.length_reverse, List.length_cons, List.getElem?_singleton, List.getElem?_singleton]
    split
    · next hbelow => rw [if_neg (by omega)]
    · next habove => split <;> split <;> first | rfl | omega

/-- Going through the history once shows the warp mode of each level. -/
theorem isInWarp_iff (hmove : .moveOn ∉ past) (i : Nat) :
    IsInWarp past (i + 1) ↔ (warpOf past).reverse[i]? = some true := by
  induction past generalizing i with
  | nil =>
    refine iff_of_false (fun h => ?_) (fun h => nomatch h)
    cases (level_of_isInWarp h).2
  | cons shift past ih =>
    have ih := ih fun h => hmove (List.mem_cons_of_mem _ h)
    have hunfold : warpOf (shift :: past) = shift.onWarp (warpOf past) := rfl
    rw [hunfold]
    cases shift with
    | moveOn => exact absurd List.mem_cons_self hmove
    | enter =>
      have htop : IsInWarp past (height past) ↔ (warpOf past).headD false = true := by
        have hlength := length_warpOf past
        cases hheight : height past with
        | zero =>
          rw [List.length_eq_zero_iff.mp (hlength.trans hheight)]
          exact iff_of_false (fun h => nomatch (level_of_isInWarp h).1) Bool.false_ne_true
        | succ top => rw [ih, getElem?_top (hlength.trans hheight)]
      rw [isInWarp_enter_iff, htop, getElem?_enter, length_warpOf]
      split
      · next hbelow =>
        rw [ih]
        exact or_iff_left fun h => Nat.ne_of_lt hbelow (Nat.succ.inj h.1)
      · next habove =>
        have hnew : ¬ IsInWarp past (i + 1) := fun h => habove (level_of_isInWarp h).2
        split
        · next hi => rw [or_iff_right hnew, hi, Option.some.injEq, and_iff_right rfl]
        · next hi =>
          refine iff_of_false ?_ (fun h => nomatch h)
          rintro (h | ⟨h, -⟩)
          · exact hnew h
          · exact hi (Nat.succ.inj h)
    | leave =>
      rw [isInWarp_leave_iff, ih, getElem?_leave, length_warpOf]
      split
      · next hbelow => exact and_iff_left hbelow
      · next habove => exact iff_of_false (fun h => habove h.2) (fun h => nomatch h)
    | stay action =>
      rw [isInWarp_stay_iff, ih, getElem?_stay, length_warpOf]
      split
      · next htop => exact iff_of_true (.inr ⟨Nat.succ_pos i, htop⟩) rfl
      · next hbelow => exact or_iff_left fun h => hbelow h.2

/-- First calm levels, then levels in warp mode, from the base to the top. -/
theorem inwards_warpOf (past : List Shift) :
    ∃ warping calm, warpOf past = .replicate warping true ++ .replicate calm false := by
  induction past with
  | nil => exact ⟨0, 0, rfl⟩
  | cons shift past ih =>
    obtain ⟨warping, calm, h⟩ := ih
    have hunfold : warpOf (shift :: past) = shift.onWarp (warpOf past) := rfl
    rw [hunfold, h]
    cases warping with
    | succ warping =>
      cases shift with
      | enter => exact ⟨warping + 2, calm, rfl⟩
      | leave => exact ⟨warping, calm, rfl⟩
      | moveOn | stay => exact ⟨warping + 1, calm, rfl⟩
    | zero =>
      cases calm with
      | zero =>
        cases shift with
        | enter => exact ⟨0, 1, rfl⟩
        | leave | moveOn | stay => exact ⟨0, 0, rfl⟩
      | succ calm =>
        cases shift with
        | enter => exact ⟨0, calm + 2, rfl⟩
        | leave => exact ⟨0, calm, rfl⟩
        | moveOn => exact ⟨0, calm + 1, rfl⟩
        | stay => exact ⟨1, calm, rfl⟩

/-! ## More shifts -/

theorem warpOf_reverse (shifts : List Shift) : warpOf shifts.reverse = warpAfter shifts [] :=
  List.foldr_reverse

theorem warpAfter_leave (levels : Nat) (modes : List Bool) :
    warpAfter (.replicate levels .leave) modes = modes.drop levels := by
  induction levels generalizing modes with
  | zero => rfl
  | succ levels ih =>
    show warpAfter (.replicate levels .leave) modes.tail = _
    rw [ih, List.drop_tail]

theorem length_warpAfter {shifts : List Shift} (h : .leave ∉ shifts) (modes : List Bool) :
    modes.length ≤ (warpAfter shifts modes).length := by
  induction shifts generalizing modes with
  | nil => exact Nat.le_refl _
  | cons shift shifts ih =>
    refine Nat.le_trans ?_ (ih (fun hmem => h (List.mem_cons_of_mem _ hmem)) (shift.onWarp modes))
    cases shift with
    | enter => exact Nat.le_succ _
    | leave => exact absurd List.mem_cons_self h
    | moveOn => exact Nat.le_refl _
    | stay action => exact Nat.le_of_eq (List.length_modify _ _ _).symm

end WarpHistoryLemmas

end BlockThreads
