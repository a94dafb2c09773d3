import BlockThreads.Proofs.Levels

/-!
# Visits to the levels of a stack

What a thread does with its stack is a history of shifts: it enters a new level on top, it
leaves the top level, it moves the top level on to another block, or it stays there and does
something else. A visit to a level begins when the level is entered or moved on and lasts
until it is left or moved on again. In between the thread may go deeper and come back. What
it does while the level is on top is noted for the visit.

A parameter is visible if it was bound in the innermost visit in which parameters were
introduced. This is said of the history alone, without a look at any frame.

Two lists are kept newest first, as the parts of a history are told from its end: the shifts
of a history, and the notes of a visit.

Results:
1. `exists_visit`, `levelNotes_of_visit`: each level of the stack is being visited, and the
   notes of the visit are found by going through the history once.
2. `isVisible_iff`: a parameter is visible exactly if it stands in the first parameter table
   that these notes make up, from the top level down.
-/

namespace BlockThreads

/-! ## Shifts -/

/-- What a thread does with the levels of its stack. -/
inductive Shift where
  | enter
  /-- Nothing happens on an empty stack. -/
  | leave
  /-- The top level goes on to another block. Nothing happens on an empty stack. -/
  | moveOn
  /-- Anything that leaves the levels as they are. -/
  | stay (action : Action)

/-- How many levels there are after a history of shifts. -/
def height : List Shift → Nat
  | [] => 0
  | .enter :: past => height past + 1
  | .leave :: past => height past - 1
  | .moveOn :: past => height past
  | .stay _ :: past => height past

/-- The shifts of unwinding at most `levels` levels, the earliest first. -/
def Machine.unwindShifts : Nat → Machine → List Shift
  | 0, _ => []
  | levels + 1, m =>
    match m.state.peek with
    | none => []
    | some id =>
      if m.state.isWaiting then []
      else if m.isCall id then [.moveOn]
      else .leave :: unwindShifts levels m.drop

/-- The shifts of an action, the earliest first. -/
def Action.shifts (m : Machine) : Action → List Shift
  | .push _ => [.enter]
  | .pushAll ids => ids.map fun _ => .enter
  | .enter _ => [.enter]
  | .reuse _ => [.moveOn]
  | .next => [.moveOn]
  | .pop => [.leave]
  | .stop => m.unwindShifts m.state.stack.length
  | .retire => m.state.stack.map fun _ => .leave
  | .kill => m.state.stack.map fun _ => .leave
  | action => [.stay action]

/-- The shifts of whatever happens to a thread, the earliest first. -/
def Moment.shifts (x : Moment) : List Shift :=
  match x.move with
  | .act action => action.shifts x.machine
  | .bind _ _ => if x.machine.state.stack.isEmpty then [.enter] else []
  | _ => []

/-- The history of shifts that moments make, the latest first. -/
def shiftsOf (moments : List Moment) : List Shift := (moments.flatMap Moment.shifts).reverse

/-! ## Visits -/

/-- A stay on a level: the shift by which it began, and the history before and since. -/
structure Visit where
  since : List Shift
  start : Shift
  before : List Shift

namespace Visit

/-- The level that is visited, counted from the base of the stack. -/
def level (v : Visit) : Nat := height (v.start :: v.before)

/-- A history ends in a visit: the level was entered or moved on by the first shift of the
visit, and has neither been left nor moved on since. -/
structure IsOf (v : Visit) (past : List Shift) : Prop where
  past_eq : past = v.since ++ v.start :: v.before
  starts : v.start = .enter ∨ v.start = .moveOn ∧ 0 < height v.before
  unleft : ∀ later earlier, v.since = later ++ earlier →
    v.level ≤ height (earlier ++ v.start :: v.before)
  unmoved : ∀ later earlier, v.since = later ++ .moveOn :: earlier →
    height (earlier ++ v.start :: v.before) ≠ v.level

/-- What is done while a level is on top, from a history before on. -/
def notesAt (level : Nat) (before : List Shift) : List Shift → List Action
  | [] => []
  | .stay action :: past =>
    if height (past ++ before) = level then action :: notesAt level before past
    else notesAt level before past
  | _ :: past => notesAt level before past

/-- What is done in a visit while its level is on top, the latest first. -/
def notes (v : Visit) : List Action := notesAt v.level (v.start :: v.before) v.since

/-- The visit when one more shift has been made. -/
def extend (shift : Shift) (v : Visit) : Visit := { v with since := shift :: v.since }

end Visit

/-- Whether the last parameter that notes bind to a name, after parameters were introduced, is
a value. -/
def Binds (name : String) (value : Value) (notes : List Action) : Prop :=
  ∃ later earlier, notes = later ++ .pushParam name value :: earlier ∧
    .initParams ∈ earlier ∧ ∀ other, .pushParam name other ∉ later

/-- A parameter is visible after a history: it was bound in a visit, to a level that is still
there, which is the innermost one in which parameters were introduced. -/
def IsVisible (past : List Shift) (name : String) (value : Value) : Prop :=
  ∃ v : Visit, v.IsOf past ∧ Binds name value v.notes ∧
    ∀ other : Visit, other.IsOf past → .initParams ∈ other.notes → other.level ≤ v.level

/-! ## Notes by level -/

/-- The notes of all levels, the top one first. -/
def levelNotes : List Shift → List (List Action)
  | [] => []
  | .enter :: past => [] :: levelNotes past
  | .leave :: past => (levelNotes past).tail
  | .moveOn :: past => (levelNotes past).modify 0 fun _ => []
  | .stay action :: past => (levelNotes past).modify 0 fun notes => action :: notes

/-- The parameter table that notes make up, if parameters were introduced. -/
def paramsOf : List Action → Option Params
  | [] => none
  | .initParams :: notes => some ((paramsOf notes).getD .empty)
  | .pushParam name value :: notes => (paramsOf notes).map fun params => params.insert name value
  | _ :: notes => paramsOf notes

namespace VisitsLemmas

variable {v : Visit} {past : List Shift} {shift : Shift} {name : String} {value : Value}
  {notes : List Action}

theorem length_levelNotes (past : List Shift) : (levelNotes past).length = height past := by
  induction past with
  | nil => rfl
  | cons shift past ih =>
    cases shift with
    | enter => rw [levelNotes, List.length_cons, ih, height]
    | leave => rw [levelNotes, List.length_tail, ih, height]
    | moveOn => rw [levelNotes, List.length_modify, ih, height]
    | stay action => rw [levelNotes, List.length_modify, ih, height]

/-! ## One shift more -/

theorem level_pos (h : v.IsOf past) : 0 < v.level := by
  unfold Visit.level
  rcases h.starts with hstart | ⟨hstart, hpos⟩
  · rw [hstart]
    exact Nat.succ_pos _
  · rw [hstart]
    exact hpos

theorem level_le (h : v.IsOf past) : v.level ≤ height past := by
  rw [h.past_eq]
  exact h.unleft [] v.since rfl

/-- A visit begins with the last shift. -/
theorem isOf_start (h : shift = .enter ∨ shift = .moveOn ∧ 0 < height past) :
    Visit.IsOf ⟨[], shift, past⟩ (shift :: past) where
  past_eq := rfl
  starts := h
  unleft later earlier heq := by
    rw [(List.append_eq_nil_iff.mp heq.symm).2]
    exact Nat.le_refl _
  unmoved later earlier heq := by
    cases (List.append_eq_nil_iff.mp heq.symm).2

/-- A visit goes on, unless the level is left or moved on by the last shift. -/
theorem isOf_extend (h : v.IsOf past) (hunleft : v.level ≤ height (shift :: past))
    (hunmoved : shift = .moveOn → height past ≠ v.level) :
    (v.extend shift).IsOf (shift :: past) where
  past_eq := congrArg (shift :: ·) h.past_eq
  starts := h.starts
  unleft later earlier heq := by
    cases later with
    | nil =>
      rw [List.nil_append] at heq
      rw [← heq]
      show v.level ≤ height (shift :: (v.since ++ v.start :: v.before))
      rw [← h.past_eq]
      exact hunleft
    | cons _ later => exact h.unleft later earlier (List.cons.inj heq).2
  unmoved later earlier heq := by
    cases later with
    | nil =>
      obtain ⟨hshift, rfl⟩ := List.cons.inj heq
      show height (v.since ++ v.start :: v.before) ≠ v.level
      rw [← h.past_eq]
      exact hunmoved hshift
    | cons _ later => exact h.unmoved later earlier (List.cons.inj heq).2

/-- A visit that there is after one more shift begins with it or was there before. -/
theorem isOf_cons (h : v.IsOf (shift :: past)) :
    v = ⟨[], shift, past⟩ ∨
      ∃ u : Visit, u.IsOf past ∧ v = u.extend shift ∧ v.level ≤ height (shift :: past) ∧
        (shift = .moveOn → height past ≠ v.level) := by
  obtain ⟨since, start, before⟩ := v
  cases since with
  | nil =>
    obtain ⟨rfl, rfl⟩ := List.cons.inj h.past_eq
    exact .inl rfl
  | cons last since =>
    obtain ⟨rfl, hpast⟩ := List.cons.inj h.past_eq
    refine .inr ⟨⟨since, start, before⟩, ⟨hpast, h.starts, ?_, ?_⟩, rfl, level_le h, ?_⟩
    · exact fun later earlier heq => h.unleft (shift :: later) earlier (congrArg (shift :: ·) heq)
    · exact fun later earlier heq => h.unmoved (shift :: later) earlier (congrArg (shift :: ·) heq)
    · rintro rfl
      rw [hpast]
      exact h.unmoved [] since rfl

/-- What is done while the level is on top is noted. -/
theorem notes_extend_stay (h : v.IsOf past) (action : Action) :
    (v.extend (.stay action)).notes =
      if height past = v.level then action :: v.notes else v.notes := by
  show (if height (v.since ++ v.start :: v.before) = v.level then _ else _) = _
  rw [← h.past_eq]
  rfl

/-! ## Visits and levels -/

/-- The notes of a visit are those of its level. -/
theorem levelNotes_of_visit (h : v.IsOf past) :
    (levelNotes past)[height past - v.level]? = some v.notes := by
  induction past generalizing v with
  | nil =>
    have hpast := h.past_eq
    cases hsince : v.since <;> rw [hsince] at hpast <;> cases hpast
  | cons shift past ih =>
    rcases isOf_cons h with rfl | ⟨u, hu, rfl, hunleft, hunmoved⟩
    · -- the level is on top, and nothing has been noted yet
      have hlevel : (⟨[], shift, past⟩ : Visit).level = height (shift :: past) := rfl
      rw [hlevel, Nat.sub_self]
      rcases h.starts with hstart | ⟨hstart, hpos⟩
      · obtain rfl : shift = .enter := hstart
        rfl
      · obtain rfl : shift = .moveOn := hstart
        obtain ⟨notes, others, hnotes⟩ :
            ∃ notes others, levelNotes past = notes :: others :=
          List.exists_cons_of_length_pos (by rw [length_levelNotes]; exact hpos)
        rw [levelNotes, hnotes]
        rfl
    · have hlevel : (u.extend shift).level = u.level := rfl
      have hpos := level_pos hu
      have hle := level_le hu
      rw [hlevel] at hunleft hunmoved ⊢
      cases shift with
      | enter =>
        have hindex : height (.enter :: past) - u.level = (height past - u.level) + 1 := by
          rw [height]
          omega
        rw [hindex, levelNotes, List.getElem?_cons_succ, ih hu]
        rfl
      | leave =>
        rw [height] at hunleft
        have hindex : height (.leave :: past) - u.level + 1 = height past - u.level := by
          rw [height]
          omega
        rw [levelNotes, List.getElem?_tail, hindex, ih hu]
        rfl
      | moveOn =>
        have hne : height (.moveOn :: past) - u.level ≠ 0 := by
          have := hunmoved rfl
          rw [height]
          omega
        rw [levelNotes, List.getElem?_modify_ne _ _ hne.symm, height, ih hu]
        rfl
      | stay action =>
        rw [levelNotes, height, notes_extend_stay hu]
        by_cases htop : height past = u.level
        · have hnotes := ih hu
          rw [htop, Nat.sub_self] at hnotes ⊢
          rw [List.getElem?_modify_eq, hnotes, if_pos rfl]
          rfl
        · have hne : height past - u.level ≠ 0 := by omega
          rw [List.getElem?_modify_ne _ _ hne.symm, ih hu, if_neg htop]

/-- Each level that is there is being visited. -/
theorem exists_visit {level : Nat} (hpos : 0 < level) (hle : level ≤ height past) :
    ∃ v : Visit, v.IsOf past ∧ v.level = level := by
  induction past with
  | nil => exact absurd hle (Nat.not_le_of_lt hpos)
  | cons shift past ih =>
    have hextend : level ≤ height past → (shift = .moveOn → height past ≠ level) →
        ∃ v : Visit, v.IsOf (shift :: past) ∧ v.level = level := by
      intro hpast hunmoved
      obtain ⟨v, hv, rfl⟩ := ih hpast
      exact ⟨v.extend shift, isOf_extend hv hle hunmoved, rfl⟩
    cases shift with
    | enter =>
      by_cases htop : level = height past + 1
      · exact ⟨_, isOf_start (.inl rfl), htop.symm⟩
      · rw [height] at hle
        exact hextend (by omega) (fun h => nomatch h)
    | leave =>
      rw [height] at hle
      exact hextend (by omega) (fun h => nomatch h)
    | moveOn =>
      by_cases htop : height past = level
      · exact ⟨_, isOf_start (.inr ⟨rfl, htop ▸ hpos⟩), htop⟩
      · exact hextend hle fun _ => htop
    | stay action => exact hextend hle (fun h => nomatch h)

/-! ## Parameters -/

/-- Notes make up a parameter table exactly if parameters were introduced. -/
theorem paramsOf_isSome_iff : (paramsOf notes).isSome ↔ .initParams ∈ notes := by
  induction notes with
  | nil => simp [paramsOf]
  | cons action notes ih =>
    cases action with
    | initParams => simp [paramsOf]
    | pushParam name value => simpa [paramsOf] using ih
    | _ => simpa [paramsOf] using ih

/-- What the latest note has to do with what notes bind. -/
theorem binds_cons {action : Action} :
    Binds name value (action :: notes) ↔
      action = .pushParam name value ∧ .initParams ∈ notes ∨
        (∀ other, action ≠ .pushParam name other) ∧ Binds name value notes := by
  constructor
  · rintro ⟨later, earlier, heq, hinit, hlast⟩
    cases later with
    | nil =>
      obtain ⟨rfl, rfl⟩ := List.cons.inj heq
      exact .inl ⟨rfl, hinit⟩
    | cons _ later =>
      obtain ⟨rfl, rfl⟩ := List.cons.inj heq
      refine .inr ⟨fun other hother => ?_, later, earlier, rfl, hinit, fun other hmem => ?_⟩
      · exact hlast other (hother ▸ List.mem_cons_self)
      · exact hlast other (List.mem_cons_of_mem _ hmem)
  · rintro (⟨rfl, hinit⟩ | ⟨hother, later, earlier, rfl, hinit, hlast⟩)
    · exact ⟨[], notes, rfl, hinit, fun _ hmem => absurd hmem List.not_mem_nil⟩
    · refine ⟨action :: later, earlier, rfl, hinit, fun other hmem => ?_⟩
      rcases List.mem_cons.mp hmem with h | hmem
      · exact hother other h.symm
      · exact hlast other hmem

/-- The table that notes make up holds what they bind. -/
theorem get?_paramsOf :
    (paramsOf notes).bind (fun params => params.get? name) = some value ↔
      Binds name value notes := by
  induction notes with
  | nil =>
    constructor
    · intro h
      cases h
    · rintro ⟨later, earlier, heq, _⟩
      exact absurd heq.symm (List.append_ne_nil_of_right_ne_nil _ (List.cons_ne_nil _ _))
  | cons action notes ih =>
    rw [binds_cons]
    cases action with
    | initParams =>
      have hgetD : (paramsOf (.initParams :: notes)).bind (fun params => params.get? name) =
          (paramsOf notes).bind fun params => params.get? name := by
        rw [paramsOf]
        cases paramsOf notes <;> rfl
      rw [hgetD, ih]
      simp
    | pushParam other written =>
      rw [paramsOf, Option.bind_map]
      by_cases hname : other = name
      · subst hname
        cases hparams : paramsOf notes with
        | none =>
          have hinit : .initParams ∉ notes := by
            rw [← paramsOf_isSome_iff, hparams]
            exact Bool.false_ne_true
          simp [hinit]
        | some params =>
          have hinit : .initParams ∈ notes := by
            rw [← paramsOf_isSome_iff, hparams]
            rfl
          simp [hinit]
      · have hsame : (paramsOf notes).bind
            ((fun params => params.get? name) ∘ fun params => params.insert other written) =
              (paramsOf notes).bind fun params => params.get? name := by
          congr 1
          funext params
          exact Table.get?_insert_of_ne params written hname
        rw [hsame, ih]
        simp [hname]
    | _ =>
      show (paramsOf notes).bind _ = some value ↔ _
      rw [ih]
      simp

/-- The first answer in a list, by its place. -/
theorem findSome?_iff_place {α β : Type} {f : α → Option β} {entries : List α} {b : β} :
    entries.findSome? f = some b ↔ ∃ (i : Nat) (a : α), entries[i]? = some a ∧ f a = some b ∧
      ∀ (j : Nat) (c : α), j < i → entries[j]? = some c → f c = none := by
  rw [List.findSome?_eq_some_iff]
  constructor
  · rintro ⟨front, a, back, rfl, ha, hfront⟩
    refine ⟨front.length, a, ?_, ha, fun j c hj hc => hfront c ?_⟩
    · rw [List.getElem?_append_right (Nat.le_refl _), Nat.sub_self]
      rfl
    · rw [List.getElem?_append_left hj] at hc
      exact List.mem_of_getElem? hc
  · rintro ⟨i, a, hi, ha, hfirst⟩
    obtain ⟨hlt, rfl⟩ := List.getElem?_eq_some_iff.mp hi
    refine ⟨entries.take i, entries[i], entries.drop (i + 1), ?_, ha, fun c hc => ?_⟩
    · rw [List.getElem_cons_drop, List.take_append_drop]
    · obtain ⟨j, hj, rfl⟩ := List.getElem_of_mem hc
      rw [List.length_take] at hj
      have hji : j < i := Nat.lt_of_lt_of_le hj (Nat.min_le_left _ _)
      exact hfirst j _ hji (by rw [List.getElem_take, List.getElem?_eq_getElem])

/-- The visit to a level of the stack, by its place from the top. -/
theorem visit_of_levelNotes {i : Nat} (h : (levelNotes past)[i]? = some notes) :
    ∃ v : Visit, v.IsOf past ∧ v.notes = notes ∧ v.level + i = height past := by
  obtain ⟨hlt, _⟩ := List.getElem?_eq_some_iff.mp h
  rw [length_levelNotes] at hlt
  obtain ⟨v, hv, hlevel⟩ := exists_visit (Nat.sub_pos_of_lt hlt) (Nat.sub_le _ _)
  have hplace : height past - v.level = i := by omega
  have hnotes := levelNotes_of_visit hv
  rw [hplace, h] at hnotes
  exact ⟨v, hv, (Option.some.inj hnotes).symm, by omega⟩

/-- A parameter is visible exactly if it stands in the first parameter table that the notes
make up, from the top level down. -/
theorem isVisible_iff :
    IsVisible past name value ↔
      ((levelNotes past).findSome? paramsOf).bind (fun params => params.get? name) =
        some value := by
  rw [Option.bind_eq_some_iff]
  constructor
  · rintro ⟨v, hv, hbinds, hinnermost⟩
    obtain ⟨params, hparams, hget⟩ := Option.bind_eq_some_iff.mp (get?_paramsOf.mpr hbinds)
    refine ⟨params, findSome?_iff_place.mpr ⟨_, v.notes, levelNotes_of_visit hv, hparams, ?_⟩, hget⟩
    intro j notes hj hnotes
    -- parameters introduced further in would be those of the innermost visit
    obtain ⟨u, hu, rfl, hlevel⟩ := visit_of_levelNotes hnotes
    have hinner : ¬ u.level ≤ v.level := by omega
    rw [← Option.not_isSome_iff_eq_none, paramsOf_isSome_iff]
    exact fun hinit => hinner (hinnermost u hu hinit)
  · rintro ⟨params, hfind, hget⟩
    obtain ⟨i, notes, hnotes, hparams, hfirst⟩ := findSome?_iff_place.mp hfind
    obtain ⟨v, hv, rfl, hlevel⟩ := visit_of_levelNotes hnotes
    refine ⟨v, hv, get?_paramsOf.mp (Option.bind_eq_some_iff.mpr ⟨params, hparams, hget⟩), ?_⟩
    intro u hu hinit
    refine Nat.le_of_not_lt fun hinner => ?_
    have hle := level_le hu
    have hnone := hfirst _ _ (show height past - u.level < i by omega) (levelNotes_of_visit hu)
    rw [← paramsOf_isSome_iff, hnone] at hinit
    cases hinit

end VisitsLemmas

end BlockThreads
