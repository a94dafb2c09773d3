import BlockThreads.Proofs.BlockMaps
import BlockThreads.Proofs.SharedOutcomes

/-!
# Outcomes and changes of the graph

A compiled script is right for the graph of blocks that it was compiled from. A container
whose graph changes therefore forgets all outcomes, those of other scripts too, and also if a
block gives way to one that is the same. What is done to outcomes leaves the graph alone.

So the history of what was done to a container tells what it answers. The outcome of a script
is the last one that was remembered for it since the graph changed or all outcomes were
forgotten; the block with an id is the last one that was inserted with the id, or else the one
that was read. In a world a container changes when its owner says so, and when a thread is
compiled. No other deed changes it.

Results:
1. `Container.isTold_after`: what a container answers, by what was done to it.
2. `GraphChangesLemmas.container_path`: what was done to a container in the run of a world.
3. `World.outcomes_since_changes`: both together.
-/

namespace BlockThreads

/-! ## Changes -/

namespace Container

/-- A change of a container. -/
inductive Change where
  | insert (id : String) (block : Block)
  | remember (top : String) (outcome : Outcome)
  | forget

def Change.apply : Change → Container → Container
  | .insert id block, c => c.insert id block
  | .remember top outcome, c => c.remember top outcome
  | .forget, c => c.forget

/-- A container after some changes, the earliest first. -/
def after (changes : List Change) (c : Container) : Container :=
  changes.foldl (fun c change => change.apply c) c

/-- An outcome was remembered for a script, and since then no other one has been, the graph has
not changed and the outcomes have not been forgotten. -/
def IsKnown (changes : List Change) (top : String) (outcome : Outcome) : Prop :=
  ∃ earlier later, changes = earlier ++ .remember top outcome :: later ∧
    (∀ other, .remember top other ∉ later) ∧ (∀ id block, .insert id block ∉ later) ∧
    .forget ∉ later

/-- A block was inserted with an id, and since then no other one has been. -/
def IsPlaced (changes : List Change) (id : String) (block : Block) : Prop :=
  ∃ earlier later, changes = earlier ++ .insert id block :: later ∧
    ∀ other, .insert id other ∉ later

/-- A container answers what the changes tell that have been made to another one. -/
structure IsTold (c start : Container) (changes : List Change) : Prop where
  outcome?_iff : ∀ top outcome, c.outcome? top = some outcome ↔ IsKnown changes top outcome
  block?_iff : ∀ id block, c.block? id = some block ↔
    IsPlaced changes id block ∨
      (∀ other, .insert id other ∉ changes) ∧ start.block? id = some block

/-- A container as it is made: an empty one, or one that was read from a text. -/
def IsMade (c : Container) : Prop :=
  ∃ made forceNoGlow, c = { made with forceNoGlow } ∧
    (made = empty ∨ ∃ text, Container.ofText text = .ok made)

/-- What a change makes of the outcome of a script; nothing, if it leaves it alone. -/
def Change.onOutcome (top : String) : Change → Option (Option Outcome)
  | .insert _ _ => some none
  | .remember other outcome => if other = top then some (some outcome) else none
  | .forget => some none

/-- What a change makes of the block with an id; nothing, if it leaves it alone. -/
def Change.onBlock (id : String) : Change → Option (Option Block)
  | .insert other block => if other = id then some (some block) else none
  | .remember _ _ => none
  | .forget => none

/-- What the last change that has to do with an answer has made of it. -/
def IsLast {α : Type} (effect : Change → Option α) (changes : List Change) (a : α) : Prop :=
  ∃ earlier change later, changes = earlier ++ change :: later ∧ effect change = some a ∧
    ∀ other ∈ later, effect other = none

variable {c : Container} {changes earlier later : List Change} {change : Change}
  {id top : String} {block : Block} {outcome : Outcome}

/-! ## What is left of changes -/

theorem after_append (earlier later : List Change) (c : Container) :
    c.after (earlier ++ later) = (c.after earlier).after later :=
  List.foldl_append

theorem outcome?_apply (top : String) (change : Change) (c : Container) :
    (change.apply c).outcome? top = (change.onOutcome top).getD (c.outcome? top) := by
  cases change with
  | insert id block => rfl
  | forget => rfl
  | remember other outcome =>
    rw [Change.apply, outcome?_remember, Change.onOutcome]
    split <;> rfl

theorem block?_apply (id : String) (change : Change) (c : Container) :
    (change.apply c).block? id = (change.onBlock id).getD (c.block? id) := by
  cases change with
  | insert other block =>
    rw [Change.apply, block?_insert, Change.onBlock]
    split <;> rfl
  | remember => rfl
  | forget => rfl

/-- What a container answers after some changes is what the last of them has made of it that
has to do with it. -/
theorem answer_after {α : Type} {answer : Container → α} {effect : Change → Option α}
    (h : ∀ change c, answer (change.apply c) = (effect change).getD (answer c))
    (changes : List Change) (c : Container) :
    answer (c.after changes) = (changes.reverse.findSome? effect).getD (answer c) := by
  induction changes generalizing c with
  | nil => rfl
  | cons change changes ih =>
    have hstep : c.after (change :: changes) = (change.apply c).after changes := rfl
    rw [hstep, ih, h, List.reverse_cons, List.findSome?_append, List.findSome?_singleton]
    cases changes.reverse.findSome? effect <;> rfl

/-- A change that has to do with something else may as well not have been made. -/
theorem answer_without {α : Type} (answer : Container → α) {effect : Change → Option α}
    (h : ∀ change c, answer (change.apply c) = (effect change).getD (answer c))
    (hnone : effect change = none) (earlier later : List Change) (c : Container) :
    answer (c.after (earlier ++ change :: later)) = answer (c.after (earlier ++ later)) := by
  rw [answer_after h, answer_after h, List.reverse_append, List.reverse_append,
    List.reverse_cons, List.findSome?_append, List.findSome?_append, List.findSome?_append,
    List.findSome?_singleton, hnone, Option.or_none]

theorem isLast_iff {α : Type} {effect : Change → Option α} {a : α} :
    IsLast effect changes a ↔ changes.reverse.findSome? effect = some a := by
  rw [List.findSome?_eq_some_iff]
  constructor
  · rintro ⟨earlier, change, later, rfl, hchange, hlater⟩
    refine ⟨later.reverse, change, earlier.reverse, ?_, hchange, fun other hother =>
      hlater other (List.mem_reverse.mp hother)⟩
    rw [List.reverse_append, List.reverse_cons, List.append_assoc]
    rfl
  · rintro ⟨front, change, back, hchanges, hchange, hfront⟩
    refine ⟨back.reverse, change, front.reverse, ?_, hchange, fun other hother =>
      hfront other (List.mem_reverse.mp hother)⟩
    rw [← List.reverse_reverse changes, hchanges, List.reverse_append, List.reverse_cons,
      List.append_assoc]
    rfl

/-- A container answers what the last change that has to do with it has made of it, or else
what it answered before. -/
theorem answer_after_iff {α : Type} (answer : Container → α) {effect : Change → Option α} {a : α}
    (h : ∀ change c, answer (change.apply c) = (effect change).getD (answer c)) :
    answer (c.after changes) = a ↔ IsLast effect changes a ∨
      (∀ change ∈ changes, effect change = none) ∧ answer c = a := by
  rw [answer_after h, isLast_iff]
  cases hlast : changes.reverse.findSome? effect with
  | none =>
    have hnone : ∀ change ∈ changes, effect change = none := fun change hchange =>
      List.findSome?_eq_none_iff.mp hlast change (List.mem_reverse.mpr hchange)
    constructor
    · exact fun hanswer => .inr ⟨hnone, hanswer⟩
    · rintro (hlast | ⟨-, hanswer⟩)
      · cases hlast
      · exact hanswer
  | some b =>
    obtain ⟨earlier, change, later, rfl, hchange, -⟩ := isLast_iff.mpr hlast
    constructor
    · exact fun hanswer => .inl (congrArg some hanswer)
    · rintro (hb | ⟨hnone, -⟩)
      · exact Option.some.inj hb
      · rw [hnone change (List.mem_append_right _ List.mem_cons_self)] at hchange
        cases hchange

theorem onOutcome_eq_some_iff :
    change.onOutcome top = some (some outcome) ↔ change = .remember top outcome := by
  cases change <;> simp [Change.onOutcome]

theorem onOutcome_eq_none_iff : change.onOutcome top = none ↔
    (∀ outcome, change ≠ .remember top outcome) ∧ (∀ id block, change ≠ .insert id block) ∧
      change ≠ .forget := by
  cases change <;> simp [Change.onOutcome]

theorem onBlock_eq_some_iff :
    change.onBlock id = some (some block) ↔ change = .insert id block := by
  cases change <;> simp [Change.onBlock]

theorem onBlock_eq_none_iff :
    change.onBlock id = none ↔ ∀ block, change ≠ .insert id block := by
  cases change <;> simp [Change.onBlock]

/-- No outcome is known to a container when it is made. -/
theorem outcome?_of_made (h : c.IsMade) (top : String) : c.outcome? top = none := by
  obtain ⟨made, forceNoGlow, rfl, rfl | ⟨text, hread⟩⟩ := h
  · rfl
  · obtain ⟨_, entries, _, _, rfl⟩ := ofText_eq_ok_iff.mp hread
    exact outcome?_insertAll entries top

theorem isKnown_iff :
    IsKnown changes top outcome ↔ IsLast (Change.onOutcome top) changes (some outcome) := by
  constructor
  · rintro ⟨earlier, later, rfl, hremember, hinsert, hforget⟩
    refine ⟨earlier, _, later, rfl, onOutcome_eq_some_iff.mpr rfl, fun other hother => ?_⟩
    exact onOutcome_eq_none_iff.mpr ⟨fun outcome h => hremember outcome (h ▸ hother),
      fun id block h => hinsert id block (h ▸ hother), fun h => hforget (h ▸ hother)⟩
  · rintro ⟨earlier, change, later, rfl, hchange, hlater⟩
    obtain rfl := onOutcome_eq_some_iff.mp hchange
    refine ⟨earlier, later, rfl, fun other h => ?_, fun id block h => ?_, fun h => ?_⟩
    · exact (onOutcome_eq_none_iff.mp (hlater _ h)).1 other rfl
    · exact (onOutcome_eq_none_iff.mp (hlater _ h)).2.1 id block rfl
    · exact (onOutcome_eq_none_iff.mp (hlater _ h)).2.2 rfl

/-- No change of a list has to do with the block with an id. -/
theorem unplaced_iff : (∀ other, .insert id other ∉ changes) ↔
    ∀ change ∈ changes, change.onBlock id = none := by
  constructor
  · exact fun h change hchange => onBlock_eq_none_iff.mpr fun block heq => h block (heq ▸ hchange)
  · exact fun h other hother => onBlock_eq_none_iff.mp (h _ hother) other rfl

theorem isPlaced_iff :
    IsPlaced changes id block ↔ IsLast (Change.onBlock id) changes (some block) := by
  constructor
  · rintro ⟨earlier, later, rfl, hlater⟩
    exact ⟨earlier, _, later, rfl, onBlock_eq_some_iff.mpr rfl, unplaced_iff.mp hlater⟩
  · rintro ⟨earlier, change, later, rfl, hchange, hlater⟩
    obtain rfl := onBlock_eq_some_iff.mp hchange
    exact ⟨earlier, later, rfl, unplaced_iff.mpr hlater⟩

/-- What changes tell is what a container answers that has gone through them. -/
theorem isTold_after (h : c.IsMade) (changes : List Change) :
    (c.after changes).IsTold c changes where
  outcome?_iff top outcome := by
    -- an outcome that no change has touched would have been there from the beginning
    have hmade : c.outcome? top ≠ some outcome := by
      rw [outcome?_of_made h]
      exact nofun
    rw [isKnown_iff]
    refine (answer_after_iff (fun c => c.outcome? top) (outcome?_apply top)).trans (or_iff_left ?_)
    exact fun hold => hmade hold.2
  block?_iff id block := by
    rw [isPlaced_iff, unplaced_iff]
    exact answer_after_iff (fun c => c.block? id) (block?_apply id)

end Container

/-! ## Runs -/

/-- What a command does to a container. -/
def Command.changes (place : ContainerId) : Command → List Container.Change
  | .insertBlock container id block => if container = place then [.insert id block] else []
  | .remember container top known => if container = place then [.remember top known] else []
  | .forget container => if container = place then [.forget] else []
  | _ => []

/-- What is done to a container while something happens to a thread: what a compiler answers is
remembered, unless the thread was started by a click. -/
def Moment.changes (place : ContainerId) (x : Moment) : List Container.Change :=
  if x.machine.state.stackClick = false ∧ x.place = place then
    x.answers.map (.remember x.machine.thread.top)
  else []

/-- What is done to a container when something happens. -/
def Deed.changes (place : ContainerId) : Deed → List Container.Change
  | .of _ x => x.changes place
  | .order _ command => command.changes place
  | .clock _ _ => []

namespace GraphChangesLemmas

open ChronicleLemmas SharedOutcomesLemmas

variable {place : ContainerId} {h h' : Host}

/-- A compilation that calls a compiler has its answer remembered. -/
theorem container_moment {x : Moment} {s t : List Coroutine} (hx : x.Happens s t) :
    x.after.host.container place =
      (x.machine.host.container place).after (x.changes place) := by
  rcases moment_host_cases hx with hq | ⟨compiler, -, hafter⟩
  · have hchanges : x.changes place = [] := by
      rw [Moment.changes, answers_of_quiet hq, List.map_nil, ite_self]
    rw [hchanges, container_of_containers (containers_of_quiet hq)]
    rfl
  · have hcontainers := containers_compileAfresh compiler x.machine.tried
    have hclicked : x.machine.tried.state.stackClick = x.machine.state.stackClick := rfl
    rw [Moment.changes, answers_of_compileAfresh hafter, hafter]
    rw [hclicked] at hcontainers
    cases hclick : x.machine.state.stackClick with
    | true =>
      -- the answer is for the clicked thread alone
      rw [hclick, if_pos rfl] at hcontainers
      rw [container_of_containers hcontainers]
      rfl
    | false =>
      rw [hclick, if_neg Bool.false_ne_true] at hcontainers
      rw [container_of_containers hcontainers, container_editContainer]
      have hplace : x.machine.tried.host.outcomePlace x.machine.tried.thread = x.place := rfl
      rw [hplace]
      by_cases hat : x.place = place
      · rw [if_pos hat, if_pos ⟨rfl, hat⟩, hat]
        rfl
      · rw [if_neg hat, if_neg fun h => hat h.2]
        rfl

/-- A command that no thread carries out changes a container as it says. -/
theorem container_order {w : World} {command : Command} (hactor : command.actor? = none) :
    (Deed.order w command).hostAfter.container place =
      (w.host.container place).after (command.changes place) := by
  cases hcontainer : command.changesContainer with
  | false =>
    have hchanges : command.changes place = [] := by
      cases command <;> first | rfl | cases hcontainer
    have hserves : w.host.Serves (Deed.order w command).hostAfter :=
      World.serves_order hactor hcontainer
    rw [hchanges, container_of_containers (containers_of_quiet hserves.quiet)]
    rfl
  | true =>
    cases command with
    | insertBlock container | remember container | forget container =>
      rw [hostAfter_of_perform rfl, Command.changes]
      refine (container_editContainer container place _ _).trans ?_
      by_cases hat : container = place
      · rw [if_pos hat, if_pos hat, hat]
        rfl
      · rw [if_neg hat, if_neg hat]
        rfl
    | _ => cases hcontainer

theorem container_deed {d : Deed} (hd : d.Joins h h') :
    h'.container place = (h.container place).after (d.changes place) := by
  obtain ⟨rfl, rfl, hjoin⟩ := hd
  cases d with
  | of thread x =>
    obtain ⟨_, _, hx⟩ := hjoin
    exact container_moment hx
  | order w command => exact container_order hjoin
  | clock w time => rfl

/-- In a run a container goes through the changes that happen, one after the other. -/
theorem container_path {deeds : List Deed} (hpath : Path Deed.Joins h deeds h') :
    h'.container place = (h.container place).after (deeds.flatMap (Deed.changes place)) := by
  induction hpath with
  | nil => rfl
  | cons hd _ ih => rw [ih, container_deed hd, List.flatMap_cons, Container.after_append]

end GraphChangesLemmas

open GraphChangesLemmas

/-- A container that is empty or has been read when a run of the world begins. At every point
of the run, and in the end, it answers what the changes tell that have been made to it: the
outcome that was remembered last since the graph changed or the outcomes were forgotten, and
the block that was inserted last. The same holds of any container that goes through any
changes. And what has to do with outcomes only may as well not have been done, for the blocks;
so may what was remembered of another script, for the outcome of a script. -/
theorem World.outcomes_since_changes {depth : Nat} {w : World} {tasks : List Task}
    {place : ContainerId} (hmade : (w.host.container place).IsMade) :
    (∀ before d later, w.chronicle depth tasks = before ++ d :: later →
      (d.host.container place).IsTold (w.host.container place)
        (before.flatMap (Deed.changes place))) ∧
    (∀ replies w', w.run depth tasks = some (replies, w') →
      (w'.host.container place).IsTold (w.host.container place)
        ((w.chronicle depth tasks).flatMap (Deed.changes place))) ∧
    (∀ (c : Container) changes, c.IsMade → (c.after changes).IsTold c changes) ∧
    ∀ (c : Container) earlier later,
      (∀ change id, (∀ other block, change ≠ .insert other block) →
        (c.after (earlier ++ change :: later)).block? id =
          (c.after (earlier ++ later)).block? id) ∧
      ∀ other known top, other ≠ top →
        (c.after (earlier ++ .remember other known :: later)).outcome? top =
          (c.after (earlier ++ later)).outcome? top := by
  obtain ⟨h, hpath, hend⟩ := World.chronicle_path depth w tasks
  refine ⟨fun before d later heq => ?_, fun replies w' hrun => ?_,
    fun c changes hc => Container.isTold_after hc changes, fun c earlier later =>
      ⟨fun change id hchange => ?_, fun other known top hne => ?_⟩⟩
  · rw [heq] at hpath
    obtain ⟨g, hbefore, hrest⟩ := hpath.split
    cases hrest with
    | cons hd _ =>
      rw [hd.1, container_path hbefore]
      exact Container.isTold_after hmade _
  · rw [← hend replies w' hrun, container_path hpath]
    exact Container.isTold_after hmade _
  · exact Container.answer_without (fun c => c.block? id) (Container.block?_apply id)
      (Container.onBlock_eq_none_iff.mpr (hchange id)) earlier later c
  · have hnone : (Container.Change.remember other known).onOutcome top = none := if_neg hne
    exact Container.answer_without (fun c => c.outcome? top) (Container.outcome?_apply top)
      hnone earlier later c

/-! ## A block that gives way to one that is the same -/

/-- A script cannot be compiled. Then a block of it is inserted once more. -/
def exReinsertion : List Task :=
  [⟨0, .act "a" (.compile "c")⟩, ⟨1, .insertBlock (some "main") "hat" { opcode := "hat" }⟩]

/-- The error is known until the block is inserted. -/
theorem outcomes_since_changes_reinsertion :
    (∃ before d later, exUncompilable.chronicle 1 exReinsertion = before ++ d :: later ∧
      Container.IsKnown (before.flatMap (Deed.changes (some "main"))) "hat"
        (.error (.unsupported "hat"))) ∧
    ∀ known, ¬ Container.IsKnown
      ((exUncompilable.chronicle 1 exReinsertion).flatMap (Deed.changes (some "main"))) "hat"
        known := by
  have hmade : (exUncompilable.host.container (some "main")).IsMade := by
    refine ⟨exUncompilable.host.container (some "main"), false, rfl, .inr
      ⟨"\x7b\"hat\":[\"hat\"]\x7d", ?_⟩⟩
    refine Container.ofText_eq_ok_iff.mpr ⟨[(some "hat", .list [.text (some "hat")] .closed)],
      [("hat", { opcode := "hat" })], Json.Draft.spelled_iff.mpr ⟨rfl, by decide +kernel⟩, ?_, rfl⟩
    exact .cons ⟨rfl, by decide +kernel⟩ .nil
  have htold := @World.outcomes_since_changes 1 exUncompilable exReinsertion (some "main") hmade
  refine ⟨⟨[_, _], _, [_], rfl, ?_⟩, fun known hknown => ?_⟩
  · exact ((htold.1 [_, _] _ [_] rfl).outcome?_iff _ _).mp rfl
  · cases ((htold.2.1 _ _ rfl).outcome?_iff _ _).mpr hknown

end BlockThreads
