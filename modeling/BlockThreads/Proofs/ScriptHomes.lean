import BlockThreads.Proofs.SharedOutcomes

/-!
# Where scripts are at home

Two threads may start from blocks with the same id and still run different scripts, since
each looks the id up for itself: in its own container, then in that of its target, then in
the palette. The first container that has the block is the home of its script.

An outcome is remembered at the home of the script, with one exception. If only the target
has the block, the script is at home with the target, and yet its outcome is remembered with
the palette. Such a thread takes a detour. It shares outcomes with all threads whose script
of that id is looked for in the palette, and gets what was compiled from another block.

Results:
1. `block?_eq_home`: the block that a thread means by an id is the one at its home.
2. `shared_at_home`: every outcome that a thread takes over was written by the compilation of
   another thread. Their scripts have the same home exactly if both take the same detour or
   none, and then they start from the same block.
3. `detours_share`: two threads of different targets, each on a detour of its own, share an
   outcome.
-/

namespace BlockThreads

/-! ## Homes -/

/-- The home of a block that a thread mentions: the first of its own container, that of its
target and the palette that has a block with the id. -/
def Host.home? (h : Host) (t : Thread) (id : String) : Option ContainerId :=
  [t.container, t.target.container, h.palette].find? fun c => ((h.container c).block? id).isSome

/-- The block that a thread means by an id is the one at its home. -/
theorem Host.block?_eq_home (h : Host) (t : Thread) (id : String) :
    h.block? t id = (h.home? t id).bind fun c => (h.container c).block? id := by
  unfold Host.block? Host.home?
  simp only [List.find?_cons, List.find?_nil]
  cases hown : (h.container t.container).block? id with
  | some block => simp [hown]
  | none =>
    cases htarget : (h.container t.target.container).block? id with
    | some block => simp [htarget]
    | none => cases hpalette : (h.container h.palette).block? id <;> simp [hpalette]

theorem Host.block?_eq_some_iff {h : Host} {t : Thread} {id : String} {block : Block} :
    h.block? t id = some block ↔
      ∃ place, h.home? t id = some place ∧ (h.container place).block? id = some block := by
  rw [Host.block?_eq_home, Option.bind_eq_some_iff]

namespace Moment

/-- The home of the script of the thread. -/
def home? (x : Moment) : Option ContainerId :=
  x.machine.host.home? x.machine.thread x.machine.thread.top

/-- The block that the script of the thread starts from. -/
def topBlock? (x : Moment) : Option Block := x.machine.block? x.machine.thread.top

/-- Whether a container has a block with the id that the script of the thread starts from. -/
def findsTop (x : Moment) (c : ContainerId) : Bool :=
  ((x.machine.host.container c).block? x.machine.thread.top).isSome

/-- The container of the target, if the script is at home there and its outcome is remembered
elsewhere. -/
def detour? (x : Moment) : Option ContainerId :=
  if x.findsTop x.machine.thread.container = false ∧
      x.findsTop x.machine.thread.target.container ∧ x.machine.thread.target.container ≠ x.place
  then some x.machine.thread.target.container
  else none

end Moment

namespace ScriptHomesLemmas

open SharedOutcomesLemmas

variable {h h' : Host} {x y : Moment} {place : ContainerId} {top : String} {outcome : Outcome}

/-! ## Homes and detours -/

theorem detour_ne_place (x : Moment) : x.detour? ≠ some x.place := by
  unfold Moment.detour?
  split
  · next hdetour => exact fun heq => hdetour.2.2 (Option.some.inj heq)
  · exact fun heq => nomatch heq

/-- Without a detour the home of a script is where its outcome is remembered, if the block is
anywhere. -/
theorem home_eq (x : Moment) :
    x.home? = x.detour?.or (if x.findsTop x.place then some x.place else none) := by
  have hfind : x.home? =
      [x.machine.thread.container, x.machine.thread.target.container,
        x.machine.host.palette].find? x.findsTop := rfl
  have hplace : x.place =
      if x.findsTop x.machine.thread.container then x.machine.thread.container
      else x.machine.host.palette := rfl
  rw [hfind, Moment.detour?]
  simp only [List.find?_cons, List.find?_nil]
  cases hown : x.findsTop x.machine.thread.container with
  | true =>
    rw [hown, if_pos rfl] at hplace
    simp [hplace, hown]
  | false =>
    rw [hown, if_neg Bool.false_ne_true] at hplace
    cases htarget : x.findsTop x.machine.thread.target.container with
    | false => cases hpalette : x.findsTop x.machine.host.palette <;> simp [hplace, hpalette]
    | true =>
      by_cases hsame : x.machine.thread.target.container = x.place
      · simp [hsame, hsame ▸ htarget]
      · simp [hsame]

theorem home_cases {c : ContainerId} (h : x.home? = some c) :
    x.detour? = some c ∨ c = x.place := by
  rw [home_eq] at h
  cases hdetour : x.detour? with
  | some c' =>
    rw [hdetour] at h
    exact .inl h
  | none =>
    rw [hdetour, Option.none_or] at h
    split at h
    · exact .inr (Option.some.inj h).symm
    · cases h

theorem topBlock_eq (x : Moment) :
    x.topBlock? =
      x.home?.bind fun c => (x.machine.host.container c).block? x.machine.thread.top :=
  x.machine.host.block?_eq_home x.machine.thread x.machine.thread.top

theorem or_eq_or_iff {α : Type} {a b : Option α} {c : α} (found : Bool) (ha : a ≠ some c)
    (hb : b ≠ some c) :
    a.or (if found then some c else none) = b.or (if found then some c else none) ↔ a = b := by
  cases a with
  | none =>
    cases b with
    | none => exact iff_of_true rfl rfl
    | some b =>
      cases found with
      | false => exact Iff.rfl
      | true => exact ⟨fun h => absurd h.symm hb, fun h => nomatch h⟩
  | some a =>
    cases b with
    | none =>
      cases found with
      | false => exact Iff.rfl
      | true => exact ⟨fun h => absurd h ha, fun h => nomatch h⟩
    | some b => exact Iff.rfl

/-- Two scripts whose outcomes are remembered at the same place, where the block is for both
or for neither, have the same home exactly if both take the same detour or none. -/
theorem home_eq_iff (hplace : x.place = y.place)
    (hfinds : x.findsTop x.place = y.findsTop y.place) :
    x.home? = y.home? ↔ x.detour? = y.detour? := by
  rw [home_eq x, home_eq y, hfinds, hplace]
  exact or_eq_or_iff _ (hplace ▸ detour_ne_place x) (detour_ne_place y)

/-! ## What is remembered -/

/-- When a container is reset, all its outcomes are forgotten. -/
theorem forgets_of_resets {w : World} {command : Command}
    (h : command.resets? = some place) (top : String) :
    ((Deed.order w command).hostAfter.container place).outcome? top = none := by
  cases command with
  | insertBlock container id block =>
    obtain rfl := Option.some.inj h
    show ((w.host.editContainer _ _).container _).outcome? top = none
    rw [container_editContainer, if_pos rfl, Container.outcome?_insert]
  | forget container =>
    obtain rfl := Option.some.inj h
    show ((w.host.editContainer _ _).container _).outcome? top = none
    rw [container_editContainer, if_pos rfl, Container.outcome?_forget]
  | _ => cases h

/-- What is remembered after something has happened to a thread was remembered before, or it
is the outcome of a compilation that has just been made. -/
theorem remembered_moment {s t : List Coroutine} (hx : x.Happens s t)
    (hout : (x.after.host.container place).outcome? top = some outcome) :
    (x.machine.host.container place).outcome? top = some outcome ∨
      x.IsRequest ∧ outcome ∈ x.answers ∧ x.place = place ∧ x.machine.thread.top = top := by
  have hquiet : x.machine.host.Quiet x.after.host →
      (x.machine.host.container place).outcome? top = some outcome := fun hq => by
    rw [← container_of_containers (containers_of_quiet hq), hout]
  cases hcompile : x.move.compiles with
  | false => exact .inl (hquiet (hx.quiet hcompile))
  | true =>
    obtain ⟨m, move⟩ := x
    obtain ⟨compiler, rfl⟩ := Move.eq_compile hcompile
    cases htried : m.state.triedToCompile with
    | true =>
      have hstill : Moment.after ⟨m, .act (.compile compiler)⟩ = m :=
        Machine.compile_of_tried compiler htried
      rw [hstill] at hout
      exact .inl hout
    | false =>
      rcases compile_host_cases compiler m with hq | ⟨_, heq⟩
      · exact .inl (hquiet hq)
      · have hafter : (Moment.after ⟨m, .act (.compile compiler)⟩).host.containers =
            (m.tried.compileAfresh compiler).host.containers :=
          congrArg (fun n => n.host.containers) heq
        rw [containers_compileAfresh] at hafter
        cases hclick : m.state.stackClick with
        | true =>
          have hclick' : m.tried.state.stackClick = true := hclick
          rw [hclick', if_pos rfl] at hafter
          rw [container_of_containers hafter] at hout
          exact .inl hout
        | false =>
          have hclick' : m.tried.state.stackClick = false := hclick
          rw [hclick', if_neg Bool.false_ne_true] at hafter
          rw [container_of_containers hafter, container_editContainer] at hout
          split at hout
          · next hplace =>
            rw [Container.outcome?_remember] at hout
            split at hout
            · next htop =>
              refine .inr ⟨⟨⟨compiler, rfl⟩, htried, hclick⟩, ?_, hplace, htop⟩
              rw [answers_of_fresh heq]
              exact List.mem_singleton.mpr (Option.some.inj hout).symm
            · rw [hplace] at hout
              exact .inl hout
          · exact .inl hout

/-- What is remembered after something has happened was remembered before and not reset, or
it is the outcome of a compilation that has just been made. -/
theorem remembered_before {d : Deed} (hd : d.Joins h h') (hremember : d.isRemember = false)
    (hout : (h'.container place).outcome? top = some outcome) :
    ((h.container place).outcome? top = some outcome ∧ d.resets place = false) ∨
      ∃ a x, d = .of a x ∧ x.IsRequest ∧ outcome ∈ x.answers ∧ x.place = place ∧
        x.machine.thread.top = top := by
  obtain ⟨rfl, rfl, hjoin⟩ := hd
  cases d with
  | of a x =>
    obtain ⟨_, _, hx⟩ := hjoin
    rcases remembered_moment hx hout with hbefore | hrequest
    · exact .inl ⟨hbefore, rfl⟩
    · exact .inr ⟨a, x, rfl, hrequest⟩
  | order w command =>
    left
    by_cases hresets : command.resets? = some place
    · rw [forgets_of_resets hresets] at hout
      cases hout
    · have hno : (Deed.order w command).resets place = false := beq_eq_false_iff_ne.mpr hresets
      refine ⟨?_, hno⟩
      rcases order_cases hjoin hremember with hq | ⟨container, edit, hcommand, heq⟩
      · rw [container_of_containers (containers_of_quiet hq)] at hout
        exact hout
      · rw [hcommand] at hresets
        rw [heq, container_editContainer, if_neg fun h => hresets (congrArg some h)] at hout
        exact hout
  | clock w time => exact .inl ⟨hout, rfl⟩

/-- What is remembered was remembered from the start and never reset, or it was written by a
compilation and not reset since. -/
theorem writer_path {deeds : List Deed} (hpath : Path Deed.Joins h deeds h')
    (hremember : ∀ d ∈ deeds, d.isRemember = false)
    (hout : (h'.container place).outcome? top = some outcome) :
    (h.container place).outcome? top = some outcome ∨
      ∃ first a x between, deeds = first ++ Deed.of a x :: between ∧ x.IsRequest ∧
        outcome ∈ x.answers ∧ x.place = place ∧ x.machine.thread.top = top ∧
        ∀ d ∈ between, d.resets place = false := by
  have hwriter : ((h.container place).outcome? top = some outcome ∧
        ∀ d ∈ deeds, d.resets place = false) ∨
      ∃ first a x between, deeds = first ++ Deed.of a x :: between ∧ x.IsRequest ∧
        outcome ∈ x.answers ∧ x.place = place ∧ x.machine.thread.top = top ∧
        ∀ d ∈ between, d.resets place = false := by
    induction hpath with
    | nil => exact .inl ⟨hout, fun d hd => absurd hd List.not_mem_nil⟩
    | @cons h g h' d deeds hd _ ih =>
      rcases ih (fun d' hd' => hremember d' (List.mem_cons_of_mem _ hd')) hout with
        ⟨hg, hkept⟩ | ⟨first, a, x, between, heq, hx⟩
      · -- the outcome was there after the first deed
        rcases remembered_before hd (hremember d List.mem_cons_self) hg with
          ⟨hbefore, hreset⟩ | ⟨a, x, rfl, hrequest, hanswer, hplace, htop⟩
        · exact .inl ⟨hbefore, List.forall_mem_cons.mpr ⟨hreset, hkept⟩⟩
        · exact .inr ⟨[], a, x, deeds, rfl, hrequest, hanswer, hplace, htop, hkept⟩
      · exact .inr ⟨d :: first, a, x, between, by rw [heq, List.cons_append], hx⟩
  exact hwriter.imp_left And.left

/-! ## Blocks -/

/-- Whatever happens to a thread, it does not change a block. -/
theorem block_moment {s t : List Coroutine} (hx : x.Happens s t) (place : ContainerId)
    (id : String) :
    (x.after.host.container place).block? id = (x.machine.host.container place).block? id := by
  rcases moment_host_cases hx with hq | ⟨compiler, _, heq⟩
  · rw [container_of_containers (containers_of_quiet hq)]
  · have hafter : x.after.host.containers =
        (x.machine.tried.compileAfresh compiler).host.containers :=
      congrArg (fun n => n.host.containers) heq
    rw [containers_compileAfresh] at hafter
    split at hafter
    · rw [container_of_containers hafter]
      rfl
    · rw [container_of_containers hafter, container_editContainer]
      split
      · next hplace =>
        rw [Container.block?_remember, hplace]
        rfl
      · rfl

/-- The blocks of a container stay until it is reset. -/
theorem block_deed {d : Deed} (hd : d.Joins h h') (hremember : d.isRemember = false)
    (hreset : d.resets place = false) (id : String) :
    (h'.container place).block? id = (h.container place).block? id := by
  obtain ⟨rfl, rfl, hjoin⟩ := hd
  cases d with
  | of a x =>
    obtain ⟨_, _, hx⟩ := hjoin
    exact block_moment hx place id
  | order w command =>
    rcases order_cases hjoin hremember with hq | ⟨container, edit, hcommand, heq⟩
    · rw [container_of_containers (containers_of_quiet hq)]
      rfl
    · have hne : container ≠ place := by simpa [Deed.resets, hcommand] using hreset
      rw [heq, container_editContainer, if_neg hne]
      rfl
  | clock w time => rfl

/-- The blocks of a container stay along a path that does not reset it. -/
theorem block_path {deeds : List Deed} (hpath : Path Deed.Joins h deeds h')
    (hremember : ∀ d ∈ deeds, d.isRemember = false)
    (hreset : ∀ d ∈ deeds, d.resets place = false) (id : String) :
    (h'.container place).block? id = (h.container place).block? id :=
  hpath.keeps (P := fun g => (g.container place).block? id = (h.container place).block? id)
    (fun d hd _ _ hjoin hg => (block_deed hjoin (hremember d hd) (hreset d hd) id).trans hg) rfl

end ScriptHomesLemmas

open ScriptHomesLemmas SharedOutcomesLemmas

namespace World

/-- In a run in which no outcome is remembered at first and compilations alone write them.
Whenever a thread that was not started by a click is asked to be compiled for the first time
and an outcome is remembered for its script, it calls no compiler and follows that outcome.
The outcome is the answer that an earlier request got, for a script of the same id. Both
scripts have the same home exactly if both threads take the same detour or none; and if they
have, they start from the same block, unless the container of the detour was changed in
between. -/
theorem shared_at_home {depth : Nat} {w : World} {tasks : List Task}
    {before later : List Deed} {b : String} {y : Moment} {outcome : Outcome}
    (hempty : ∀ place top, (w.host.container place).outcome? top = none)
    (hremember : ∀ task ∈ tasks, task.command.isRemember = false)
    (hrun : w.chronicle depth tasks = before ++ Deed.of b y :: later) (hy : y.IsRequest)
    (hout : (y.machine.host.container y.place).outcome? y.machine.thread.top = some outcome) :
    y.answers = [] ∧ y.after = y.machine.follow outcome ∧
      ∃ first a x between, before = first ++ Deed.of a x :: between ∧ x.IsRequest ∧
        outcome ∈ x.answers ∧ x.place = y.place ∧
        x.machine.thread.top = y.machine.thread.top ∧
        (x.home? = y.home? ↔ x.detour? = y.detour?) ∧
        (x.home? = y.home? →
          (∀ c, x.detour? = some c → ∀ d ∈ between, d.resets c = false) →
          x.topBlock? = y.topBlock?) := by
  obtain ⟨hanswers, hafter⟩ := follow_request hy hout
  refine ⟨hanswers, hafter, ?_⟩
  obtain ⟨h, hpath, _⟩ := chronicle_path depth w tasks
  have hwrites := isRemember_chronicle depth w hremember
  rw [hrun] at hpath hwrites
  obtain ⟨g, hbefore, hrest⟩ := hpath.split
  cases hrest with
  | cons hyd _ =>
  obtain rfl : y.machine.host = g := hyd.1
  rcases writer_path hbefore (fun d hd => hwrites d (List.mem_append_left _ hd)) hout with
    hstart | ⟨first, a, x, between, rfl, hx, hanswer, hplace, htop, hkept⟩
  · rw [hempty] at hstart
    cases hstart
  · obtain ⟨g, _, hbetween⟩ := hbefore.split
    have hwrites' : ∀ d ∈ Deed.of a x :: between, d.isRemember = false := fun d hd =>
      hwrites d (List.mem_append_left _ (List.mem_append_right _ hd))
    have hsame : ∀ c, (∀ d ∈ between, d.resets c = false) → ∀ id,
        (y.machine.host.container c).block? id = (x.machine.host.container c).block? id := by
      intro c hc id
      obtain rfl : x.machine.host = g := by
        cases hbetween with
        | cons hxd _ => exact hxd.1
      exact block_path hbetween hwrites' (List.forall_mem_cons.mpr ⟨rfl, hc⟩) id
    have hfinds : x.findsTop x.place = y.findsTop y.place := by
      rw [Moment.findsTop, Moment.findsTop, hplace, htop, hsame y.place hkept]
    refine ⟨first, a, x, between, rfl, hx, hanswer, hplace, htop, home_eq_iff hplace hfinds, ?_⟩
    intro hhome hdetour
    rw [topBlock_eq x, topBlock_eq y, ← hhome]
    cases hc : x.home? with
    | none => rfl
    | some c =>
      have hstays : ∀ d ∈ between, d.resets c = false := by
        rcases home_cases hc with hdetours | rfl
        · exact hdetour c hdetours
        · exact hplace ▸ hkept
      rw [Option.bind_some, Option.bind_some, htop, hsame c hstays]

end World

/-! ## Two sprites with a script of the same id -/

/-- Two sprites, each with a block `x` of its own, and a thread of each of them that starts
from `x` and runs the blocks of `container`. -/
def exNamesakes (container : ContainerId) : World :=
  let first : Target := { id := "sprite1", name := "Sprite1", container := some "main1" }
  let second : Target := { id := "sprite2", name := "Sprite2", container := some "main2" }
  { host :=
      { containers := .ofList
          [(some "main1", { blocks := .ofList [("x", { opcode := "event_whenflagclicked" })] }),
            (some "main2", { blocks := .ofList [("x", { opcode := "event_whenkeypressed" })] })]
        compilers := .ofList [("c", .scripted [.ok {}])] }
    threads := .ofList
      [("a", { top := "x", target := first, container, pool := "pool" }),
        ("b", { top := "x", target := second, container, pool := "pool" })] }

/-- Both threads are asked to be compiled. -/
def exNamesakesCompiled : List Task :=
  [⟨0, .act "a" (.compile "c")⟩, ⟨1, .act "b" (.compile "c")⟩]

theorem outcome?_exNamesakes (container place : ContainerId) (top : String) :
    ((exNamesakes container).host.container place).outcome? top = none := by
  show (((Table.ofList _).get? place).getD Container.empty).outcome? top = none
  rw [Table.get?_ofList]
  simp only [List.reverse_cons, List.reverse_nil, List.nil_append, List.cons_append, Table.lookup]
  split
  · rfl
  · split <;> rfl

/-- If both threads run the blocks of the first sprite, the second follows what was compiled
from the block that it starts from itself. -/
theorem shared_at_home_twice :
    ∃ before y outcome, (exNamesakes (some "main1")).chronicle 1 exNamesakesCompiled =
        before ++ [Deed.of "b" y] ∧ y.answers = [] ∧ y.after = y.machine.follow outcome ∧
      ∃ first a x between, before = first ++ Deed.of a x :: between ∧ x.IsRequest ∧
        outcome ∈ x.answers ∧ x.place = y.place ∧ (x.home? = y.home? ↔ x.detour? = y.detour?) := by
  have h := @World.shared_at_home 1 (exNamesakes (some "main1")) exNamesakesCompiled
    [_, _, _] [] "b" _ _ (outcome?_exNamesakes _) (by decide) rfl ⟨⟨"c", rfl⟩, rfl, rfl⟩ rfl
  obtain ⟨hanswers, hafter, first, a, x, between, hbefore, hx, hanswer, hplace, -, hhome, -⟩ := h
  exact ⟨_, _, _, rfl, hanswers, hafter, first, a, x, between, hbefore, hx, hanswer, hplace, hhome⟩

/-- If both threads run blocks that do not have `x`, each of them finds it with its own
sprite; and yet, although no outcome was remembered at first, the second follows what was
compiled from the block of the first. -/
theorem detours_share :
    (∀ place top, ((exNamesakes (some "other")).host.container place).outcome? top = none) ∧
    ∃ before x between y outcome, (exNamesakes (some "other")).chronicle 1 exNamesakesCompiled =
        before ++ Deed.of "a" x :: (between ++ [Deed.of "b" y]) ∧
      x.IsRequest ∧ y.IsRequest ∧ x.answers = [outcome] ∧ y.answers = [] ∧
      y.after = y.machine.follow outcome ∧ x.home? = some (some "main1") ∧
      y.home? = some (some "main2") ∧ x.topBlock? ≠ y.topBlock? :=
  ⟨outcome?_exNamesakes _, [_], _, [_], _, _, rfl, ⟨⟨"c", rfl⟩, rfl, rfl⟩,
    ⟨⟨"c", rfl⟩, rfl, rfl⟩, rfl, rfl, rfl, rfl, rfl, by decide⟩

end BlockThreads
