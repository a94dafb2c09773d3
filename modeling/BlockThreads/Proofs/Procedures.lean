import BlockThreads.Proofs.FirstRequests

/-!
# The procedures of a thread

A script declares its procedures by factories, in no particular order. When it is attached
to a thread, every factory is shown the thread without procedures and makes one for it, and
then the script is started on the thread with all of them. So no factory can tell which
others were asked before it, and the order does not show in the thread. From then on the
thread has these procedures, and nothing that happens to it takes them away or adds another.

Results:
1. `get?_of_perm`: a table that lists the same entries in another order answers the same.
2. `attach_reorders`: a script attached in another order makes the same thread.
3. `Moment.Happens.moves`: whatever happens to a thread, unless it is compiled, leaves all
   but its open part and its coroutine alone.
4. `procedures_of_script`: before its script is attached a thread has no procedures, and
   afterwards those that the factories of the script have made for it.
-/

namespace BlockThreads

/-- The procedure that a script has for a thread, by its code. -/
def Script.procedureFor? (script : Script) (t : Thread) (code : String) : Option Procedure :=
  (script.factories.get? code).map fun factory => factory t

/-- Whether an event tells that a factory is called or that a script is started. -/
def Event.isOfAttachment : Event → Bool
  | .factory _ _ => true
  | .start _ => true
  | _ => false

/-- A thread has the procedures that the factories of a script have made for a thread, and no
others. -/
def Thread.HasProceduresOf (t : Thread) (script : Script) (owner : Thread) : Prop :=
  ∀ code, t.procedure? code = script.procedureFor? owner code

/-- Two threads differ in nothing but the order in which their procedures are listed, which
no one can see. -/
def Thread.Alike (t t' : Thread) : Prop :=
  (∀ code, t'.procedure? code = t.procedure? code) ∧ t' = { t with procedures := t'.procedures }

/-- Another script lists the same factories in another order. -/
structure Script.Reorders (script script' : Script) : Prop where
  entries : script'.factories.entries.Perm script.factories.entries
  start : script'.start = script.start
  executableHat : script'.executableHat = script.executableHat

/-- Who starts a script finds the procedures of the thread by their codes alone. -/
def Script.StartsByCode (script : Script) : Prop :=
  ∀ t t' : Thread, t.Alike t' → script.start t' = script.start t

/-- A thread comes to another by something that leaves all but the open part and the
coroutine alone. -/
def Thread.Moves (t t' : Thread) : Prop :=
  ∃ (s : ThreadState) (coroutine : Option Coroutine),
    t' = { t with toThreadState := s, coroutine }

namespace Moment

/-- The script that is attached to the thread, if it is asked to be compiled for the first
time, and comes to a script. -/
def attached? (x : Moment) : Option Script :=
  match x.move with
  | .act (.compile compiler) =>
    if x.machine.state.triedToCompile then none else (x.machine.outcome compiler).toOption
  | _ => none

/-- A script is attached to the thread as a whole. -/
structure Attaches (x : Moment) (script : Script) : Prop where
  /-- Every factory is called, and then the script is started. -/
  calls : (Host.eventsSince x.machine.host x.after.host).filter Event.isOfAttachment =
    (script.factories.keys.map fun code => .factory code x.machine.tried.thread) ++
      [.start (x.machine.tried.bindProcedures script).thread]
  /-- No factory is called twice. -/
  nodup : script.factories.keys.Nodup
  /-- The factories see the thread without procedures. -/
  factories_see : ∀ code, x.machine.tried.thread.procedure? code = none
  /-- The script is started on the thread with all procedures. -/
  start_sees : ∀ code, (x.machine.tried.bindProcedures script).thread.procedure? code =
    script.procedureFor? x.machine.tried.thread code
  thread : x.after.thread = (x.machine.tried.attach script).thread
  /-- In another order the script is started on the same thread. -/
  start_any_order : ∀ script', script.Reorders script' →
    (x.machine.tried.bindProcedures script).thread.Alike
      (x.machine.tried.bindProcedures script').thread
  /-- In another order the same comes of it. -/
  any_order : ∀ script', script.Reorders script' → script.StartsByCode →
    x.after.thread.Alike (x.machine.tried.attach script').thread

end Moment

namespace ProceduresLemmas

open ClicksLemmas FirstRequestsLemmas

/-! ## Tables in another order -/

section Tables

variable {κ ν : Type} [DecidableEq κ] {key : κ} {value : ν} {entries : List (κ × ν)}

theorem lookup_eq_some_iff (hnodup : (entries.map Prod.fst).Nodup) :
    Table.lookup key entries = some value ↔ (key, value) ∈ entries := by
  induction entries with
  | nil =>
    constructor
    · intro h
      cases h
    · intro h
      exact absurd h List.not_mem_nil
  | cons entry rest ih =>
    obtain ⟨k, v⟩ := entry
    obtain ⟨hfresh, hrest⟩ := List.nodup_cons.mp hnodup
    rw [Table.lookup, List.mem_cons, Prod.mk.injEq]
    by_cases hk : k = key
    · subst hk
      rw [if_pos rfl]
      constructor
      · intro h
        exact .inl ⟨rfl, (Option.some.inj h).symm⟩
      · rintro (⟨-, rfl⟩ | hmem)
        · rfl
        · exact absurd (List.mem_map_of_mem (f := Prod.fst) hmem) hfresh
    · rw [if_neg hk, ih hrest]
      constructor
      · exact .inr
      · rintro (⟨rfl, -⟩ | hmem)
        · exact absurd rfl hk
        · exact hmem

theorem get?_eq_some_iff {t : Table κ ν} : t.get? key = some value ↔ (key, value) ∈ t.entries :=
  lookup_eq_some_iff t.nodup

/-- A table that lists the same entries in another order answers the same. -/
theorem get?_of_perm {s t : Table κ ν} (h : t.entries.Perm s.entries) (key : κ) :
    t.get? key = s.get? key := by
  apply Option.ext
  intro value
  rw [get?_eq_some_iff, get?_eq_some_iff]
  exact h.mem_iff

end Tables

/-! ## Attaching in another order -/

variable {m n : Machine} {x : Moment} {t t' u : Thread} {script script' : Script}

theorem procedureFor?_reorders (h : script.Reorders script') (t : Thread) (code : String) :
    script'.procedureFor? t code = script.procedureFor? t code := by
  rw [Script.procedureFor?, get?_of_perm h.entries code, Script.procedureFor?]

theorem procedure?_bindProcedures (script : Script) (m : Machine) (code : String) :
    (m.bindProcedures script).thread.procedure? code = script.procedureFor? m.thread code :=
  Table.get?_map (fun (_ : String) (factory : Thread → Procedure) => factory m.thread)
    script.factories code

/-- In whatever order the factories are called, the thread that the script is started on
looks the same. -/
theorem bindProcedures_alike (h : script.Reorders script') (m : Machine) :
    (m.bindProcedures script).thread.Alike (m.bindProcedures script').thread := by
  refine ⟨fun code => ?_, rfl⟩
  rw [procedure?_bindProcedures, procedure?_bindProcedures, procedureFor?_reorders h]

/-- A script attached in another order makes the same thread. -/
theorem attach_reorders (h : script.Reorders script') (hstart : script.StartsByCode)
    (m : Machine) : (m.attach script).thread.Alike (m.attach script').thread := by
  refine ⟨fun code => ?_, ?_⟩
  · rw [Machine.attach_procedure?, Machine.attach_procedure?]
    exact procedureFor?_reorders h m.thread code
  · rw [attach_eq, attach_eq, h.start, h.executableHat,
      hstart _ _ (bindProcedures_alike h m)]

/-! ## The closed part of a thread -/

theorem moves_refl (t : Thread) : t.Moves t := ⟨t.toThreadState, t.coroutine, rfl⟩

theorem moves_trans (h : t.Moves u) (h' : u.Moves t') : t.Moves t' := by
  obtain ⟨_, _, rfl⟩ := h
  obtain ⟨s, coroutine, rfl⟩ := h'
  exact ⟨s, coroutine, rfl⟩

theorem moves_editState (edit : ThreadState → ThreadState) (t : Thread) :
    t.Moves (t.editState edit) :=
  ⟨edit t.toThreadState, t.coroutine, rfl⟩

theorem moves_of_restacks (h : m.Restacks n) : m.thread.Moves n.thread := by
  obtain ⟨stack, frames, _, _, rfl⟩ := h
  exact ⟨{ m.thread.toThreadState with stack, frames }, m.thread.coroutine, rfl⟩

theorem moves_retire (m : Machine) : m.thread.Moves m.retire.thread := by
  obtain ⟨n, h, heq⟩ := m.retire_cases
  rw [heq]
  exact moves_trans (moves_of_restacks h) (moves_editState _ n.thread)

theorem moves_stopScript (m : Machine) : m.thread.Moves m.stopScript.thread := by
  rcases m.stopScript_cases with h | ⟨n, h, heq⟩
  · exact moves_of_restacks h
  · rw [heq]
    exact moves_trans (moves_of_restacks h) (moves_editState _ n.thread)

/-- An action that calls no foreign code and compiles nothing. -/
theorem moves_act {action : Action} (hplain : action.isPlain)
    (hcompile : ∀ compiler, action ≠ .compile compiler) (m : Machine) :
    m.thread.Moves ((Move.act action).apply m).thread := by
  by_cases hstack : action.movesStack
  · exact moves_of_restacks (Action.restacks hstack m)
  · cases action with
    | stop => exact moves_stopScript m
    | retire => exact moves_retire m
    | kill =>
      exact moves_trans (moves_editState (fun s => { s with isKilled := true }) m.thread)
        (moves_retire _)
    | sleep ms => exact moves_refl m.thread
    | report | settle | startWarpTimer | clearWarpTimer | setStatus | setKilled | setStackClick
    | setGlow | takeContext => exact ⟨_, _, rfl⟩
    | compile compiler => exact absurd rfl (hcompile compiler)
    | runProcedure | resume | callLegacy | bindLegacy => cases hplain
    | _ => exact absurd rfl hstack

/-- A use of a block utility that calls no foreign code. -/
theorem moves_use {step : Use} (hplain : step.isPlain) (m : Machine) :
    m.thread.Moves ((Move.use step).apply m).thread := by
  cases step with
  | onThread | retire => cases hplain
  | startBranch | startProcedure | initParams | pushParam | getParam | startedBranch =>
    exact moves_refl m.thread
  | _ => exact ⟨_, _, rfl⟩

end ProceduresLemmas

open ProceduresLemmas

/-- Whatever happens to a thread, unless it is asked to be compiled, leaves all but its open
part and its coroutine alone. -/
theorem Moment.Happens.moves {x : Moment} {s t : List Coroutine} (hx : x.Happens s t)
    (hcompile : x.move.compiles = false) : x.machine.thread.Moves x.after.thread := by
  cases hx with
  | act hplain =>
    refine moves_act hplain (fun compiler heq => ?_) _
    subst heq
    cases hcompile
  | use hplain => exact moves_use hplain _
  | @bind m _ block context =>
    have hbase := moves_of_restacks (.replaceBase block m)
    exact moves_trans hbase ⟨_, _, rfl⟩
  | call | enterCall | leaveCall => exact moves_refl _
  | @pass m _ _ =>
    simp only [Moment.after, Move.apply]
    split
    · exact moves_refl m.thread
    · exact ⟨_, _, rfl⟩
  | @enterScript m => exact ⟨m.wake.thread.toThreadState, none, rfl⟩
  | @leaveScript m _ c answers step =>
    obtain ⟨status, glow, coroutine, h⟩ := Machine.thread_leave c answers step m
    rw [Moment.after, h]
    exact ⟨{ m.thread.toThreadState with status, glow }, coroutine, rfl⟩

namespace ProceduresLemmas

open ClicksLemmas FirstRequestsLemmas

variable {m : Machine} {x : Moment} {script : Script} {compiler : String}
  {a b : Thread × List Coroutine} {moments : List Moment}

/-! ## What is attached -/

/-- What it means that a script is attached: the first request comes to it. -/
theorem attached_iff : x.attached? = some script ↔ ∃ m compiler,
    x = ⟨m, .act (.compile compiler)⟩ ∧ m.state.triedToCompile = false ∧
      m.outcome compiler = .ok script := by
  constructor
  · intro h
    obtain ⟨m, move⟩ := x
    unfold Moment.attached? at h
    split at h
    · next compiler hmove =>
      have hcompile : move = .act (.compile compiler) := hmove
      subst hcompile
      cases htried : m.state.triedToCompile with
      | true =>
        rw [if_pos htried] at h
        cases h
      | false =>
        rw [htried, if_neg Bool.false_ne_true] at h
        cases hout : m.outcome compiler with
        | error error =>
          rw [hout] at h
          cases h
        | ok other =>
          rw [hout] at h
          cases h
          exact ⟨m, compiler, rfl, htried, hout⟩
    · cases h
  · rintro ⟨m, compiler, rfl, huntried, hout⟩
    simp only [Moment.attached?, huntried, hout]
    rfl

/-- A thread that was asked to be compiled gets no other script. -/
theorem attached_of_tried (htried : x.machine.thread.triedToCompile) : x.attached? = none := by
  cases h : x.attached? with
  | none => rfl
  | some script =>
    obtain ⟨m, compiler, rfl, huntried, -⟩ := attached_iff.mp h
    exact absurd (huntried.symm.trans htried) Bool.false_ne_true

/-- Once a thread was asked to be compiled, no script is attached any more. -/
theorem attached_behind (hpath : Path Moment.JoinsThreads a moments b)
    (htried : a.1.triedToCompile) : ∀ x ∈ moments, x.attached? = none := by
  have htried' := (hpath.keeps_thread (P := fun t => t.triedToCompile)
    (fun y _ _ _ hhappens hy => by
      rw [triedToCompile_happens hhappens, hy, Bool.true_or]) htried).1
  intro x hx
  exact attached_of_tried (htried' x hx).1

/-- As long as a thread was not asked to be compiled, no script is attached. -/
theorem attached_ahead (hpath : Path Moment.JoinsThreads a moments b)
    (huntried : b.1.triedToCompile = false) : ∀ x ∈ moments, x.attached? = none := by
  intro x hx
  cases h : x.attached? with
  | none => rfl
  | some script =>
    obtain ⟨m, compiler, rfl, -, -⟩ := attached_iff.mp h
    have hasked : (moments.any fun x => x.move.compiles) = true :=
      List.any_eq_true.mpr ⟨_, hx, rfl⟩
    have htried := triedToCompile_path hpath
    rw [hasked, Bool.or_true, huntried] at htried
    exact absurd htried Bool.false_ne_true

/-- As long as no script is attached, a thread keeps the procedures that it has. -/
theorem procedures_happens {s t : List Coroutine} (hx : x.Happens s t)
    (hnone : x.attached? = none) :
    x.after.thread.procedures = x.machine.thread.procedures := by
  cases hcompile : x.move.compiles with
  | false =>
    obtain ⟨_, _, h⟩ := hx.moves hcompile
    rw [h]
  | true =>
    obtain ⟨m, move⟩ := x
    obtain ⟨compiler, rfl⟩ := Move.eq_compile hcompile
    show (m.compile compiler).thread.procedures = m.thread.procedures
    cases htried : m.state.triedToCompile with
    | true => rw [Machine.compile_of_tried compiler htried]
    | false =>
      cases hout : m.outcome compiler with
      | error error =>
        rw [compile_error htried hout]
        rfl
      | ok script =>
        have hsome := attached_iff.mpr ⟨m, compiler, rfl, htried, hout⟩
        rw [hnone] at hsome
        cases hsome

theorem procedures_path (hpath : Path Moment.JoinsThreads a moments b)
    (hnone : ∀ x ∈ moments, x.attached? = none) :
    (∀ x ∈ moments, x.machine.thread.procedures = a.1.procedures ∧
        x.after.thread.procedures = a.1.procedures) ∧
      b.1.procedures = a.1.procedures :=
  hpath.keeps_thread (P := fun t => t.procedures = a.1.procedures)
    (fun x hx _ _ hhappens ha => (procedures_happens hhappens (hnone x hx)).trans ha) rfl

/-! ## Collaborators -/

theorem filter_attachEvents (script : Script) (m : Machine) :
    (m.attachEvents script).filter Event.isOfAttachment = m.attachEvents script := by
  rw [List.filter_eq_self]
  intro e he
  rcases List.mem_append.mp he with he | he
  · obtain ⟨code, _, rfl⟩ := List.mem_map.mp he
    rfl
  · rw [List.mem_singleton.mp he]
    rfl

theorem filter_rememberEvents (outcome : Outcome) (m : Machine) :
    (m.rememberEvents outcome).filter Event.isOfAttachment = [] := by
  unfold Machine.rememberEvents
  split <;> rfl

/-- Of the events of a request that comes to a script, those that concern factories and
starting functions are the listed ones. -/
theorem filter_compileEvents (huntried : m.state.triedToCompile = false)
    (hout : m.outcome compiler = .ok script) :
    (m.compileEvents compiler).filter Event.isOfAttachment = m.tried.attachEvents script := by
  unfold Machine.compileEvents
  unfold Machine.outcome at hout
  rw [huntried, if_neg Bool.false_ne_true]
  cases hremembered : m.tried.rememberedOutcome? with
  | some outcome =>
    rw [hremembered, Option.getD_some] at hout
    subst hout
    exact filter_attachEvents script m.tried
  | none =>
    rw [hremembered, Option.getD_none] at hout
    have hfresh : m.tried.freshEvents compiler =
        .compile compiler (m.tried.host.compiler compiler).calls m.tried.thread ::
          (m.tried.rememberEvents (.ok script) ++ m.tried.attachEvents script) := by
      unfold Machine.freshEvents
      rw [hout]
    rw [hfresh, List.filter_cons_of_neg Bool.false_ne_true, List.filter_append,
      filter_rememberEvents, filter_attachEvents, List.nil_append]

/-- A script is attached as a whole, if the thread has no procedures before. -/
theorem attaches_of_attached (h : x.attached? = some script)
    (hblank : ∀ code, x.machine.thread.procedure? code = none) : x.Attaches script := by
  obtain ⟨m, compiler, rfl, huntried, hout⟩ := attached_iff.mp h
  have hthread : (Moment.after ⟨m, .act (.compile compiler)⟩).thread =
      (m.tried.attach script).thread := compile_ok huntried hout
  refine
    { calls := ?_
      nodup := script.factories.nodup
      factories_see := hblank
      start_sees := procedure?_bindProcedures script m.tried
      thread := hthread
      start_any_order := fun _ horder => bindProcedures_alike horder m.tried
      any_order := ?_ }
  · have hevents : Host.eventsSince m.host (Moment.after ⟨m, .act (.compile compiler)⟩).host =
        m.compileEvents compiler := m.eventsSince_compile compiler
    rw [hevents, filter_compileEvents huntried hout]
    rfl
  · intro script' horder hstart
    rw [hthread]
    exact attach_reorders horder hstart m.tried

end ProceduresLemmas

namespace World

/-- Whatever happens to a thread from its first day on. As long as no script was attached, it
has no procedures. A script is attached once and as a whole: every factory is called once,
and is shown the thread without procedures; the script is started once, on the thread with
all of them; and the order of the factories does not show in the thread. From then on,
whatever happens, the thread has the procedures that the factories of the script have made
for it, and no others. -/
theorem procedures_of_script {depth : Nat} {w : World} {tasks : List Task} {name top : String}
    {target : Target} {container : ContainerId} {pool : PoolId} {before later : List Moment}
    {x : Moment}
    (hrun : (w.newThread name target top container pool).history depth name tasks =
      before ++ x :: later)
    (hlife : ∀ task ∈ tasks, task.command.ends name = false) :
    ((∀ y ∈ before, y.attached? = none) →
      (∀ code, x.machine.thread.procedure? code = none) ∧
        (x.attached? = none → ∀ code, x.after.thread.procedure? code = none)) ∧
      ∀ script, x.attached? = some script →
        (∀ y, y ∈ before ∨ y ∈ later → y.attached? = none) ∧ x.Attaches script ∧
          x.after.thread.HasProceduresOf script x.machine.tried.thread ∧
          (∀ y ∈ later, y.machine.thread.HasProceduresOf script x.machine.tried.thread ∧
            y.after.thread.HasProceduresOf script x.machine.tried.thread) ∧
          ∀ replies w',
            (w.newThread name target top container pool).run depth tasks = some (replies, w') →
            ∃ t, w'.threads.get? name = some t ∧
              t.HasProceduresOf script x.machine.tried.thread := by
  have ht : (w.newThread name target top container pool).threads.get? name =
      some { top, target, container, pool } := Table.get?_insert_self _ _ _
  obtain ⟨u, hpath, hend⟩ := World.history_path depth ht hlife
  rw [hrun] at hpath
  obtain ⟨v, hbefore, hrest⟩ := hpath.split
  cases hrest with
  | @cons _ v' _ _ _ hx hlater =>
  obtain ⟨hmachine, hafter, hhappens⟩ := hx
  have hblank : (∀ y ∈ before, y.attached? = none) →
      ∀ code, x.machine.thread.procedure? code = none := by
    intro hnone code
    have hprocedures : v.1.procedures = .empty := (procedures_path hbefore hnone).2
    rw [Thread.procedure?, hmachine, hprocedures]
    rfl
  refine ⟨fun hnone => ⟨hblank hnone, fun hx code => ?_⟩, fun script hscript => ?_⟩
  · rw [Thread.procedure?, procedures_happens hhappens hx]
    exact hblank hnone code
  · obtain ⟨m, compiler, rfl, huntried, -⟩ := attached_iff.mp hscript
    have huntried' : v.1.triedToCompile = false := by
      rw [← hmachine]
      exact huntried
    have hnone := attached_ahead hbefore huntried'
    have hattach := attaches_of_attached hscript (hblank hnone)
    have htried : v'.1.triedToCompile := by
      rw [← hafter]
      exact m.triedToCompile_compile compiler
    have hnone' := attached_behind hlater htried
    obtain ⟨hthroughout, hlast⟩ := procedures_path hlater hnone'
    -- what the thread has when the script is attached
    have hhas : v'.1.HasProceduresOf script m.tried.thread := by
      intro code
      rw [← hafter, hattach.thread]
      exact Machine.attach_procedure? script m.tried code
    have hkept : ∀ t : Thread, t.procedures = v'.1.procedures →
        t.HasProceduresOf script m.tried.thread := by
      intro t hprocedures code
      rw [Thread.procedure?, hprocedures]
      exact hhas code
    refine ⟨?_, hattach, hafter ▸ hhas, ?_, ?_⟩
    · rintro y (hy | hy)
      · exact hnone y hy
      · exact hnone' y hy
    · intro y hy
      obtain ⟨hbefore', hafter'⟩ := hthroughout y hy
      exact ⟨hkept _ hbefore', hkept _ hafter'⟩
    · intro replies w' hw
      obtain ⟨t, hget, hu⟩ := hend replies w' hw
      rw [hu] at hlast
      exact ⟨t, hget, hkept t hlast⟩

end World

/-! ## A thread with two procedures -/

/-- Compiled code with a procedure for each of the codes. -/
def exProcedures (codes : List String) : Plan where
  procedures := .ofList (codes.map fun code => (code, [{}]))
  script := [{ conclusion := .suspend .yielded }]

/-- A thread whose script has two procedures is compiled and then killed. -/
def exTwoProcedures : List Moment :=
  let sprite : Target := { id := "sprite", name := "Sprite", container := none }
  let host : Host :=
    { compilers := .ofList [("c", .scripted [.ok (exProcedures ["hop", "skip"])])] }
  (({ host } : World).newThread "t" sprite "hat" none "pool").history 1 "t"
    [⟨0, .act "t" (.compile "c")⟩, ⟨1, .act "t" .kill⟩]

/-- The thread has its procedures to the end, and it has the same ones if the script lists
them the other way round. -/
theorem procedures_of_script_killed :
    ∃ x y script, exTwoProcedures = [x, y] ∧ x.attached? = some script ∧
      script.factories.keys = ["hop", "skip"] ∧ x.Attaches script ∧
      x.after.thread.Alike
        (x.machine.tried.attach ((exProcedures ["skip", "hop"]).toScript true)).thread ∧
      y.after.thread.status = .done ∧
      y.after.thread.HasProceduresOf script x.machine.tried.thread := by
  have hscript := (@World.procedures_of_script 1 _ _ "t" _ _ _ _ [] [_] _
    (show exTwoProcedures = _ from rfl) (by decide)).2 _ rfl
  obtain ⟨-, hattach, -, hlater, -⟩ := hscript
  have horder : ((exProcedures ["hop", "skip"]).toScript true).Reorders
      ((exProcedures ["skip", "hop"]).toScript true) := ⟨.swap _ _ _, rfl, rfl⟩
  refine ⟨_, _, _, rfl, rfl, rfl, hattach, ?_, rfl, (hlater _ List.mem_cons_self).2⟩
  exact hattach.any_order _ horder fun _ _ _ => rfl

end BlockThreads
