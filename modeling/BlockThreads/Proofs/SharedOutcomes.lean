import BlockThreads.Proofs.Chronicle
import BlockThreads.Scripted

/-!
# Outcomes that threads share

What a compiler answers is remembered with the blocks of the script, and stays remembered
until the blocks change. So of all threads that run a script only the first one calls its
compiler, and the others get what it got, be it a script or an error. Which container
remembers an outcome is found anew for every thread: its own, or the palette.

A compiler that fails is heard of once. Threads that get a remembered error say nothing
about it.

Results:
1. `one_call_between_resets`: between two resets of a container, a compiler is called at
   most once for a script, and all threads get the outcome of this call; and every failed
   call of a compiler is made known exactly once, and nothing else is.
-/

namespace BlockThreads

/-! ## What compilers are asked -/

/-- The container whose outcomes a command resets. -/
def Command.resets? : Command → Option ContainerId
  | .insertBlock container _ _ => some container
  | .forget container => some container
  | _ => none

/-- Whether a command puts an outcome where a compilation would. -/
def Command.isRemember : Command → Bool
  | .remember _ _ _ => true
  | _ => false

/-- Whether an outcome is put where a compilation would. -/
def Deed.isRemember : Deed → Bool
  | .order _ command => command.isRemember
  | _ => false

/-- Whether the outcomes of a container are reset. -/
def Deed.resets (place : ContainerId) : Deed → Bool
  | .order _ command => command.resets? == some place
  | _ => false

/-- What a compiler answers to a call. -/
def Host.answer? (h : Host) : Event → Option Outcome
  | .compile name call thread => some ((h.compiler name).compile call thread)
  | _ => none

/-- The failure of a call of a compiler: the target of the thread, and the error. -/
def Host.failure? (h : Host) : Event → Option (Target × CompileError)
  | .compile name call thread =>
    match (h.compiler name).compile call thread with
    | .error error => some (thread.target, error)
    | .ok _ => none
  | _ => none

def Event.failure? : Event → Option (Target × CompileError)
  | .compileError target error => some (target, error)
  | _ => none

/-- The events of what happens, the earliest first. -/
def Deed.events (d : Deed) : List Event := Host.eventsSince d.host d.hostAfter

namespace Moment

/-- A thread that was not started by a click is asked to be compiled for the first time. -/
def IsRequest (x : Moment) : Prop :=
  (∃ compiler, x.move = .act (.compile compiler)) ∧
    x.machine.state.triedToCompile = false ∧ x.machine.state.stackClick = false

/-- The container that remembers the outcome for the thread. -/
def place (x : Moment) : ContainerId := x.machine.host.outcomePlace x.machine.thread

/-- What compilers answer while something happens to a thread. -/
def answers (x : Moment) : List Outcome :=
  (Host.eventsSince x.machine.host x.after.host).filterMap x.machine.host.answer?

end Moment

/-- What a thread makes of an outcome that is remembered. It is marked as asked, and the log says
what was found. An error changes nothing else. From a script the thread gets the procedures, each
bound to the thread as it was, and the coroutine, started when it has them; and it asks to glow,
unless its container forbids it. -/
def Machine.follow (outcome : Outcome) (m : Machine) : Machine :=
  let asked : Thread := { m.thread with triedToCompile := true }
  match outcome with
  | .error error =>
    { thread := asked
      host := { m.host with trace := .log (.notCompiling m.thread.top error) :: m.host.trace } }
  | .ok script =>
    let bound : Thread :=
      { asked with procedures := script.factories.map fun _ factory => factory asked }
    let lights := !(m.host.container m.thread.container).forceNoGlow
    { thread :=
        { bound with
          isCompiled := true
          executableHat := script.executableHat
          coroutine := some (script.start bound)
          glow := lights || m.thread.glow
          blockGlow := if lights then some m.thread.top else m.thread.blockGlow }
      host :=
        { m.host with
          trace := .start bound ::
            ((script.factories.keys.map fun code => .factory code asked).reverse ++
              .log (.usingRemembered m.thread.top) :: m.host.trace) } }

namespace SharedOutcomesLemmas

open Host

variable {g h h' : Host} {m : Machine} {events : List Event}

/-! ## Events -/

theorem eventsSince_of_trace (ht : h'.trace = events.reverse ++ h.trace) :
    Host.eventsSince h h' = events := by
  have hlength : h'.trace.length - h.trace.length = events.reverse.length := by
    rw [ht, List.length_append, Nat.add_sub_cancel]
  rw [Host.eventsSince, hlength, ht, List.take_left, List.reverse_reverse]

/-- A host grows into another by events. Its compilers stay what they are. -/
structure Grows (h : Host) (events : List Event) (h' : Host) : Prop where
  compile (name : String) : (h'.compiler name).compile = (h.compiler name).compile
  trace : h'.trace = events.reverse ++ h.trace

namespace Grows

theorem refl (h : Host) : Grows h [] h := ⟨fun _ => rfl, rfl⟩

theorem trans {events' : List Event} (hg : Grows g events h) (hh : Grows h events' h') :
    Grows g (events ++ events') h' where
  compile name := (hh.compile name).trans (hg.compile name)
  trace := by rw [hh.trace, hg.trace, List.reverse_append, List.append_assoc]

theorem of_quiet (hq : h.Quiet h') :
    ∃ events, Grows h events h' ∧ ∀ e ∈ events, e.isOfCompiler = false := by
  obtain ⟨_, _, events, hevents, rfl⟩ := hq
  exact ⟨events, ⟨fun _ => rfl, rfl⟩, hevents⟩

theorem record (event : Event) (h : Host) : Grows h [event] (h.record event) :=
  ⟨fun _ => rfl, rfl⟩

theorem events_eq (hg : Grows h events h') : Host.eventsSince h h' = events :=
  eventsSince_of_trace hg.trace

theorem failure?_eq (hg : Grows h events h') : h'.failure? = h.failure? := by
  funext e
  cases e with
  | compile name call thread => simp only [Host.failure?, hg.compile name]
  | _ => rfl

end Grows

/-- Events that are not about compilers answer nothing and make nothing known. -/
theorem silent_of_quiet (hevents : ∀ e ∈ events, e.isOfCompiler = false) (h : Host) :
    events.filterMap h.answer? = [] ∧ events.filterMap h.failure? = [] ∧
      events.filterMap Event.failure? = [] := by
  refine ⟨List.filterMap_eq_nil_iff.mpr fun e he => ?_,
    List.filterMap_eq_nil_iff.mpr fun e he => ?_, List.filterMap_eq_nil_iff.mpr fun e he => ?_⟩ <;>
  · have hquiet := hevents e he
    cases e <;> first | rfl | simp [Event.isOfCompiler] at hquiet

/-! ## Compilation -/

theorem container_editContainer (id other : ContainerId) (edit : Container → Container)
    (h : Host) : (h.editContainer id edit).container other =
      if id = other then edit (h.container id) else h.container other := by
  unfold Host.editContainer Host.container
  rw [Table.get?_insert]
  split <;> rfl

theorem quiet_attach (script : Script) (m : Machine) : m.host.Quiet (m.attach script).host := by
  have hbind : m.host.Quiet (m.bindProcedures script).host := by
    refine Quiet.recordAll (fun e he => ?_) m.host
    obtain ⟨code, _, rfl⟩ := List.mem_map.mp he
    rfl
  have hstart : m.host.Quiet ((m.bindProcedures script).startScript script).host :=
    hbind.trans (Quiet.record rfl _)
  simp only [Machine.attach, Machine.requestGlow]
  split <;> exact hstart

/-- To follow a script is to attach it. -/
theorem follow_ok (script : Script) (m : Machine) :
    m.follow (.ok script) = (m.tried.log (.usingRemembered m.thread.top)).attach script := by
  have hglow : ∀ (n : Machine), n.requestGlow =
      let lights := !(n.host.container n.thread.container).forceNoGlow
      n.editState fun s =>
        { s with glow := lights || s.glow
                 blockGlow := if lights then some n.thread.top else s.blockGlow } := by
    intro n
    unfold Machine.requestGlow
    cases (n.host.container n.thread.container).forceNoGlow <;> rfl
  rw [Machine.attach, hglow]
  rfl

theorem compile_of_remembered (compiler : String) {outcome : Outcome}
    (htried : m.state.triedToCompile = false) (hclick : m.state.stackClick = false)
    (hout : (m.host.container (m.host.outcomePlace m.thread)).outcome? m.thread.top =
      some outcome) :
    m.compile compiler = m.follow outcome := by
  have hremembered : m.tried.rememberedOutcome? = some outcome := by
    have hclick' : m.tried.state.stackClick = false := hclick
    unfold Machine.rememberedOutcome?
    rw [hclick']
    exact hout
  rw [Machine.compile_of_untried compiler htried, hremembered]
  cases outcome with
  | error error => rfl
  | ok script => exact (follow_ok script m).symm

theorem quiet_follow (outcome : Outcome) (m : Machine) : m.host.Quiet (m.follow outcome).host := by
  cases outcome with
  | error error => exact Quiet.record rfl m.host
  | ok script =>
    have hlog : m.host.Quiet (m.tried.log (.usingRemembered m.thread.top)).host :=
      Quiet.record rfl m.host
    rw [follow_ok]
    exact hlog.trans (quiet_attach script _)

/-- The compiler that is called stays what it is. -/
theorem grows_callCompiler (compiler : String) (m : Machine) :
    Grows m.host
      [.compile compiler (m.host.compiler compiler).calls m.thread]
      (m.callCompiler compiler).2.host := by
  refine ⟨fun name => ?_, rfl⟩
  have hget : (m.callCompiler compiler).2.host.compiler name =
      ((m.host.compilers.insert compiler { m.host.compiler compiler with
        calls := (m.host.compiler compiler).calls + 1 }).get? name).getD .idle := rfl
  rw [hget, Table.get?_insert]
  split
  · next h =>
    rw [← h]
    rfl
  · rfl

/-- To remember an outcome is not the business of compilers. -/
theorem grows_rememberOutcome (outcome : Outcome) (m : Machine) :
    ∃ events, Grows m.host events (m.rememberOutcome outcome).host ∧
      ∀ e ∈ events, e.isOfCompiler = false := by
  unfold Machine.rememberOutcome
  split
  · exact ⟨[], .refl _, fun _ he => absurd he List.not_mem_nil⟩
  · refine ⟨[.log (.remembering m.thread.top outcome)], ⟨fun _ => rfl, rfl⟩, fun e he => ?_⟩
    rw [List.mem_singleton.mp he]
    rfl

/-- The event of a call tells the outcome of the call. -/
theorem answer?_callCompiler (compiler : String) (m : Machine) :
    m.host.answer? (.compile compiler (m.host.compiler compiler).calls m.thread) =
      some (m.callCompiler compiler).1 := rfl

theorem failure?_callCompiler {compiler : String} {m : Machine} {outcome : Outcome}
    (h : (m.callCompiler compiler).1 = outcome) :
    m.host.failure? (.compile compiler (m.host.compiler compiler).calls m.thread) =
      match outcome with
      | .error error => some (m.thread.target, error)
      | .ok _ => none := by
  have hout : (m.host.compiler compiler).compile (m.host.compiler compiler).calls m.thread =
      outcome := h
  simp only [Host.failure?, hout]
  cases outcome <;> rfl

/-- A fresh compilation calls one compiler. Its failure is made known, and nothing else. -/
theorem grows_compileAfresh (compiler : String) (m : Machine) :
    ∃ events, Grows m.host events (m.compileAfresh compiler).host ∧
      events.filterMap m.host.answer? = [(m.callCompiler compiler).1] ∧
      events.filterMap Event.failure? = events.filterMap m.host.failure? := by
  have hcall := grows_callCompiler compiler m
  rw [Machine.compileAfresh_eq]
  split
  · next script hscript =>
    obtain ⟨remembered, hremember, hquiet⟩ :=
      grows_rememberOutcome (.ok script) (m.callCompiler compiler).2
    obtain ⟨attached, hattach, hquiet'⟩ := Grows.of_quiet
      (quiet_attach script ((m.callCompiler compiler).2.rememberOutcome (.ok script)))
    obtain ⟨ha, hf, hk⟩ := silent_of_quiet hquiet m.host
    obtain ⟨ha', hf', hk'⟩ := silent_of_quiet hquiet' m.host
    refine ⟨_, (hcall.trans hremember).trans hattach, ?_, ?_⟩
    · rw [List.filterMap_append, List.filterMap_append, ha, ha',
        List.filterMap_cons_some (answer?_callCompiler compiler m)]
      rfl
    · rw [List.filterMap_append, List.filterMap_append, List.filterMap_append,
        List.filterMap_append, hk, hk', hf, hf',
        List.filterMap_cons_none (failure?_callCompiler hscript)]
      rfl
  · next error herror =>
    -- the call, its log, what is remembered and what is made known, in this order
    have hlog := Grows.record (.log (.cannotCompile m.thread.target.name error))
      (m.callCompiler compiler).2.host
    obtain ⟨remembered, hremember, hquiet⟩ := grows_rememberOutcome (.error error)
      ((m.callCompiler compiler).2.log (.cannotCompile m.thread.target.name error))
    have hknown := Grows.record (.compileError m.thread.target error)
      (((m.callCompiler compiler).2.log
        (.cannotCompile m.thread.target.name error)).rememberOutcome (.error error)).host
    obtain ⟨ha, hf, hk⟩ := silent_of_quiet hquiet m.host
    refine ⟨_, ((hcall.trans hlog).trans hremember).trans hknown, ?_, ?_⟩
    · rw [List.filterMap_append, List.filterMap_append, List.filterMap_append, ha,
        List.filterMap_cons_some (answer?_callCompiler compiler m)]
      rfl
    · rw [List.filterMap_append, List.filterMap_append, List.filterMap_append,
        List.filterMap_append, List.filterMap_append, List.filterMap_append, hk, hf,
        List.filterMap_cons_some (failure?_callCompiler herror)]
      rfl

theorem containers_of_quiet (hq : h.Quiet h') : h'.containers = h.containers := by
  obtain ⟨_, _, _, _, rfl⟩ := hq
  rfl

theorem containers_rememberOutcome (outcome : Outcome) (m : Machine) :
    (m.rememberOutcome outcome).host.containers =
      if m.state.stackClick then m.host.containers
      else (m.host.editContainer (m.host.outcomePlace m.thread)
        (Container.remember m.thread.top outcome)).containers := by
  unfold Machine.rememberOutcome
  split <;> rfl

/-- Unless the thread was clicked, a fresh compilation is remembered, and nothing else of the
containers changes. -/
theorem containers_compileAfresh (compiler : String) (m : Machine) :
    (m.compileAfresh compiler).host.containers =
      if m.state.stackClick then m.host.containers
      else (m.host.editContainer (m.host.outcomePlace m.thread)
        (Container.remember m.thread.top (m.callCompiler compiler).1)).containers := by
  rw [Machine.compileAfresh_eq]
  split
  · next script hscript =>
    rw [containers_of_quiet (quiet_attach script _), containers_rememberOutcome, hscript]
    rfl
  · next error herror =>
    have hrecord : ∀ (n : Machine) (event : Event),
        (n.record event).host.containers = n.host.containers := fun _ _ => rfl
    rw [hrecord, containers_rememberOutcome, herror]
    rfl

/-! ## What a request does -/

/-- What can come of a request to compile, with regard to compilers: nothing, or a compiler
is called, and its outcome is remembered. -/
theorem compile_host_cases (compiler : String) (m : Machine) :
    m.host.Quiet (m.compile compiler).host ∨
      m.tried.rememberedOutcome? = none ∧ m.compile compiler = m.tried.compileAfresh compiler := by
  cases htried : m.state.triedToCompile with
  | true =>
    rw [Machine.compile_of_tried compiler htried]
    exact .inl (.refl _)
  | false =>
    rw [Machine.compile_of_untried compiler htried]
    cases hout : m.tried.rememberedOutcome? with
    | none => exact .inr ⟨rfl, rfl⟩
    | some outcome =>
      left
      cases outcome with
      | error error => exact quiet_follow (.error error) m
      | ok script =>
        have hq := quiet_follow (.ok script) m
        rw [follow_ok] at hq
        exact hq

/-- What can come of whatever happens to a thread, with regard to compilers: nothing, or a
compiler is called, and its outcome is remembered. -/
theorem moment_host_cases {x : Moment} {s t : List Coroutine} (hx : x.Happens s t) :
    x.machine.host.Quiet x.after.host ∨ ∃ compiler,
      x.machine.tried.rememberedOutcome? = none ∧
        x.after = x.machine.tried.compileAfresh compiler := by
  cases hcompile : x.move.compiles with
  | false => exact .inl (hx.quiet hcompile)
  | true =>
    obtain ⟨m, move⟩ := x
    obtain ⟨compiler, rfl⟩ := Move.eq_compile hcompile
    rcases compile_host_cases compiler m with hq | hfresh
    · exact .inl hq
    · exact .inr ⟨compiler, hfresh⟩

/-- Nothing that has to do with compilers happens, so no failure is there to be known. -/
theorem grows_of_quiet (hq : h.Quiet h') :
    ∃ events, Grows h events h' ∧
      events.filterMap Event.failure? = events.filterMap h.failure? := by
  obtain ⟨events, hgrows, hsilent⟩ := Grows.of_quiet hq
  obtain ⟨_, hf, hk⟩ := silent_of_quiet hsilent h
  exact ⟨events, hgrows, by rw [hf, hk]⟩

/-- Whatever happens to a thread, every failure of a compiler is made known, and nothing
else. -/
theorem grows_moment {x : Moment} {s t : List Coroutine} (hx : x.Happens s t) :
    ∃ events, Grows x.machine.host events x.after.host ∧
      events.filterMap Event.failure? = events.filterMap x.machine.host.failure? := by
  rcases moment_host_cases hx with hq | ⟨compiler, _, hafter⟩
  · exact grows_of_quiet hq
  · obtain ⟨events, hgrows, _, hknown⟩ := grows_compileAfresh compiler x.machine.tried
    rw [hafter]
    exact ⟨events, hgrows, hknown⟩

/-! ## What everything else does -/

/-- What a command does to the host that no thread carries out: nothing that has to do with
compilers, or the outcomes of a container are reset. -/
theorem order_cases {w : World} {command : Command} (hactor : command.actor? = none)
    (hremember : command.isRemember = false) :
    w.host.Quiet (Deed.order w command).hostAfter ∨
      ∃ container edit, command.resets? = some container ∧
        (Deed.order w command).hostAfter = w.host.editContainer container edit := by
  cases command with
  | remember => simp [Command.isRemember] at hremember
  | insertBlock container id block => exact .inr ⟨container, _, rfl, rfl⟩
  | forget container => exact .inr ⟨container, _, rfl, rfl⟩
  | _ => exact .inl (World.serves_order hactor rfl).quiet

/-! ## Runs -/

theorem grows_deed {d : Deed} (hd : d.Joins h h') (hremember : d.isRemember = false) :
    ∃ events, Grows h events h' ∧
      events.filterMap Event.failure? = events.filterMap h.failure? := by
  obtain ⟨rfl, rfl, hjoin⟩ := hd
  cases d with
  | of thread x =>
    obtain ⟨_, _, hx⟩ := hjoin
    exact grows_moment hx
  | order w command =>
    rcases order_cases hjoin hremember with hq | ⟨container, edit, _, heq⟩
    · exact grows_of_quiet hq
    · exact ⟨[], heq ▸ ⟨fun _ => rfl, rfl⟩, rfl⟩
  | clock w time => exact ⟨[], ⟨fun _ => rfl, rfl⟩, rfl⟩

/-- What happens in a run are its events, and among them every failure of a compiler is
made known, and nothing else. -/
theorem grows_path {deeds : List Deed} (hpath : Path Deed.Joins h deeds h')
    (hremember : ∀ d ∈ deeds, d.isRemember = false) :
    Grows h (deeds.flatMap Deed.events) h' ∧
      (deeds.flatMap Deed.events).filterMap Event.failure? =
        (deeds.flatMap Deed.events).filterMap h.failure? := by
  induction hpath with
  | nil => exact ⟨.refl _, rfl⟩
  | @cons g h h' d deeds hd _ ih =>
    obtain ⟨events, hgrows, hknown⟩ := grows_deed hd (hremember d List.mem_cons_self)
    obtain ⟨hgrows', hknown'⟩ := ih fun d' hd' => hremember d' (List.mem_cons_of_mem _ hd')
    have hevents : d.events = events := by
      rw [Deed.events, hd.1, hd.2.1, hgrows.events_eq]
    rw [List.flatMap_cons, hevents]
    refine ⟨hgrows.trans hgrows', ?_⟩
    rw [List.filterMap_append, List.filterMap_append, hknown, hknown', hgrows.failure?_eq]

theorem container_of_containers (heq : h'.containers = h.containers) (id : ContainerId) :
    h'.container id = h.container id := by
  rw [Host.container, heq, Host.container]

variable {place : ContainerId} {top : String} {outcome : Outcome}

/-- A fresh compilation does not touch what is remembered. -/
theorem remembered_compileAfresh {compiler : String} (hnone : m.rememberedOutcome? = none)
    (hout : (m.host.container place).outcome? top = some outcome) :
    ((m.compileAfresh compiler).host.container place).outcome? top = some outcome := by
  have hcontainers := containers_compileAfresh compiler m
  cases hclick : m.state.stackClick with
  | true =>
    rw [hclick, if_pos rfl] at hcontainers
    rw [container_of_containers hcontainers, hout]
  | false =>
    rw [hclick, if_neg Bool.false_ne_true] at hcontainers
    rw [container_of_containers hcontainers, container_editContainer]
    split
    · next hplace =>
      subst hplace
      rw [Container.outcome?_remember]
      split
      · next htop =>
        -- the outcome would have been found
        subst htop
        unfold Machine.rememberedOutcome? at hnone
        rw [hclick, if_neg Bool.false_ne_true, hout] at hnone
        cases hnone
      · exact hout
    · exact hout

/-- What is remembered stays until it is reset. -/
theorem remembered_deed {d : Deed} (hd : d.Joins h h') (hremember : d.isRemember = false)
    (hreset : d.resets place = false)
    (hout : (h.container place).outcome? top = some outcome) :
    (h'.container place).outcome? top = some outcome := by
  have hquiet : h.Quiet h' → (h'.container place).outcome? top = some outcome := fun hq => by
    rw [container_of_containers (containers_of_quiet hq), hout]
  obtain ⟨rfl, rfl, hjoin⟩ := hd
  cases d with
  | of thread x =>
    obtain ⟨_, _, hx⟩ := hjoin
    rcases moment_host_cases hx with hq | ⟨compiler, hnone, heq⟩
    · exact hquiet hq
    · have hafter : (Deed.of thread x).hostAfter = (x.machine.tried.compileAfresh compiler).host :=
        congrArg Machine.host heq
      rw [hafter]
      exact remembered_compileAfresh hnone hout
  | order w command =>
    rcases order_cases hjoin hremember with hq | ⟨container, edit, hcommand, heq⟩
    · exact hquiet hq
    · have hne : container ≠ place := by simpa [Deed.resets, hcommand] using hreset
      rw [heq, container_editContainer, if_neg hne]
      exact hout
  | clock w time => exact hout

/-- Where no compiler is called there is no answer. -/
theorem answers_of_quiet {x : Moment} (hq : x.machine.host.Quiet x.after.host) :
    x.answers = [] := by
  obtain ⟨events, hgrows, hsilent⟩ := Grows.of_quiet hq
  rw [Moment.answers, hgrows.events_eq]
  exact (silent_of_quiet hsilent _).1

theorem answers_of_compileAfresh {x : Moment} {compiler : String}
    (h : x.after = x.machine.tried.compileAfresh compiler) :
    x.answers = [(x.machine.tried.callCompiler compiler).1] := by
  obtain ⟨events, hgrows, hcalls, _⟩ := grows_compileAfresh compiler x.machine.tried
  have hgrows' : Grows x.machine.host events x.after.host := h ▸ hgrows
  rw [Moment.answers, hgrows'.events_eq]
  exact hcalls

/-- A fresh compilation gets the answer of its compiler. -/
theorem answers_of_fresh {compiler : String}
    (h : m.compile compiler = m.tried.compileAfresh compiler) :
    Moment.answers ⟨m, .act (.compile compiler)⟩ = [(m.tried.callCompiler compiler).1] :=
  answers_of_compileAfresh h

/-- A request that calls a compiler has its outcome remembered. -/
theorem remembered_request {x : Moment} (hx : x.IsRequest) (hanswer : outcome ∈ x.answers) :
    (x.after.host.container x.place).outcome? x.machine.thread.top = some outcome := by
  obtain ⟨m, move⟩ := x
  obtain ⟨⟨compiler, rfl⟩, htried, hclick⟩ := hx
  have hafter : (Moment.after ⟨m, .act (.compile compiler)⟩).host =
      (m.compile compiler).host := rfl
  rcases compile_host_cases compiler m with hq | ⟨hnone, heq⟩
  · rw [answers_of_quiet hq] at hanswer
    exact absurd hanswer List.not_mem_nil
  · rw [answers_of_fresh heq, List.mem_singleton] at hanswer
    have hcontainers := containers_compileAfresh compiler m.tried
    have hclick' : m.tried.state.stackClick = false := hclick
    rw [hclick', if_neg Bool.false_ne_true, ← hanswer] at hcontainers
    have hplace : m.tried.host.outcomePlace m.tried.thread =
        Moment.place ⟨m, .act (.compile compiler)⟩ := rfl
    rw [hafter, heq, container_of_containers hcontainers, container_editContainer,
      if_pos hplace, Container.outcome?_remember]
    exact if_pos rfl

/-- A request whose outcome is remembered follows it, and calls no compiler. -/
theorem follow_request {x : Moment} (hx : x.IsRequest)
    (hout : (x.machine.host.container x.place).outcome? x.machine.thread.top = some outcome) :
    x.answers = [] ∧ x.after = x.machine.follow outcome := by
  obtain ⟨m, move⟩ := x
  obtain ⟨⟨compiler, rfl⟩, htried, hclick⟩ := hx
  have hafter : Moment.after ⟨m, .act (.compile compiler)⟩ = m.follow outcome :=
    compile_of_remembered compiler htried hclick hout
  refine ⟨answers_of_quiet ?_, hafter⟩
  rw [hafter]
  exact quiet_follow outcome m

/-- Only the tasks of a run put outcomes where compilations would. -/
theorem isRemember_chronicle (depth : Nat) (w : World) {tasks : List Task}
    (hremember : ∀ task ∈ tasks, task.command.isRemember = false) :
    ∀ d ∈ w.chronicle depth tasks, d.isRemember = false := by
  induction tasks generalizing w with
  | nil => exact fun d hd => absurd hd List.not_mem_nil
  | cons task tasks ih =>
    intro d hd
    rw [World.chronicle] at hd
    rcases List.mem_append.mp hd with hd | hd
    · rcases List.mem_cons.mp hd with rfl | hd
      · rfl
      · cases d with
        | order u command =>
          rw [ChronicleLemmas.order_of_mem_deeds hd]
          exact hremember task List.mem_cons_self
        | _ => rfl
    · split at hd
      · exact absurd hd List.not_mem_nil
      · exact ih _ (fun x hx => hremember x (List.mem_cons_of_mem _ hx)) d hd

end SharedOutcomesLemmas

open SharedOutcomesLemmas

namespace World

/-- In a run in which outcomes are written by compilations only. Of two threads that were not
started by a click, share a script and have its outcome remembered at the same place, with
no reset of the place in between, the second does not call its compiler if the first did,
and gets the outcome of that call. And over the whole run, every call of a compiler that
fails is made known once, with the target of the thread and the error, and nothing else
is. -/
theorem one_call_between_resets {depth : Nat} {w : World} {tasks : List Task}
    (hremember : ∀ task ∈ tasks, task.command.isRemember = false) :
    (∀ before a x between b y later, w.chronicle depth tasks =
        before ++ .of a x :: (between ++ .of b y :: later) →
      x.IsRequest → y.IsRequest → y.place = x.place →
      y.machine.thread.top = x.machine.thread.top →
      (∀ d ∈ between, d.resets x.place = false) →
      ∀ outcome ∈ x.answers, y.answers = [] ∧ y.after = y.machine.follow outcome) ∧
    ((w.chronicle depth tasks).flatMap Deed.events).filterMap Event.failure? =
      ((w.chronicle depth tasks).flatMap Deed.events).filterMap w.host.failure? ∧
    ∀ replies w', w.run depth tasks = some (replies, w') →
      Host.eventsSince w.host w'.host = (w.chronicle depth tasks).flatMap Deed.events := by
  obtain ⟨h, hpath, hend⟩ := chronicle_path depth w tasks
  have hwrites := isRemember_chronicle depth w hremember
  obtain ⟨hgrows, hknown⟩ := grows_path hpath hwrites
  refine ⟨?_, hknown, fun replies w' hrun => ?_⟩
  · intro before a x between b y later heq hx hy hplace htop hreset outcome hanswer
    rw [heq] at hpath hwrites
    obtain ⟨_, _, hrest⟩ := hpath.split
    cases hrest with
    | @cons _ g _ _ _ hxd hrest =>
    obtain ⟨g', hbetween, hlater⟩ := hrest.split
    cases hlater with
    | cons hyd _ =>
    -- the outcome is remembered by the first thread, kept in between and found by the second
    have hfirst : (g.container x.place).outcome? x.machine.thread.top = some outcome := by
      rw [← hxd.2.1]
      exact remembered_request hx hanswer
    have hkept : (g'.container x.place).outcome? x.machine.thread.top = some outcome :=
      hbetween.keeps
        (P := fun h => (h.container x.place).outcome? x.machine.thread.top = some outcome)
        (fun d hd _ _ hjoin => remembered_deed hjoin (hwrites d (by simp [hd])) (hreset d hd))
        hfirst
    rw [← hyd.1, ← hplace, ← htop] at hkept
    exact follow_request hy hkept
  · rw [← hend replies w' hrun, hgrows.events_eq]

end World

/-! ## Two threads with one script -/

/-- A sprite whose script cannot be compiled, with two threads that run the script. -/
def exUncompilable : World :=
  let sprite : Target := { id := "sprite", name := "Sprite", container := some "main" }
  let thread : Thread :=
    { top := "hat", target := sprite, container := some "main", pool := "pool" }
  { host :=
      { containers := .ofList [(some "main", { blocks := .ofList [("hat", { opcode := "hat" })] })]
        compilers := .ofList [("c", .scripted [.error (.unsupported "hat")])] }
    threads := .ofList [("a", thread), ("b", thread)] }

/-- Both threads are asked to be compiled. In between the first one retires. -/
def exCompilations : List Task :=
  [⟨0, .act "a" (.compile "c")⟩, ⟨1, .act "a" .retire⟩, ⟨2, .act "b" (.compile "c")⟩]

/-- The second thread gets the error that the first one got, without a call of the compiler,
and the error is made known once. -/
theorem one_call_between_resets_twice :
    (∃ before x between y, exUncompilable.chronicle 1 exCompilations =
        before ++ .of "a" x :: (between ++ [.of "b" y]) ∧
      x.answers = [.error (.unsupported "hat")] ∧ y.answers = [] ∧
      y.after = y.machine.follow (.error (.unsupported "hat"))) ∧
    (((exUncompilable.chronicle 1 exCompilations).flatMap Deed.events).filterMap
      (Host.failure? exUncompilable.host)).length = 1 ∧
    (((exUncompilable.chronicle 1 exCompilations).flatMap Deed.events).filterMap
      Event.failure?).length = 1 := by
  have hone := @World.one_call_between_resets 1 exUncompilable exCompilations (by decide)
  refine ⟨⟨[_], _, [_, _, _], _, rfl, rfl, ?_⟩, rfl, ?_⟩
  · exact hone.1 [_] "a" _ [_, _, _] "b" _ [] rfl ⟨⟨"c", rfl⟩, rfl, rfl⟩ ⟨⟨"c", rfl⟩, rfl, rfl⟩
      rfl rfl (by decide) _ (List.mem_singleton.mpr rfl)
  · rw [hone.2.1]
    rfl

end BlockThreads
