import BlockThreads.Proofs.SharedOutcomes

/-!
# What a request to compile writes

A request to compile is the only move that calls collaborators by itself: the compiler, the
factories of the procedures and the starting function of the script. Each of them is shown
the thread, and each call is an event. This module lists the events of a request, so that
what collaborators are shown can be read off without a look into the operations.

Results:
1. `trace_compile`: the events of a request are the listed ones.
2. `Host.Compiles.compile`: a request changes what is remembered and counted, and the trace.
3. `shown_compile`: while a thread is compiled, everyone is shown it with the same stack.
4. `Deed.Joins.shows`: nothing else that happens in a run shows a thread to anyone.
5. `trace_path`: the trace of a run is the events of what happens in it.
-/

namespace BlockThreads

/-- The thread that a collaborator is shown. -/
def Event.thread? : Event → Option Thread
  | .compile _ _ thread => some thread
  | .factory _ thread => some thread
  | .start thread => some thread
  | _ => none

/-- Whether an event tells that a frame is made. -/
def Event.isAllocation : Event → Bool
  | .log .allocatingFrame => true
  | _ => false

namespace Machine

/-! ## The events of a request -/

/-- What is written when an outcome is remembered. -/
def rememberEvents (outcome : Outcome) (m : Machine) : List Event :=
  if m.state.stackClick then [] else [.log (.remembering m.thread.top outcome)]

/-- What is written when a script is attached. -/
def attachEvents (script : Script) (m : Machine) : List Event :=
  (script.factories.keys.map fun code => .factory code m.thread) ++
    [.start (m.bindProcedures script).thread]

/-- What is written when a compiler is asked and answers. -/
def freshEvents (compiler : String) (m : Machine) : List Event :=
  .compile compiler (m.host.compiler compiler).calls m.thread ::
    match (m.callCompiler compiler).1 with
    | .ok script => m.rememberEvents (.ok script) ++ m.attachEvents script
    | .error error =>
      .log (.cannotCompile m.thread.target.name error) ::
        (m.rememberEvents (.error error) ++ [.compileError m.thread.target error])

/-- What is written at a request to compile, the earliest event first. -/
def compileEvents (compiler : String) (m : Machine) : List Event :=
  if m.state.triedToCompile then []
  else
    match m.tried.rememberedOutcome? with
    | some (.error error) => [.log (.notCompiling m.thread.top error)]
    | some (.ok script) => .log (.usingRemembered m.thread.top) :: m.tried.attachEvents script
    | none => m.tried.freshEvents compiler

end Machine

namespace RequestsLemmas

open SharedOutcomesLemmas

variable {m : Machine}

theorem trace_rememberOutcome (outcome : Outcome) (m : Machine) :
    (m.rememberOutcome outcome).host.trace =
      (m.rememberEvents outcome).reverse ++ m.host.trace := by
  unfold Machine.rememberOutcome Machine.rememberEvents
  split <;> rfl

theorem trace_attach (script : Script) (m : Machine) :
    (m.attach script).host.trace = (m.attachEvents script).reverse ++ m.host.trace := by
  have hstart : ((m.bindProcedures script).startScript script).host.trace =
      (m.attachEvents script).reverse ++ m.host.trace := by
    rw [Machine.attachEvents, List.reverse_append]
    rfl
  simp only [Machine.attach, Machine.requestGlow]
  split <;> exact hstart

/-- To remember an outcome does not change what attaching a script writes. -/
theorem attachEvents_of_thread {n : Machine} (h : n.thread = m.thread) (script : Script) :
    n.attachEvents script = m.attachEvents script := by
  simp only [Machine.attachEvents, Machine.bindProcedures, h]

theorem trace_compileAfresh (compiler : String) (m : Machine) :
    (m.compileAfresh compiler).host.trace =
      (m.freshEvents compiler).reverse ++ m.host.trace := by
  have hcall : (m.callCompiler compiler).2.host.trace =
      .compile compiler (m.host.compiler compiler).calls m.thread :: m.host.trace := rfl
  rw [Machine.compileAfresh_eq, Machine.freshEvents]
  cases houtcome : (m.callCompiler compiler).1 with
  | ok script =>
    have hattach : ((m.callCompiler compiler).2.rememberOutcome (.ok script)).attachEvents script =
        m.attachEvents script :=
      attachEvents_of_thread (Machine.rememberOutcome_thread _ _) script
    have hremember : (m.callCompiler compiler).2.rememberEvents (.ok script) =
        m.rememberEvents (.ok script) := rfl
    simp only [trace_attach, trace_rememberOutcome, hattach, hremember, hcall, List.reverse_cons,
      List.reverse_append, List.append_assoc, List.singleton_append]
  | error error =>
    -- the call, its log, what is remembered and what is made known
    have hknown : ∀ (n : Machine) (event : Event),
        (n.record event).host.trace = event :: n.host.trace := fun _ _ => rfl
    have hlog : ((m.callCompiler compiler).2.log
          (.cannotCompile m.thread.target.name error)).host.trace =
        .log (.cannotCompile m.thread.target.name error) ::
          (m.callCompiler compiler).2.host.trace := rfl
    have hremember : ((m.callCompiler compiler).2.log
          (.cannotCompile m.thread.target.name error)).rememberEvents (.error error) =
        m.rememberEvents (.error error) := rfl
    simp only [hknown, trace_rememberOutcome, hremember, hlog, hcall, List.reverse_cons,
      List.reverse_append, List.append_assoc, List.reverse_nil, List.nil_append,
      List.cons_append]

end RequestsLemmas

open RequestsLemmas

namespace Machine

/-- The events of a request to compile are the listed ones. -/
theorem trace_compile (compiler : String) (m : Machine) :
    (m.compile compiler).host.trace = (m.compileEvents compiler).reverse ++ m.host.trace := by
  unfold compileEvents
  cases htried : m.state.triedToCompile with
  | true =>
    rw [compile_of_tried compiler htried]
    rfl
  | false =>
    rw [compile_of_untried compiler htried, if_neg Bool.false_ne_true]
    cases m.tried.rememberedOutcome? with
    | none => exact trace_compileAfresh compiler m.tried
    | some outcome =>
      cases outcome with
      | error error => rfl
      | ok script =>
        have hlog : (m.tried.log (.usingRemembered m.thread.top)).host.trace =
            .log (.usingRemembered m.thread.top) :: m.host.trace := rfl
        have hattach : (m.tried.log (.usingRemembered m.thread.top)).attachEvents script =
            m.tried.attachEvents script := rfl
        simp only [trace_attach, hlog, hattach, List.reverse_cons, List.append_assoc,
          List.singleton_append]

theorem eventsSince_compile (compiler : String) (m : Machine) :
    Host.eventsSince m.host (m.compile compiler).host = m.compileEvents compiler :=
  SharedOutcomesLemmas.eventsSince_of_trace (trace_compile compiler m)

end Machine

/-! ## What a request leaves alone -/

/-- A host comes from another by requests to compile: what is remembered, the compilers and
the trace may be any. -/
def Host.Compiles (h h' : Host) : Prop :=
  ∃ (containers : Table ContainerId Container) (compilers : Table String Compiler)
    (trace : List Event), h' = { h with containers, compilers, trace }

namespace Host.Compiles

variable {g h h' : Host}

theorem refl (h : Host) : h.Compiles h := ⟨h.containers, h.compilers, h.trace, rfl⟩

theorem trans (hg : g.Compiles h) (hh : h.Compiles h') : g.Compiles h' := by
  obtain ⟨_, _, _, rfl⟩ := hg
  obtain ⟨containers, compilers, trace, rfl⟩ := hh
  exact ⟨containers, compilers, trace, rfl⟩

theorem record (event : Event) (h : Host) : h.Compiles (h.record event) :=
  ⟨h.containers, h.compilers, event :: h.trace, rfl⟩

theorem attach (script : Script) (m : Machine) : m.host.Compiles (m.attach script).host := by
  simp only [Machine.attach, Machine.requestGlow]
  split <;> exact ⟨_, _, _, rfl⟩

theorem rememberOutcome (outcome : Outcome) (m : Machine) :
    m.host.Compiles (m.rememberOutcome outcome).host := by
  unfold Machine.rememberOutcome
  split <;> exact ⟨_, _, _, rfl⟩

theorem callCompiler (compiler : String) (m : Machine) :
    m.host.Compiles (m.callCompiler compiler).2.host := ⟨_, _, _, rfl⟩

theorem compileAfresh (compiler : String) (m : Machine) :
    m.host.Compiles (m.compileAfresh compiler).host := by
  have hcall := callCompiler compiler m
  rw [Machine.compileAfresh_eq]
  split
  · exact hcall.trans ((rememberOutcome _ _).trans (attach _ _))
  · next error _ =>
    have hremember := rememberOutcome (.error error)
      ((m.callCompiler compiler).2.log (.cannotCompile m.thread.target.name error))
    have hlog := hcall.trans (record (.log (.cannotCompile m.thread.target.name error)) _)
    exact (hlog.trans hremember).trans (record (.compileError m.thread.target error) _)

/-- A request to compile leaves the rest of its host alone. -/
theorem compile (compiler : String) (m : Machine) :
    m.host.Compiles (m.compile compiler).host := by
  cases htried : m.state.triedToCompile with
  | true =>
    rw [Machine.compile_of_tried compiler htried]
    exact refl m.host
  | false =>
    rw [Machine.compile_of_untried compiler htried]
    split
    · exact record _ m.host
    · exact (record _ m.host).trans (attach _ _)
    · exact compileAfresh compiler m.tried

end Host.Compiles

/-! ## What collaborators are shown -/

/-- An event of a request: no frame is made, and a thread that is shown has the levels of
another. -/
def Event.ShowsLevelsOf (s : ThreadState) (e : Event) : Prop :=
  e.isAllocation = false ∧ ∀ t, e.thread? = some t → t.stack = s.stack ∧ t.frames = s.frames

namespace RequestsLemmas

variable {m : Machine} {e : Event}

theorem shown_rememberEvents {outcome : Outcome} (he : e ∈ m.rememberEvents outcome) :
    e.ShowsLevelsOf m.state := by
  unfold Machine.rememberEvents at he
  split at he
  · exact absurd he List.not_mem_nil
  · rw [List.mem_singleton.mp he]
    cases outcome <;> exact ⟨rfl, fun _ ht => nomatch ht⟩

theorem shown_attachEvents {script : Script} (he : e ∈ m.attachEvents script) :
    e.ShowsLevelsOf m.state := by
  rcases List.mem_append.mp he with he | he
  · obtain ⟨code, _, rfl⟩ := List.mem_map.mp he
    exact ⟨rfl, fun t ht => Option.some.inj ht ▸ ⟨rfl, rfl⟩⟩
  · rw [List.mem_singleton.mp he]
    exact ⟨rfl, fun t ht => Option.some.inj ht ▸ ⟨rfl, rfl⟩⟩

theorem shown_freshEvents {compiler : String} (he : e ∈ m.freshEvents compiler) :
    e.ShowsLevelsOf m.state := by
  rcases List.mem_cons.mp he with rfl | he
  · exact ⟨rfl, fun t ht => Option.some.inj ht ▸ ⟨rfl, rfl⟩⟩
  · split at he
    · rcases List.mem_append.mp he with he | he
      · exact shown_rememberEvents he
      · exact shown_attachEvents he
    · rcases List.mem_cons.mp he with rfl | he
      · exact ⟨rfl, fun _ ht => nomatch ht⟩
      · rcases List.mem_append.mp he with he | he
        · exact shown_rememberEvents he
        · rw [List.mem_singleton.mp he]
          exact ⟨rfl, fun _ ht => nomatch ht⟩

end RequestsLemmas

/-- While a thread is compiled everyone is shown it with the same stack, and no frame is
made. -/
theorem Machine.shown_compile {compiler : String} {m : Machine} {e : Event}
    (he : e ∈ m.compileEvents compiler) : e.ShowsLevelsOf m.state := by
  unfold compileEvents at he
  split at he
  · exact absurd he List.not_mem_nil
  · split at he
    · rw [List.mem_singleton.mp he]
      exact ⟨rfl, fun _ ht => nomatch ht⟩
    · rcases List.mem_cons.mp he with rfl | he
      · exact ⟨rfl, fun _ ht => nomatch ht⟩
      · exact shown_attachEvents (m := m.tried) he
    · exact shown_freshEvents (m := m.tried) he

/-! ## What everything else writes -/

/-- A host comes to another, and nobody is shown a thread on the way. -/
def Host.ShowsNobody (h h' : Host) : Prop :=
  ∃ events : List Event, (∀ e ∈ events, e.thread? = none) ∧ h'.trace = events.reverse ++ h.trace

namespace Host.ShowsNobody

variable {g h h' : Host}

theorem of_trace (ht : h'.trace = h.trace) : h.ShowsNobody h' :=
  ⟨[], fun _ he => absurd he List.not_mem_nil, ht⟩

theorem trans (hg : g.ShowsNobody h) (hh : h.ShowsNobody h') : g.ShowsNobody h' := by
  obtain ⟨events, hevents, ht⟩ := hg
  obtain ⟨events', hevents', ht'⟩ := hh
  refine ⟨events ++ events', fun e he => ?_, ?_⟩
  · rcases List.mem_append.mp he with he | he
    · exact hevents e he
    · exact hevents' e he
  · rw [ht', ht, List.reverse_append, List.append_assoc]

theorem record {event : Event} (he : event.thread? = none) (h : Host) :
    h.ShowsNobody (h.record event) := by
  refine ⟨[event], fun e hmem => ?_, rfl⟩
  rw [List.mem_singleton.mp hmem, he]

theorem of_restacks {m n : Machine} (h : m.Restacks n) : m.host.ShowsNobody n.host := by
  obtain ⟨_, _, _, notes, rfl⟩ := h
  refine ⟨(notes.map Event.log).reverse, fun e he => ?_, by simp⟩
  obtain ⟨note, _, rfl⟩ := List.mem_map.mp (List.mem_reverse.mp he)
  rfl

theorem retire (m : Machine) : m.host.ShowsNobody m.retire.host := by
  obtain ⟨n, h, heq⟩ := m.retire_cases
  have hshown := of_restacks h
  rw [heq]
  exact hshown

theorem stopScript (m : Machine) : m.host.ShowsNobody m.stopScript.host := by
  rcases m.stopScript_cases with h | ⟨n, h, heq⟩
  · exact of_restacks h
  · have hshown := of_restacks h
    rw [heq]
    exact hshown

theorem createFrame (id : PoolId) (warpMode : Bool) (h : Host) :
    h.ShowsNobody (h.createFrame id warpMode).2 := by
  unfold Host.createFrame
  split
  · exact record rfl h
  · exact of_trace rfl

theorem releaseFrames (id : PoolId) (frames : List Frame) (h : Host) :
    h.ShowsNobody (h.releaseFrames id frames) := by
  unfold Host.releaseFrames
  split <;> exact of_trace rfl

theorem dropThread (name : String) (w : World) :
    w.host.ShowsNobody (w.dropThread name).host := by
  unfold World.dropThread
  split
  · exact of_trace rfl
  · exact releaseFrames _ _ _

theorem events (hs : h.ShowsNobody h') {e : Event} (he : e ∈ Host.eventsSince h h') :
    e.thread? = none := by
  obtain ⟨events, hevents, ht⟩ := hs
  rw [SharedOutcomesLemmas.eventsSince_of_trace ht] at he
  exact hevents e he

end Host.ShowsNobody

/-- An action that calls no foreign code and compiles nothing shows the thread to nobody. -/
theorem Action.showsNobody {action : Action} (hplain : action.isPlain)
    (hcompile : ∀ compiler, action ≠ .compile compiler) (m : Machine) :
    m.host.ShowsNobody ((Move.act action).apply m).host := by
  by_cases hstack : action.movesStack
  · exact .of_restacks (Action.restacks hstack m)
  · cases action with
    | stop => exact .stopScript m
    | retire => exact .retire m
    | kill => exact .retire (m.editState fun s => { s with isKilled := true })
    | report | settle | startWarpTimer | clearWarpTimer | sleep | setStatus | setKilled
    | setStackClick | setGlow | takeContext => exact .of_trace rfl
    | compile compiler => exact absurd rfl (hcompile compiler)
    | runProcedure | resume | callLegacy | bindLegacy => cases hplain
    | _ => exact absurd rfl hstack

/-- Whatever happens to a thread, unless it is asked to be compiled, shows it to nobody. -/
theorem Moment.Happens.showsNobody {x : Moment} {s t : List Coroutine} (hx : x.Happens s t)
    (hcompile : x.move.compiles = false) : x.machine.host.ShowsNobody x.after.host := by
  cases hx with
  | act hplain =>
    refine Action.showsNobody hplain (fun compiler heq => ?_) _
    subst heq
    cases hcompile
  | @use m _ step hplain =>
    cases step with
    | onThread | retire => cases hplain
    | _ => exact .of_trace rfl
  | @bind m _ block context =>
    have hbase := Host.ShowsNobody.of_restacks (.replaceBase block m)
    exact hbase
  | call | enterScript | enterCall | leaveCall => exact .record rfl _
  | @pass m _ _ =>
    simp only [Moment.after, Move.apply]
    split <;> exact .of_trace rfl
  | @leaveScript m _ c answers step =>
    have hhost : (Moment.after ⟨m, .leave c answers step true⟩).host =
        m.host.record (.leave c.name answers) :=
      Machine.host_conclude step (c.advance answers) (m.record (.leave c.name answers))
    rw [hhost]
    exact .record rfl m.host

/-- A command that no thread carries out shows a thread to nobody. -/
theorem World.showsNobody_order {w : World} {command : Command}
    (hactor : command.actor? = none) : w.host.ShowsNobody (Deed.order w command).hostAfter := by
  cases command with
  | act | stepCall => cases hactor
  | newThread thread target top container pool =>
    rw [ChronicleLemmas.hostAfter_of_perform rfl]
    split
    · exact .of_trace rfl
    · exact (Host.ShowsNobody.dropThread thread w).trans (.of_trace rfl)
  | dropThread thread => exact .dropThread thread w
  | makeCall thread code call arguments =>
    rw [ChronicleLemmas.hostAfter_of_perform rfl]
    split
    · exact .of_trace rfl
    · unfold World.makeCall
      split
      · exact .of_trace rfl
      · exact .record rfl _
  | createFrame slot warpMode handle => exact .createFrame _ _ _
  | releaseFrame slot handle =>
    rw [ChronicleLemmas.hostAfter_of_perform rfl, World.releaseFrame]
    split
    · exact .of_trace rfl
    · exact .releaseFrames _ _ _
  | editFrame slot edit =>
    rw [ChronicleLemmas.hostAfter_of_perform rfl, World.editFrame]
    split <;> exact .of_trace rfl
  | remember container top outcome => exact .record rfl _
  | _ => exact .of_trace rfl

/-- Nothing that happens in a run shows a thread to anyone, but a request to compile. -/
theorem Deed.Joins.shows {h h' : Host} {d : Deed} (hd : d.Joins h h') :
    d.host.ShowsNobody d.hostAfter ∨ ∃ thread m compiler,
      d = .of thread ⟨m, .act (.compile compiler)⟩ ∧ d.events = m.compileEvents compiler := by
  obtain ⟨_, _, hjoin⟩ := hd
  cases d with
  | of thread x =>
    obtain ⟨_, _, hx⟩ := hjoin
    cases hcompile : x.move.compiles with
    | false => exact .inl (hx.showsNobody hcompile)
    | true =>
      obtain ⟨m, move⟩ := x
      obtain ⟨compiler, rfl⟩ := Move.eq_compile hcompile
      exact .inr ⟨thread, m, compiler, rfl, m.eventsSince_compile compiler⟩
  | order w command => exact .inl (World.showsNobody_order hjoin)
  | clock w time => exact .inl (.of_trace rfl)

/-! ## The trace of a run -/

namespace RequestsLemmas

variable {h h' : Host} {d : Deed}

/-- What happens adds its events to the trace. -/
theorem trace_deed (hd : d.Joins h h') : h'.trace = d.events.reverse ++ h.trace := by
  have hshows := hd.shows
  obtain ⟨rfl, rfl, _⟩ := hd
  rcases hshows with ⟨events, _, ht⟩ | ⟨thread, m, compiler, rfl, hevents⟩
  · rw [Deed.events, SharedOutcomesLemmas.eventsSince_of_trace ht, ht]
  · rw [hevents]
    exact m.trace_compile compiler

/-- The trace of a run is the events of what happens in it. -/
theorem trace_path {deeds : List Deed} (hpath : Path Deed.Joins h deeds h') :
    h'.trace = (deeds.flatMap Deed.events).reverse ++ h.trace := by
  induction hpath with
  | nil => rfl
  | cons hd _ ih =>
    rw [ih, trace_deed hd, List.flatMap_cons, List.reverse_append, List.append_assoc]

end RequestsLemmas

end BlockThreads
