import BlockThreads.Proofs.Moments

/-!
# What a move can change

Most moves work on the stack of a thread. Whatever they do to the stack and its frames,
they change nothing else of the thread, and of the host only the pools and the log. The
other moves change a few fields each. This module says which, once for all, so that an
invariant need not look into the operations.

Results:
1. `Restacks`: a machine comes from another by work on the stack. `Action.restacks`: the
   actions that do no more than that.
2. `compile_cases`, `compile_thread`: what a request to compile can do to a thread.
3. `conclude_of_last`, `conclude_of_not_last`, `thread_leave`: what the end of a step does to
   a thread.
4. `Moment.Happens.spares`: what happens to a thread spares its script, unless the script
   is stepped or compiled.
5. `Moment.Happens.quiet`: what happens to a thread changes only the pools, the clock and
   the trace of its host, unless the thread is asked to be compiled.
-/

namespace BlockThreads

/-- Whether a coroutine answers that it has made its last step. -/
def Step.isLast : Step → Bool
  | .completed _ => true
  | .suspended status => decide (status = .done)

namespace Machine

/-! ## Work on the stack -/

/-- A machine comes from another by work on the stack: its stack, its frames and the
pools may be any, and notes may have been written. -/
def Restacks (m n : Machine) : Prop :=
  ∃ (stack : List (Option String)) (frames : List Frame) (pools : Table PoolId Pool)
    (notes : List Note),
    n = { thread := { m.thread with stack, frames },
          host := { m.host with pools, trace := notes.map Event.log ++ m.host.trace } }

namespace Restacks

variable {l m n : Machine}

theorem refl (m : Machine) : m.Restacks m :=
  ⟨m.thread.stack, m.thread.frames, m.host.pools, [], rfl⟩

theorem trans (h : l.Restacks m) (h' : m.Restacks n) : l.Restacks n := by
  obtain ⟨_, _, _, notes, rfl⟩ := h
  obtain ⟨stack, frames, pools, notes', rfl⟩ := h'
  exact ⟨stack, frames, pools, notes' ++ notes, by simp [List.append_assoc]⟩

theorem status (h : m.Restacks n) : n.state.status = m.state.status := by
  obtain ⟨_, _, _, _, rfl⟩ := h
  rfl

theorem edit (m : Machine) (edit : ThreadState → ThreadState)
    (h : edit m.state = { m.state with stack := (edit m.state).stack,
                                       frames := (edit m.state).frames }) :
    m.Restacks (m.editState edit) := by
  refine ⟨(edit m.state).stack, (edit m.state).frames, m.host.pools, [], ?_⟩
  simp only [editState, Thread.editState]
  have hs : edit m.thread.toThreadState = _ := h
  rw [hs]
  rfl

theorem createFrame (warpMode : Bool) (m : Machine) : m.Restacks (m.createFrame warpMode).2 := by
  refine ⟨m.thread.stack, m.thread.frames, (m.createFrame warpMode).2.host.pools,
    if (m.host.pool m.thread.pool).isEmpty then [.allocatingFrame] else [], ?_⟩
  unfold Machine.createFrame Host.createFrame
  cases (m.host.pool m.thread.pool).isEmpty <;> rfl

theorem releaseFrames (released : List Frame) (m : Machine) :
    m.Restacks (m.releaseFrames released) := by
  refine ⟨m.thread.stack, m.thread.frames, (m.releaseFrames released).host.pools, [], ?_⟩
  unfold Machine.releaseFrames editHost Host.releaseFrames
  cases m.host.recycles <;> rfl

theorem log (note : Note) (m : Machine) : m.Restacks (m.log note) :=
  ⟨m.thread.stack, m.thread.frames, m.host.pools, [note], rfl⟩

theorem pushFrame (m : Machine) : m.Restacks m.pushFrame :=
  (createFrame m.state.isWarpMode m).trans (edit _ _ rfl)

theorem push (id : String) (m : Machine) : m.Restacks (m.push id) := by
  have h : m.Restacks (m.editState fun s => { s with stack := some id :: s.stack }) :=
    edit m _ rfl
  simp only [Machine.push]
  split
  · exact h.trans (pushFrame _)
  · exact h

theorem pushAll (ids : List String) (m : Machine) : m.Restacks (m.pushAll ids) := by
  induction ids generalizing m with
  | nil => exact refl m
  | cons id ids ih => exact (push id m).trans (ih (m.push id))

theorem drop (m : Machine) : m.Restacks m.drop :=
  (releaseFrames _ m).trans (edit _ _ rfl)

theorem reuse (id : Option String) (m : Machine) :
    m.Restacks (m.editState (ThreadState.reuse id)) := by
  refine edit m _ ?_
  unfold ThreadState.reuse
  split <;> rfl

theorem goToNext (m : Machine) : m.Restacks m.goToNext := reuse m.nextId m

theorem unwind (levels : Nat) (m : Machine) : m.Restacks (unwind levels m) := by
  induction levels generalizing m with
  | zero => exact refl m
  | succ levels ih =>
    -- each level is dropped, or the unwinding ends there
    unfold Machine.unwind
    split
    · exact refl m
    · split
      · exact refl m
      · split
        · exact goToNext m
        · exact (drop m).trans (ih m.drop)

theorem replaceBase (id : String) (m : Machine) : m.Restacks (m.replaceBase id) := by
  unfold Machine.replaceBase
  split
  · exact push id m
  · exact edit m _ rfl

theorem attempt {change : ThreadState → Except Misuse ThreadState} {m : Machine}
    (h : ∀ s, change m.state = .ok s →
      s = { m.state with stack := s.stack, frames := s.frames }) :
    m.Restacks (m.attempt change).2 := by
  unfold Machine.attempt
  split
  · next s hs => exact edit m (fun _ => s) (h s hs)
  · exact refl m

theorem initParams (m : Machine) : m.Restacks (m.attempt ThreadState.initParams).2 := by
  refine attempt fun s hs => ?_
  unfold ThreadState.initParams at hs
  split at hs
  · simp at hs
  · rw [← Except.ok.inj hs]

theorem pushParam (name : String) (value : Value) (m : Machine) :
    m.Restacks (m.attempt (ThreadState.pushParam name value)).2 := by
  refine attempt fun s hs => ?_
  unfold ThreadState.pushParam at hs
  split at hs
  · simp at hs
  · split at hs
    · simp at hs
    · rw [← Except.ok.inj hs]

end Restacks

/-! ## Finishing -/

/-- What stopping the script does: work on the stack, and if nothing is left on it the
thread is done. -/
theorem stopScript_cases (m : Machine) :
    m.Restacks m.stopScript ∨ ∃ n, m.Restacks n ∧ m.stopScript = n.editState ThreadState.finish := by
  have h : m.Restacks (unwind m.state.stack.length m) := Restacks.unwind _ m
  simp only [stopScript]
  split
  · exact .inr ⟨_, h, rfl⟩
  · exact .inl h

/-- A thread that retires drops its stack and is done. -/
theorem retire_cases (m : Machine) :
    ∃ n, m.Restacks n ∧ m.retire = n.editState ThreadState.finish := by
  have h : m.Restacks ((m.log (.retiring m.thread.name)).releaseFrames m.state.frames.reverse) :=
    (Restacks.log _ m).trans (Restacks.releaseFrames _ _)
  refine ⟨_, h.trans (Restacks.edit _ (fun s => { s with stack := [], frames := [] }) rfl), rfl⟩

/-! ## Compiling -/

/-- What attaching a script changes of a thread: the coroutine, the procedures and what
is known of the script, and perhaps its glow. -/
theorem attach_thread (script : Script) (m : Machine) :
    ∃ (glow : Bool) (blockGlow : Option String), (m.attach script).thread =
      { m.thread with
        procedures := script.factories.map fun _ factory => factory m.thread
        coroutine := some (script.start (m.bindProcedures script).thread)
        executableHat := script.executableHat
        isCompiled := true
        glow, blockGlow } := by
  simp only [attach, requestGlow]
  split
  · exact ⟨m.thread.glow, m.thread.blockGlow, rfl⟩
  · exact ⟨true, some m.thread.top, rfl⟩

theorem rememberOutcome_thread (outcome : Outcome) (m : Machine) :
    (m.rememberOutcome outcome).thread = m.thread := by
  unfold rememberOutcome
  split <;> rfl

/-- What a compiler's answer is good for. -/
theorem compileAfresh_eq (compiler : String) (m : Machine) :
    m.compileAfresh compiler =
      match (m.callCompiler compiler).1 with
      | .ok script => ((m.callCompiler compiler).2.rememberOutcome (.ok script)).attach script
      | .error error =>
        (((m.callCompiler compiler).2.log
          (.cannotCompile m.thread.target.name error)).rememberOutcome (.error error)).record
            (.compileError m.thread.target error) := rfl

/-- The machine whose thread was asked to be compiled. -/
def tried (m : Machine) : Machine := m.editState fun s => { s with triedToCompile := true }

theorem compile_of_untried (compiler : String) {m : Machine}
    (h : m.state.triedToCompile = false) :
    m.compile compiler =
      match m.tried.rememberedOutcome? with
      | some (.error error) => m.tried.log (.notCompiling m.thread.top error)
      | some (.ok script) => (m.tried.log (.usingRemembered m.thread.top)).attach script
      | none => m.tried.compileAfresh compiler := by
  unfold compile
  rw [h]
  rfl

/-- What a request to compile does to a thread that has not been asked before: either it
is noted, or besides a script is attached. -/
theorem compile_cases (compiler : String) {m : Machine}
    (h : m.state.triedToCompile = false) :
    (m.compile compiler).thread = m.tried.thread ∨
      ∃ (script : Script) (n : Machine), n.thread = m.tried.thread ∧
        m.compile compiler = n.attach script := by
  rw [compile_of_untried compiler h]
  split
  · exact .inl rfl
  · next script _ =>
    exact .inr ⟨script, m.tried.log (.usingRemembered m.thread.top), rfl, rfl⟩
  · rw [compileAfresh_eq]
    split
    · next script _ =>
      exact .inr ⟨script, (m.tried.callCompiler compiler).2.rememberOutcome (.ok script),
        rememberOutcome_thread _ _, rfl⟩
    · next error _ =>
      exact .inl (rememberOutcome_thread (.error error) _)

/-- What a request to compile changes of a thread: what belongs to its script, and perhaps
its glow. -/
theorem compile_thread (compiler : String) (m : Machine) :
    ∃ (procedures : Table String Procedure) (coroutine : Option Coroutine)
      (triedToCompile isCompiled executableHat glow : Bool) (blockGlow : Option String),
      (m.compile compiler).thread =
        { m.thread with
          procedures, coroutine, triedToCompile, isCompiled, executableHat, glow, blockGlow } := by
  cases h : m.state.triedToCompile with
  | true =>
    rw [compile_of_tried compiler h]
    exact ⟨_, _, _, _, _, _, _, rfl⟩
  | false =>
    rcases compile_cases compiler h with hc | ⟨script, n, hn, hc⟩
    · exact ⟨_, _, _, _, _, _, _, hc⟩
    · obtain ⟨glow, blockGlow, ha⟩ := attach_thread script n
      rw [← hc, hn] at ha
      exact ⟨_, _, _, _, _, _, _, ha⟩

/-- After a request to compile a thread was asked. -/
theorem triedToCompile_compile (compiler : String) (m : Machine) :
    (m.compile compiler).thread.triedToCompile := by
  cases htried : m.state.triedToCompile with
  | true =>
    rw [compile_of_tried compiler htried]
    exact htried
  | false =>
    rcases compile_cases compiler htried with hc | ⟨script, n, hn, hc⟩
    · rw [hc]
      rfl
    · obtain ⟨glow, blockGlow, ha⟩ := n.attach_thread script
      rw [hc, ha, hn]
      rfl

@[simp]
theorem status_compile (compiler : String) (m : Machine) :
    (m.compile compiler).state.status = m.state.status := by
  obtain ⟨_, _, _, _, _, _, _, h⟩ := compile_thread compiler m
  exact congrArg (fun t => t.status) h

/-! ## The end of a step -/

/-- With its last step a thread is done: the coroutine says so, or the thread is done by
now whatever the coroutine says. -/
theorem conclude_of_last {step : Step} {m : Machine} (coroutine : Coroutine)
    (h : m.state.status = .done ∨ step.isLast) :
    (m.conclude step coroutine).2 = m.editState ThreadState.finish := by
  unfold conclude
  split
  · rfl
  · next hd =>
    have hlast : step.isLast := h.resolve_left hd
    cases step with
    | completed value => rfl
    | suspended status =>
      obtain rfl : status = .done := of_decide_eq_true hlast
      rfl

/-- With any other step a thread is suspended and has the coroutine again. -/
theorem conclude_of_not_last {step : Step} {m : Machine} (coroutine : Coroutine)
    (h : ¬ (m.state.status = .done ∨ step.isLast)) :
    ∃ status, step = .suspended status ∧ m.conclude step coroutine = (.suspended status,
      { m with thread := { m.thread with status, coroutine := some coroutine } }) := by
  obtain ⟨hd, hlast⟩ := not_or.mp h
  cases step with
  | completed value => exact absurd rfl hlast
  | suspended status =>
    refine ⟨status, rfl, ?_⟩
    unfold conclude
    rw [if_neg hd]
    cases status <;> first | exact absurd rfl hlast | rfl

/-- What the end of a step changes: the status and the coroutine, and perhaps the glow. -/
theorem conclude_machine (step : Step) (c : Coroutine) (m : Machine) :
    ∃ (status : Status) (glow : Bool) (coroutine : Option Coroutine),
      (m.conclude step c).2 = { m with thread := { m.thread with status, glow, coroutine } } := by
  by_cases hlast : m.state.status = .done ∨ step.isLast
  · rw [conclude_of_last c hlast]
    exact ⟨.done, false, m.thread.coroutine, rfl⟩
  · obtain ⟨status, rfl, h⟩ := conclude_of_not_last c hlast
    rw [h]
    exact ⟨status, m.thread.glow, some c, rfl⟩

/-- What the end of a step changes of a thread. -/
theorem thread_leave (c : Coroutine) (answers : List Answer) (step : Step) (m : Machine) :
    ∃ (status : Status) (glow : Bool) (coroutine : Option Coroutine),
      ((Move.leave c answers step true).apply m).thread =
        { m.thread with status, glow, coroutine } := by
  obtain ⟨status, glow, coroutine, h⟩ :=
    conclude_machine step (c.advance answers) (m.record (.leave c.name answers))
  exact ⟨status, glow, coroutine, congrArg Machine.thread h⟩

end Machine

/-! ## Actions -/

/-- Whether an action does nothing but work on the stack. -/
def Action.movesStack : Action → Bool
  | .report _ | .stop | .retire | .kill | .settle _ | .startWarpTimer | .clearWarpTimer
  | .sleep _ | .setStatus _ | .setKilled _ | .setStackClick _ | .setGlow _ _ | .compile _
  | .runProcedure _ _ | .resume | .takeContext | .callLegacy _ _ _ | .bindLegacy _ _ _ => false
  | _ => true

/-- The actions that do nothing but work on the stack. -/
theorem Action.restacks {action : Action} (h : action.movesStack) (m : Machine) :
    m.Restacks ((Move.act action).apply m) := by
  cases action with
  | push id => exact .push id m
  | pushAll ids => exact .pushAll ids m
  | enter id => exact (Machine.Restacks.push id m).trans (.edit _ _ rfl)
  | reuse id => exact .reuse id m
  | pop => exact .drop m
  | editFrame edit => exact .edit m _ rfl
  | editParentFrame edit => exact .edit m _ rfl
  | resetFrame => exact .edit m _ rfl
  | reuseFrame => exact .edit m _ rfl
  | initParams => exact .initParams m
  | pushParam name value => exact .pushParam name value m
  | next => exact .goToNext m
  | peek | peekFrame | peekParentFrame | getParam | getAllParams | atStackTop | isRecursive
  | isWarpMode | warpBudgetExceeded | names | shouldCompile | hasProcedure | state =>
    exact .refl m
  | _ => simp [Action.movesStack] at h

/-! ## The host -/

/-- Whether an event is about a compiler: it is called, or its failure is made known. -/
def Event.isOfCompiler : Event → Bool
  | .compile _ _ _ => true
  | .compileError _ _ => true
  | _ => false

/-- A host comes from another by something that has nothing to do with compilers: only the
pools, the clock and the trace may differ, and no event is about a compiler. -/
def Host.Quiet (h h' : Host) : Prop :=
  ∃ (pools : Table PoolId Pool) (now : Nat) (events : List Event),
    (∀ e ∈ events, e.isOfCompiler = false) ∧
      h' = { h with pools, now, trace := events.reverse ++ h.trace }

namespace Host.Quiet

variable {g h h' : Host}

theorem refl (h : Host) : h.Quiet h :=
  ⟨h.pools, h.now, [], fun _ he => absurd he List.not_mem_nil, rfl⟩

theorem trans (hg : g.Quiet h) (hh : h.Quiet h') : g.Quiet h' := by
  obtain ⟨_, _, events, hevents, rfl⟩ := hg
  obtain ⟨pools, now, events', hevents', rfl⟩ := hh
  refine ⟨pools, now, events ++ events', fun e he => ?_, by simp [List.append_assoc]⟩
  rcases List.mem_append.mp he with he | he
  · exact hevents e he
  · exact hevents' e he

theorem record {event : Event} (he : event.isOfCompiler = false) (h : Host) :
    h.Quiet (h.record event) := by
  refine ⟨h.pools, h.now, [event], fun e hmem => ?_, rfl⟩
  rw [List.mem_singleton.mp hmem, he]

theorem recordAll {events : List Event} (he : ∀ e ∈ events, e.isOfCompiler = false) (h : Host) :
    h.Quiet (h.recordAll events) :=
  ⟨h.pools, h.now, events, he, rfl⟩

theorem setPools (pools : Table PoolId Pool) (h : Host) : h.Quiet { h with pools } :=
  ⟨pools, h.now, [], fun _ he => absurd he List.not_mem_nil, rfl⟩

theorem setClock (now : Nat) (h : Host) : h.Quiet { h with now } :=
  ⟨h.pools, now, [], fun _ he => absurd he List.not_mem_nil, rfl⟩

theorem createFrame (id : PoolId) (warpMode : Bool) (h : Host) :
    h.Quiet (h.createFrame id warpMode).2 := by
  unfold Host.createFrame
  split
  · exact (record rfl h).trans (setPools _ _)
  · exact setPools _ h

theorem releaseFrames (id : PoolId) (frames : List Frame) (h : Host) :
    h.Quiet (h.releaseFrames id frames) := by
  unfold Host.releaseFrames
  split
  · exact setPools _ h
  · exact refl h

end Host.Quiet

/-- A host gives out frames and takes frames back, and writes to the trace. -/
inductive Host.Serves : Host → Host → Prop
  | refl (h : Host) : Serves h h
  | trans {g h h' : Host} : Serves g h → Serves h h' → Serves g h'
  | record {event : Event} (h : Host) :
      event.isOfCompiler = false → Serves h (h.record event)
  | openPool (id : PoolId) (h : Host) : Serves h (h.setPool id (h.pool id))
  | createFrame (id : PoolId) (warpMode : Bool) (h : Host) :
      Serves h (h.createFrame id warpMode).2
  | releaseFrames (id : PoolId) (frames : List Frame) (h : Host) :
      Serves h (h.releaseFrames id frames)

theorem Host.Serves.quiet {h h' : Host} (hs : h.Serves h') : h.Quiet h' := by
  induction hs with
  | refl h => exact .refl h
  | trans _ _ ih ih' => exact ih.trans ih'
  | record h he => exact .record he h
  | openPool id h => exact .setPools _ h
  | createFrame id warpMode h => exact .createFrame id warpMode h
  | releaseFrames id frames h => exact .releaseFrames id frames h

/-- Work on the stack has nothing to do with compilers. -/
theorem Machine.Restacks.quiet {m n : Machine} (h : m.Restacks n) : m.host.Quiet n.host := by
  obtain ⟨_, _, pools, notes, rfl⟩ := h
  refine ⟨pools, m.host.now, (notes.map Event.log).reverse, fun e he => ?_, by simp⟩
  obtain ⟨note, _, rfl⟩ := List.mem_map.mp (List.mem_reverse.mp he)
  rfl

/-! ## The script of a thread -/

/-- A machine comes from another by something that spares the script of the thread and has
nothing to do with compilers. -/
structure Machine.Spares (m n : Machine) : Prop where
  coroutine : n.thread.coroutine = m.thread.coroutine
  tried : n.thread.triedToCompile = m.thread.triedToCompile
  host : m.host.Quiet n.host

namespace Machine.Spares

variable {m n : Machine}

theorem refl (m : Machine) : m.Spares m := ⟨rfl, rfl, .refl _⟩

theorem of_restacks (h : m.Restacks n) : m.Spares n := by
  have hquiet := h.quiet
  obtain ⟨_, _, _, _, rfl⟩ := h
  exact ⟨rfl, rfl, hquiet⟩

/-- The open part of a thread may change in any way, but for what is known of the script. -/
theorem editState (h : m.Spares n) {edit : ThreadState → ThreadState}
    (hedit : ∀ s, (edit s).triedToCompile = s.triedToCompile) : m.Spares (n.editState edit) :=
  ⟨h.coroutine, (hedit _).trans h.tried, h.host⟩

theorem retire (m : Machine) : m.Spares m.retire := by
  obtain ⟨n, h, heq⟩ := m.retire_cases
  rw [heq]
  exact (of_restacks h).editState fun _ => rfl

theorem stopScript (m : Machine) : m.Spares m.stopScript := by
  rcases m.stopScript_cases with h | ⟨n, h, heq⟩
  · exact of_restacks h
  · rw [heq]
    exact (of_restacks h).editState fun _ => rfl

end Machine.Spares

/-- An action that calls no foreign code and compiles nothing spares the script. -/
theorem Action.spares {action : Action} (hplain : action.isPlain)
    (hcompile : ∀ compiler, action ≠ .compile compiler) (m : Machine) :
    m.Spares ((Move.act action).apply m) := by
  by_cases hstack : action.movesStack
  · exact .of_restacks (Action.restacks hstack m)
  · cases action with
    | stop => exact .stopScript m
    | retire => exact .retire m
    | kill =>
      have hretire := Machine.Spares.retire (m.editState fun s => { s with isKilled := true })
      exact ⟨hretire.coroutine, hretire.tried, hretire.host⟩
    | settle value =>
      refine (Machine.Spares.refl m).editState fun s => ?_
      unfold ThreadState.settle
      split <;> rfl
    | sleep ms => exact ⟨rfl, rfl, .setClock _ _⟩
    | report | startWarpTimer | clearWarpTimer | setStatus | setKilled | setStackClick | setGlow
    | takeContext => exact ⟨rfl, rfl, .refl _⟩
    | compile compiler => exact absurd rfl (hcompile compiler)
    | runProcedure | resume | callLegacy | bindLegacy => simp [Action.isPlain] at hplain
    | _ => simp [Action.movesStack] at hstack

/-- A use of a block utility that calls no foreign code spares the script. -/
theorem Use.spares {step : Use} (hplain : step.isPlain) (m : Machine) :
    m.Spares ((Move.use step).apply m) := by
  cases step with
  | onThread | retire => simp [Use.isPlain] at hplain
  | _ => exact ⟨rfl, rfl, .refl _⟩

/-! ## Moments -/

def Move.compiles : Move → Bool
  | .act (.compile _) => true
  | _ => false

theorem Move.eq_compile {move : Move} (h : move.compiles) :
    ∃ compiler, move = .act (.compile compiler) := by
  cases move with
  | act action =>
    cases action with
    | compile compiler => exact ⟨compiler, rfl⟩
    | _ => simp [Move.compiles] at h
  | _ => simp [Move.compiles] at h

/-- Whether the coroutine of the script starts or ends a step. -/
def Move.isOfScript : Move → Bool
  | .enter _ true => true
  | .leave _ _ _ true => true
  | _ => false

/-- Whatever happens to a thread spares its script, unless the script is stepped or the
thread is asked to be compiled. -/
theorem Moment.Happens.spares {x : Moment} {s t : List Coroutine} (hx : x.Happens s t)
    (hscript : x.move.isOfScript = false) (hcompile : x.move.compiles = false) :
    s = t ∧ x.machine.Spares x.after := by
  cases hx with
  | act hplain =>
    refine ⟨rfl, Action.spares hplain (fun compiler heq => ?_) _⟩
    subst heq
    simp [Move.compiles] at hcompile
  | use hplain => exact ⟨rfl, Use.spares hplain _⟩
  | @bind m _ block context =>
    exact ⟨rfl, (Machine.Spares.of_restacks (.replaceBase block m)).editState fun _ => rfl⟩
  | call | enterCall | leaveCall => exact ⟨rfl, rfl, rfl, .record rfl _⟩
  | @pass m _ _ =>
    refine ⟨rfl, ?_⟩
    simp only [Moment.after, Move.apply]
    split <;> exact ⟨rfl, rfl, .refl _⟩
  | enterScript | leaveScript => simp [Move.isOfScript] at hscript

theorem Machine.host_conclude (step : Step) (c : Coroutine) (m : Machine) :
    (m.conclude step c).2.host = m.host := by
  obtain ⟨_, _, _, h⟩ := conclude_machine step c m
  rw [h]

/-- Whatever happens to a thread, unless it is asked to be compiled, has nothing to do with
compilers. -/
theorem Moment.Happens.quiet {x : Moment} {s t : List Coroutine} (hx : x.Happens s t)
    (hcompile : x.move.compiles = false) : x.machine.host.Quiet x.after.host := by
  cases hscript : x.move.isOfScript with
  | false => exact (hx.spares hscript hcompile).2.host
  | true =>
    -- a step of the script is only written to the trace
    cases hx with
    | enterScript => exact .record rfl _
    | @leaveScript m _ c answers step =>
      have hhost : (Moment.after ⟨m, .leave c answers step true⟩).host =
          m.host.record (.leave c.name answers) :=
        Machine.host_conclude step (c.advance answers) (m.record (.leave c.name answers))
      rw [hhost]
      exact .record rfl m.host
    | _ => simp [Move.isOfScript] at hscript

end BlockThreads
