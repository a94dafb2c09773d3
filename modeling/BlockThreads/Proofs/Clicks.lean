import BlockThreads.Proofs.Recycling
import BlockThreads.Proofs.Requests
import BlockThreads.Scripted

/-!
# Clicked threads and what is remembered

A thread that was started by a click runs its script without the hat. So what a compiler
answers for it is not what it would answer for other threads with the script, and must not
be remembered for them; nor must what is remembered be given to it. This module compares
two runs that ask threads to be compiled: one with all threads, and one in which the clicked
threads are never asked. Nobody can tell the runs apart but the clicked threads themselves
and the compilers, which are called more often.

Results:
1. `Machine.Agrees.compile`: a request comes to the same on hosts that agree.
2. `Machine.agrees_of_clicked`: a request of a clicked thread leaves what it finds.
3. `clicks_leave_no_trace`: the two runs end with the same containers, and each thread that
   was not clicked goes through the same in both; and a clicked thread calls its compiler at
   its first request, whatever is remembered.
-/

namespace BlockThreads

/-- What a compiler answers depends only on the thread. -/
def Compiler.IsSteady (c : Compiler) : Prop := ∀ i j t, c.compile i t = c.compile j t

/-- The event without the count of the compiler that is called. -/
def Event.uncounted : Event → Event
  | .compile compiler _ thread => .compile compiler 0 thread
  | e => e

/-- Whether a command asks a thread to be compiled, or works on the containers. -/
def Command.isOfCompilation : Command → Bool
  | .act _ (.compile _) => true
  | .insertBlock _ _ _ => true
  | .getBlock _ _ => true
  | .nextOf _ _ => true
  | .outcome _ _ => true
  | .remember _ _ _ => true
  | .forget _ => true
  | _ => false

/-- What can be told of something that happens to a thread: what the thread was and has
become, and the events but for the counts of compilers. -/
def Moment.account (x : Moment) : Thread × List Event × Thread :=
  (x.machine.thread, (Host.eventsSince x.machine.host x.after.host).map Event.uncounted,
    x.after.thread)

/-- Whether a thread was started by a click. -/
def World.isClicked (w : World) (name : String) : Bool :=
  (w.threads.get? name).any fun t => t.stackClick

/-- The tasks that no clicked thread carries out. -/
def World.unclicked (w : World) (tasks : List Task) : List Task :=
  tasks.filter fun task => !task.command.actor?.any w.isClicked

/-- The same thread on a host with other containers. -/
def Machine.withContainers (containers : Table ContainerId Container) (m : Machine) : Machine :=
  m.editHost fun h => { h with containers }

/-! ## Hosts that agree -/

/-- Two hosts agree on what is remembered, and on what compilers answer to a thread. -/
structure Host.Agrees (h g : Host) : Prop where
  containers : g.containers = h.containers
  palette : g.palette = h.palette
  answer : ∀ name i j t, (g.compiler name).compile i t = (h.compiler name).compile j t

/-- The same thread runs on two hosts that agree. -/
structure Machine.Agrees (m n : Machine) : Prop where
  thread : n.thread = m.thread
  host : m.host.Agrees n.host

namespace ClicksLemmas

open SharedOutcomesLemmas RequestsLemmas

variable {h g : Host} {m n : Machine}

theorem state_of_thread (ht : n.thread = m.thread) : n.state = m.state :=
  congrArg Thread.toThreadState ht

theorem container_agrees (hg : h.Agrees g) (id : ContainerId) : g.container id = h.container id :=
  container_of_containers hg.containers id

/-- How often compilers are called, the trace and the clock do not matter. -/
theorem agrees_trans {h' g' : Host} (hg : h.Agrees g)
    (hcontainers : h'.containers = h.containers) (hpalette : h'.palette = h.palette)
    (hcompile : ∀ name, (h'.compiler name).compile = (h.compiler name).compile)
    (hcontainers' : g'.containers = g.containers) (hpalette' : g'.palette = g.palette)
    (hcompile' : ∀ name, (g'.compiler name).compile = (g.compiler name).compile) :
    h'.Agrees g' where
  containers := by rw [hcontainers', hg.containers, hcontainers]
  palette := by rw [hpalette', hg.palette, hpalette]
  answer name i j t := by rw [hcompile', hcompile, hg.answer name i j t]

theorem agrees_record (ha : m.Agrees n) (event event' : Event) :
    (m.record event).Agrees (n.record event') :=
  ⟨ha.thread, ⟨ha.host.containers, ha.host.palette, ha.host.answer⟩⟩

theorem agrees_editState (ha : m.Agrees n) (edit : ThreadState → ThreadState) :
    (m.editState edit).Agrees (n.editState edit) :=
  ⟨congrArg (Thread.editState edit) ha.thread, ha.host⟩

theorem agrees_editContainer (hg : h.Agrees g) (id : ContainerId)
    (edit : Container → Container) :
    (h.editContainer id edit).Agrees (g.editContainer id edit) := by
  refine ⟨?_, hg.palette, hg.answer⟩
  simp only [Host.editContainer, hg.containers, container_agrees hg]

/-! ## Requests -/

theorem attach_eq (script : Script) (m : Machine) :
    (m.attach script).thread =
      { m.thread with
        procedures := script.factories.map fun _ factory => factory m.thread
        coroutine := some (script.start (m.bindProcedures script).thread)
        executableHat := script.executableHat
        isCompiled := true
        glow := if (m.host.container m.thread.container).forceNoGlow then m.thread.glow else true
        blockGlow := if (m.host.container m.thread.container).forceNoGlow then m.thread.blockGlow
          else some m.thread.top } := by
  have hcontainer : ((m.bindProcedures script).startScript script).host.container
      ((m.bindProcedures script).startScript script).thread.container =
        m.host.container m.thread.container := rfl
  simp only [Machine.attach, Machine.requestGlow, hcontainer]
  cases (m.host.container m.thread.container).forceNoGlow <;> rfl

/-- What attaching a script makes of a thread depends on the thread and on whether its
scripts may glow. -/
theorem thread_attach (ht : n.thread = m.thread)
    (hglow : (n.host.container m.thread.container).forceNoGlow =
      (m.host.container m.thread.container).forceNoGlow) (script : Script) :
    (n.attach script).thread = (m.attach script).thread := by
  rw [attach_eq, attach_eq, Machine.bindProcedures, Machine.bindProcedures, ht, hglow]

theorem agrees_attach (ha : m.Agrees n) (script : Script) :
    (m.attach script).Agrees (n.attach script) := by
  refine ⟨thread_attach ha.thread (by rw [container_agrees ha.host]) script, ?_⟩
  have hquiet := quiet_attach script m
  have hquiet' := quiet_attach script n
  obtain ⟨_, _, _, _, hm⟩ := hquiet
  obtain ⟨_, _, _, _, hn⟩ := hquiet'
  rw [hm, hn]
  exact ⟨ha.host.containers, ha.host.palette, ha.host.answer⟩

theorem outcomePlace_agrees (ha : m.Agrees n) :
    n.host.outcomePlace n.thread = m.host.outcomePlace m.thread := by
  simp only [Host.outcomePlace, container_agrees ha.host, ha.host.palette, ha.thread]

theorem rememberedOutcome_agrees (ha : m.Agrees n) :
    n.rememberedOutcome? = m.rememberedOutcome? := by
  rw [Machine.rememberedOutcome?, Machine.rememberedOutcome?, state_of_thread ha.thread,
    outcomePlace_agrees ha, container_agrees ha.host, ha.thread]

theorem agrees_rememberOutcome (ha : m.Agrees n) (outcome : Outcome) :
    (m.rememberOutcome outcome).Agrees (n.rememberOutcome outcome) := by
  unfold Machine.rememberOutcome
  rw [state_of_thread ha.thread]
  split
  · exact ha
  · refine ⟨ha.thread, ?_⟩
    have hlog := agrees_record ha (.log (.remembering m.thread.top outcome))
      (.log (.remembering m.thread.top outcome))
    have hedit := agrees_editContainer hlog.host (m.host.outcomePlace m.thread)
      (Container.remember m.thread.top outcome)
    rw [outcomePlace_agrees ha, ha.thread]
    exact hedit

/-- Both compilers answer the same. -/
theorem answer_agrees (ha : m.Agrees n) (compiler : String) :
    (n.callCompiler compiler).1 = (m.callCompiler compiler).1 := by
  simp only [Machine.callCompiler, ha.thread]
  exact ha.host.answer compiler _ _ m.thread

theorem agrees_callCompiler (ha : m.Agrees n) (compiler : String) :
    (m.callCompiler compiler).2.Agrees (n.callCompiler compiler).2 :=
  ⟨ha.thread, agrees_trans ha.host rfl rfl (grows_callCompiler compiler m).compile rfl rfl
    (grows_callCompiler compiler n).compile⟩

theorem agrees_compileAfresh (ha : m.Agrees n) (compiler : String) :
    (m.compileAfresh compiler).Agrees (n.compileAfresh compiler) := by
  have hcalled := agrees_callCompiler ha compiler
  rw [Machine.compileAfresh_eq, Machine.compileAfresh_eq, answer_agrees ha]
  split
  · exact agrees_attach (agrees_rememberOutcome hcalled _) _
  · exact agrees_record (agrees_rememberOutcome (agrees_record hcalled _ _) _) _ _

end ClicksLemmas

open ClicksLemmas

/-- A request to compile comes to the same on hosts that agree. -/
theorem Machine.Agrees.compile {m n : Machine} (ha : m.Agrees n) (compiler : String) :
    (m.compile compiler).Agrees (n.compile compiler) := by
  have hstate : n.state = m.state := state_of_thread ha.thread
  have hnoted : m.tried.Agrees n.tried := agrees_editState ha _
  cases h : m.state.triedToCompile with
  | true =>
    have h' : n.state.triedToCompile = true := hstate ▸ h
    rw [Machine.compile_of_tried compiler h, Machine.compile_of_tried compiler h']
    exact ha
  | false =>
    have h' : n.state.triedToCompile = false := hstate ▸ h
    rw [Machine.compile_of_untried compiler h, Machine.compile_of_untried compiler h',
      rememberedOutcome_agrees hnoted]
    split
    · exact agrees_record hnoted _ _
    · exact agrees_attach (agrees_record hnoted _ _) _
    · exact agrees_compileAfresh hnoted compiler

namespace ClicksLemmas

open SharedOutcomesLemmas RequestsLemmas RecyclingLemmas

variable {h g : Host} {m n : Machine}

theorem rememberEvents_of_thread (ht : n.thread = m.thread) (outcome : Outcome) :
    n.rememberEvents outcome = m.rememberEvents outcome := by
  rw [Machine.rememberEvents, Machine.rememberEvents, state_of_thread ht, ht]

theorem freshEvents_agrees (ha : m.Agrees n) (compiler : String) :
    (n.freshEvents compiler).map Event.uncounted =
      (m.freshEvents compiler).map Event.uncounted := by
  simp only [Machine.freshEvents, List.map_cons, Event.uncounted, answer_agrees ha,
    rememberEvents_of_thread ha.thread, attachEvents_of_thread ha.thread, ha.thread]

/-- What is written at a request is the same on hosts that agree, but for the counts. -/
theorem compileEvents_agrees (ha : m.Agrees n) (compiler : String) :
    (n.compileEvents compiler).map Event.uncounted =
      (m.compileEvents compiler).map Event.uncounted := by
  have hnoted : m.tried.Agrees n.tried := agrees_editState ha _
  simp only [Machine.compileEvents, state_of_thread ha.thread, rememberedOutcome_agrees hnoted,
    ha.thread, attachEvents_of_thread hnoted.thread]
  split
  · rfl
  · split
    · rfl
    · rfl
    · exact freshEvents_agrees hnoted compiler

/-! ## Requests of clicked threads -/

theorem rememberedOutcome_of_clicked (hclick : m.state.stackClick) :
    m.tried.rememberedOutcome? = none := if_pos hclick

/-- A clicked thread that was not asked before has its compiler called. -/
theorem compile_of_clicked (compiler : String) (hclick : m.state.stackClick)
    (htried : m.state.triedToCompile = false) :
    m.compile compiler = m.tried.compileAfresh compiler := by
  rw [Machine.compile_of_untried compiler htried, rememberedOutcome_of_clicked hclick]

theorem rememberOutcome_of_clicked (hclick : m.state.stackClick) (outcome : Outcome) :
    m.rememberOutcome outcome = m := if_pos hclick

theorem containers_of_clicked (compiler : String) (hclick : m.state.stackClick) :
    (m.compile compiler).host.containers = m.host.containers := by
  cases htried : m.state.triedToCompile with
  | true => rw [Machine.compile_of_tried compiler htried]
  | false =>
    have hclick' : m.tried.state.stackClick = true := hclick
    rw [compile_of_clicked compiler hclick htried, containers_compileAfresh, if_pos hclick']
    rfl

theorem compilers_compile (compiler : String) (m : Machine) (name : String) :
    ((m.compile compiler).host.compiler name).compile = (m.host.compiler name).compile := by
  have hhappens : Moment.Happens [] ⟨m, .act (.compile compiler)⟩ [] := .act rfl
  obtain ⟨_, hgrows, _⟩ := grows_moment hhappens
  exact hgrows.compile name

theorem palette_compile (compiler : String) (m : Machine) :
    (m.compile compiler).host.palette = m.host.palette := by
  obtain ⟨_, _, _, h⟩ := Host.Compiles.compile compiler m
  rw [h]

/-- A request of a clicked thread leaves its host such that it agrees with the same hosts. -/
theorem agrees_of_clicked (hg : m.host.Agrees g) (compiler : String)
    (hclick : m.state.stackClick) : (m.compile compiler).host.Agrees g :=
  agrees_trans hg (containers_of_clicked compiler hclick) (palette_compile compiler m)
    (compilers_compile compiler m) rfl rfl fun _ => rfl

theorem freshEvents_of_containers (ht : n.thread = m.thread)
    (hcompilers : n.host.compilers = m.host.compilers) (compiler : String) :
    n.freshEvents compiler = m.freshEvents compiler := by
  have hcompiler : n.host.compiler compiler = m.host.compiler compiler := by
    rw [Host.compiler, hcompilers, Host.compiler]
  simp only [Machine.freshEvents, Machine.callCompiler, hcompiler, ht,
    rememberEvents_of_thread ht, attachEvents_of_thread ht]

/-- What becomes of a clicked thread does not depend on what is remembered. -/
theorem thread_of_clicked (compiler : String) (hclick : m.state.stackClick)
    (htried : m.state.triedToCompile = false) (ht : n.thread = m.thread)
    (hcompilers : n.host.compilers = m.host.compilers)
    (hglow : (n.host.container m.thread.container).forceNoGlow =
      (m.host.container m.thread.container).forceNoGlow) :
    (n.compile compiler).thread = (m.compile compiler).thread ∧
      n.compileEvents compiler = m.compileEvents compiler := by
  have hstate : n.state = m.state := state_of_thread ht
  have hnoted : n.tried.thread = m.tried.thread :=
    congrArg (Thread.editState fun s => { s with triedToCompile := true }) ht
  have hclick' : n.state.stackClick := hstate ▸ hclick
  have htried' : n.state.triedToCompile = false := hstate ▸ htried
  have hcompiler : n.tried.host.compiler compiler = m.tried.host.compiler compiler := by
    show (n.host.compilers.get? compiler).getD .idle = _
    rw [hcompilers]
    rfl
  have hanswer : (n.tried.callCompiler compiler).1 = (m.tried.callCompiler compiler).1 := by
    simp only [Machine.callCompiler, hnoted, hcompiler]
  constructor
  · rw [compile_of_clicked compiler hclick htried, compile_of_clicked compiler hclick' htried',
      Machine.compileAfresh_eq, Machine.compileAfresh_eq, hanswer]
    have hcalled : (n.tried.callCompiler compiler).2.thread =
        (m.tried.callCompiler compiler).2.thread := hnoted
    split
    · rw [rememberOutcome_of_clicked, rememberOutcome_of_clicked]
      · exact thread_attach hcalled hglow _
      · exact hclick
      · exact hclick'
    · next error _ =>
      show (Machine.rememberOutcome (.error error) _).thread =
        (Machine.rememberOutcome (.error error) _).thread
      rw [Machine.rememberOutcome_thread, Machine.rememberOutcome_thread]
      exact hcalled
  · unfold Machine.compileEvents
    rw [htried, htried', rememberedOutcome_of_clicked hclick, rememberedOutcome_of_clicked hclick']
    exact freshEvents_of_containers hnoted hcompilers compiler

/-! ## Runs -/

variable {w v : World} {clicked : String → Bool}

/-- A world and another one in which the clicked threads have not been asked. -/
structure Spares (clicked : String → Bool) (w v : World) : Prop where
  host : w.host.Agrees v.host
  threads : ∀ name, clicked name = false → v.threads.get? name = w.threads.get? name
  clicks : ∀ name, w.isClicked name = clicked name

theorem spares_atTime (h : Spares clicked w v) (time time' : Nat) :
    Spares clicked (w.atTime time) (v.atTime time') :=
  ⟨⟨h.host.containers, h.host.palette, h.host.answer⟩, h.threads, h.clicks⟩

theorem stackClick_compile (compiler : String) (m : Machine) :
    (m.compile compiler).thread.stackClick = m.thread.stackClick := by
  obtain ⟨_, _, _, _, _, _, _, h⟩ := Machine.compile_thread compiler m
  rw [h]

theorem isClicked_insert {name : String} {t t' : Thread} (ht : w.threads.get? name = some t)
    (hclick : t'.stackClick = t.stackClick) (host : Host) (other : String) :
    World.isClicked { w with host, threads := w.threads.insert name t' } other =
      w.isClicked other := by
  unfold World.isClicked
  rw [Table.get?_insert]
  split
  · next heq =>
    rw [← heq, ht, Option.any_some, Option.any_some, hclick]
  · rfl

/-- A clicked thread that is asked to be compiled leaves the worlds as close as they were. -/
theorem spares_clicked (depth : Nat) {thread : String} (compiler : String) {t : Thread}
    (h : Spares clicked w v) (ht : w.threads.get? thread = some t) (hclick : t.stackClick) :
    ∃ reply w', w.perform depth (.act thread (.compile compiler)) = some (reply, w') ∧
      Spares clicked w' v := by
  refine ⟨_, _, World.perform_act ht (.compile compiler), ?_, fun name hname => ?_, fun name => ?_⟩
  · exact agrees_of_clicked (m := ⟨t, w.host⟩) h.host compiler hclick
  · have hne : thread ≠ name := by
      rintro rfl
      have hclicked : w.isClicked thread = true := by
        rw [World.isClicked, ht, Option.any_some, hclick]
      rw [h.clicks, hname] at hclicked
      cases hclicked
    rw [h.threads name hname]
    exact (Table.get?_insert_of_ne _ _ hne).symm
  · rw [← h.clicks name]
    exact isClicked_insert ht (stackClick_compile compiler ⟨t, w.host⟩) _ name

theorem account_compile (compiler : String) (m : Machine) :
    Moment.account ⟨m, .act (.compile compiler)⟩ =
      (m.thread, (m.compileEvents compiler).map Event.uncounted, (m.compile compiler).thread) := by
  have hevents := m.eventsSince_compile compiler
  rw [Moment.account]
  exact congrArg (fun events => (m.thread, events.map Event.uncounted, (m.compile compiler).thread))
    hevents

/-- What happens to one thread while a command is carried out, as far as it can be told. -/
def accounts (depth : Nat) (name : String) (w : World) (command : Command) :
    List (Thread × List Event × Thread) :=
  ((w.deeds depth command).filterMap (Deed.momentOf? name)).map Moment.account

theorem accounts_of_other {depth : Nat} {name thread : String} (hne : thread ≠ name)
    (action : Action) :
    accounts depth name w (.act thread action) = [] := by
  simp only [accounts, World.deeds]
  cases w.threads.get? thread with
  | none => rfl
  | some t =>
    rw [ChronicleLemmas.filterMap_momentOf?_other hne]
    rfl

theorem accounts_compile {depth : Nat} {thread compiler : String} {t : Thread}
    (ht : w.threads.get? thread = some t) :
    accounts depth thread w (.act thread (.compile compiler)) =
      [Moment.account ⟨⟨t, w.host⟩, .act (.compile compiler)⟩] := by
  have hmoments : Machine.moments depth (.compile compiler) ⟨t, w.host⟩ =
      [⟨⟨t, w.host⟩, .act (.compile compiler)⟩] := rfl
  simp only [accounts, World.deeds, ht, hmoments]
  rw [ChronicleLemmas.filterMap_momentOf?_self]
  rfl

/-- A thread that was not clicked goes through the same at a request in both worlds. -/
theorem spares_unclicked (depth : Nat) {thread compiler : String} (h : Spares clicked w v)
    (hclick : clicked thread = false) :
    ∃ r r', w.perform depth (.act thread (.compile compiler)) = some r ∧
      v.perform depth (.act thread (.compile compiler)) = some r' ∧ Spares clicked r.2 r'.2 ∧
      ∀ name, accounts depth name v (.act thread (.compile compiler)) =
        accounts depth name w (.act thread (.compile compiler)) := by
  have hget := h.threads thread hclick
  cases ht : w.threads.get? thread with
  | none =>
    have ht' : v.threads.get? thread = none := hget.trans ht
    refine ⟨(.unknown, w), (.unknown, v), ?_, ?_, h, fun name => ?_⟩
    · simp only [World.perform, World.onThread, ht]
      rfl
    · simp only [World.perform, World.onThread, ht']
      rfl
    · simp only [accounts, World.deeds, ht, ht']
  | some t =>
    have ht' : v.threads.get? thread = some t := hget.trans ht
    have hagrees : Machine.Agrees ⟨t, w.host⟩ ⟨t, v.host⟩ := ⟨rfl, h.host⟩
    have hafter := hagrees.compile compiler
    refine ⟨_, _, World.perform_act ht (.compile compiler),
      World.perform_act ht' (.compile compiler), ⟨hafter.host, fun name hname => ?_,
        fun name => ?_⟩, fun name => ?_⟩
    · show (v.threads.insert thread _).get? name = (w.threads.insert thread _).get? name
      rw [Table.get?_insert, Table.get?_insert, h.threads name hname]
      split
      · exact congrArg some hafter.thread
      · rfl
    · rw [← h.clicks name]
      exact isClicked_insert ht (stackClick_compile compiler ⟨t, w.host⟩) _ name
    · by_cases hname : thread = name
      · subst hname
        rw [accounts_compile ht, accounts_compile ht', account_compile, account_compile,
          hafter.thread, compileEvents_agrees hagrees]
      · rw [accounts_of_other hname, accounts_of_other hname]

/-- A command that works on the containers does the same in both worlds. -/
theorem spares_container (depth : Nat) {command : Command} (h : Spares clicked w v)
    (hcommand : command.isOfCompilation) (hactor : command.actor? = none) :
    ∃ r r', w.perform depth command = some r ∧ v.perform depth command = some r' ∧
      Spares clicked r.2 r'.2 ∧
      ∀ name, accounts depth name v command = accounts depth name w command := by
  have hedit : ∀ container edit, Spares clicked
      (w.editHost (Host.editContainer container edit)).2
      (v.editHost (Host.editContainer container edit)).2 := fun container edit =>
    ⟨agrees_editContainer h.host container edit, h.threads, h.clicks⟩
  cases command with
  | insertBlock container id block => exact ⟨_, _, rfl, rfl, hedit container _, fun _ => rfl⟩
  | forget container => exact ⟨_, _, rfl, rfl, hedit container _, fun _ => rfl⟩
  | remember container top outcome =>
    have hremember := hedit container (Container.remember top outcome)
    have hagrees := hremember.host
    exact ⟨_, _, rfl, rfl, ⟨⟨hagrees.containers, hagrees.palette, hagrees.answer⟩, h.threads,
      h.clicks⟩, fun _ => rfl⟩
  | getBlock | nextOf | outcome => exact ⟨_, _, rfl, rfl, h, fun _ => rfl⟩
  | act => cases hactor
  | _ => cases hcommand

theorem accounts_cons {depth : Nat} {task : Task} {tasks : List Task} {reply : Reply} {u : World}
    (hp : (w.atTime task.time).perform depth task.command = some (reply, u)) (name : String) :
    (w.history depth name (task :: tasks)).map Moment.account =
      accounts depth name (w.atTime task.time) task.command ++
        (u.history depth name tasks).map Moment.account := by
  have hclock : (Deed.clock w task.time).momentOf? name = none := rfl
  simp only [World.history, World.chronicle, hp, List.filterMap_append,
    List.filterMap_cons_none hclock, List.map_append, accounts]

/-- A task of a clicked thread, and any other task. -/
theorem spares_task (depth : Nat) {task : Task} (h : Spares clicked w v)
    (hcommand : task.command.isOfCompilation) :
    (task.command.actor?.any clicked = true ∧
      ∃ reply w', (w.atTime task.time).perform depth task.command = some (reply, w') ∧
        Spares clicked w' v ∧ ∀ name, clicked name = false →
          accounts depth name (w.atTime task.time) task.command = []) ∨
    (task.command.actor?.any clicked = false ∧
      ∃ r r', (w.atTime task.time).perform depth task.command = some r ∧
        (v.atTime task.time).perform depth task.command = some r' ∧ Spares clicked r.2 r'.2 ∧
        ∀ name, accounts depth name (v.atTime task.time) task.command =
          accounts depth name (w.atTime task.time) task.command) := by
  obtain ⟨time, command⟩ := task
  have hboth := spares_atTime h time time
  cases hactor : command.actor? with
  | none => exact .inr ⟨rfl, spares_container depth hboth hcommand hactor⟩
  | some thread =>
    obtain ⟨compiler, rfl⟩ : ∃ compiler, command = .act thread (.compile compiler) := by
      cases command with
      | act name action =>
        obtain rfl := Option.some.inj hactor
        cases action with
        | compile compiler => exact ⟨compiler, rfl⟩
        | _ => cases hcommand
      | stepCall => cases hcommand
      | _ => cases hactor
    cases hclick : clicked thread with
    | false => exact .inr ⟨hclick, spares_unclicked depth hboth hclick⟩
    | true =>
      refine .inl ⟨hclick, ?_⟩
      have hclicked : w.isClicked thread = true := (h.clicks thread).trans hclick
      cases ht : w.threads.get? thread with
      | none =>
        rw [World.isClicked, ht] at hclicked
        cases hclicked
      | some t =>
        rw [World.isClicked, ht, Option.any_some] at hclicked
        have ht' : (w.atTime time).threads.get? thread = some t := ht
        obtain ⟨reply, w', hperform, hafter⟩ := spares_clicked depth compiler
          (spares_atTime h time v.host.now) ht' hclicked
        refine ⟨reply, w', hperform, hafter, fun name hname => accounts_of_other ?_ _⟩
        rintro rfl
        rw [hclick] at hname
        cases hname

/-- The two runs come to their ends, and the worlds are still as close. -/
theorem spares_run (depth : Nat) {tasks : List Task} (h : Spares clicked w v)
    (htasks : ∀ task ∈ tasks, task.command.isOfCompilation) :
    ∃ replies w' replies' v', w.run depth tasks = some (replies, w') ∧
      v.run depth (tasks.filter fun task => !task.command.actor?.any clicked) =
        some (replies', v') ∧
      Spares clicked w' v' ∧ ∀ name, clicked name = false →
        (v.history depth name (tasks.filter fun task => !task.command.actor?.any clicked)).map
            Moment.account = (w.history depth name tasks).map Moment.account := by
  induction tasks generalizing w v with
  | nil => exact ⟨[], w, [], v, rfl, rfl, h, fun _ _ => rfl⟩
  | cons task tasks ih =>
    have hrest : ∀ task ∈ tasks, task.command.isOfCompilation := fun x hx =>
      htasks x (List.mem_cons_of_mem _ hx)
    rcases spares_task depth h (htasks task List.mem_cons_self) with
      ⟨hclick, reply, w₁, hw, hafter, hnone⟩ |
        ⟨hclick, ⟨reply, w₁⟩, ⟨reply', v₁⟩, hw, hv, hafter, hsame⟩
    · -- only the first run has the task
      obtain ⟨replies, w', replies', v', hrun, hrun', hend, haccounts⟩ := ih hafter hrest
      rw [List.filter_cons_of_neg (by simp [hclick])]
      refine ⟨_, w', replies', v', run_cons_eq hw hrun, hrun', hend, fun name hname => ?_⟩
      rw [haccounts name hname, accounts_cons hw, hnone name hname, List.nil_append]
    · obtain ⟨replies, w', replies', v', hrun, hrun', hend, haccounts⟩ := ih hafter hrest
      rw [List.filter_cons_of_pos (by simp [hclick])]
      refine ⟨_, w', _, v', run_cons_eq hw hrun, run_cons_eq hv hrun', hend, fun name hname => ?_⟩
      rw [accounts_cons hv, accounts_cons hw, hsame name, haccounts name hname]

end ClicksLemmas

open ClicksLemmas

namespace World

/-- A run that asks threads to be compiled, by compilers whose answers depend only on the
thread, and works on the containers in between. Without the requests of the clicked threads
the run ends with the same containers; and each thread that was not clicked is in the end
the same, and goes through the same at each of its requests, the events included, but for
the counts of compilers. And a clicked thread that was not asked before calls its compiler,
leaves what is remembered, and comes to the same whatever is remembered. -/
theorem clicks_leave_no_trace {depth : Nat} {w : World} {tasks : List Task}
    (hcompilers : ∀ name, (w.host.compiler name).IsSteady)
    (htasks : ∀ task ∈ tasks, task.command.isOfCompilation) :
    (∃ replies w' replies' v', w.run depth tasks = some (replies, w') ∧
      w.run depth (w.unclicked tasks) = some (replies', v') ∧
      v'.host.containers = w'.host.containers ∧
      ∀ name, w.isClicked name = false → v'.threads.get? name = w'.threads.get? name ∧
        (w.history depth name (w.unclicked tasks)).map Moment.account =
          (w.history depth name tasks).map Moment.account) ∧
    ∀ (m : Machine) (compiler : String), m.state.stackClick → m.state.triedToCompile = false →
      .compile compiler (m.host.compiler compiler).calls m.tried.thread ∈
          Host.eventsSince m.host (m.compile compiler).host ∧
        (m.compile compiler).host.containers = m.host.containers ∧
        ∀ containers, (∀ id, ((m.withContainers containers).host.container id).forceNoGlow =
            (m.host.container id).forceNoGlow) →
          ((m.withContainers containers).compile compiler).thread = (m.compile compiler).thread ∧
            Host.eventsSince m.host ((m.withContainers containers).compile compiler).host =
              Host.eventsSince m.host (m.compile compiler).host := by
  constructor
  · have hstart : Spares w.isClicked w w :=
      ⟨⟨rfl, rfl, fun name => hcompilers name⟩, fun _ _ => rfl, fun _ => rfl⟩
    obtain ⟨replies, w', replies', v', hrun, hrun', hend, haccounts⟩ :=
      spares_run depth hstart htasks
    exact ⟨replies, w', replies', v', hrun, hrun', hend.host.containers, fun name hname =>
      ⟨hend.threads name hname, haccounts name hname⟩⟩
  · intro m compiler hclick htried
    refine ⟨?_, containers_of_clicked compiler hclick, fun containers hglow => ?_⟩
    · rw [m.eventsSince_compile compiler, Machine.compileEvents, htried,
        rememberedOutcome_of_clicked hclick]
      exact List.mem_cons_self
    · have hother : (m.withContainers containers).thread = m.thread := rfl
      obtain ⟨hthread, hevents⟩ := thread_of_clicked compiler hclick htried hother rfl
        (hglow m.thread.container)
      have hsince := (m.withContainers containers).eventsSince_compile compiler
      rw [hevents, ← m.eventsSince_compile compiler] at hsince
      exact ⟨hthread, hsince⟩

end World

/-! ## A click before the script is compiled -/

/-- A compiler that has one plan follows it whenever it is called. -/
theorem isSteady_scripted (plan : Except CompileError Plan) :
    (Compiler.scripted [plan]).IsSteady := by
  intro i j t
  have hplan : ∀ call, Compiler.planFor [plan] call = plan := fun call => by
    simp [Compiler.planFor]
  simp only [Compiler.scripted, hplan]

/-- A sprite with two threads that run one script. One of them was started by a click. -/
def exClicked : World :=
  let sprite : Target := { id := "sprite", name := "Sprite", container := some "main" }
  let thread : Thread :=
    { top := "hat", target := sprite, container := some "main", pool := "pool" }
  { host :=
      { containers := .ofList [(some "main", { blocks := .ofList [("hat", { opcode := "hat" })] })]
        compilers := .ofList [("c", .scripted [.ok {}])] }
    threads := .ofList [("a", { thread with stackClick := true }), ("b", thread)] }

/-- The clicked thread is asked to be compiled before the other one, and again after a reset. -/
def exClicks : List Task :=
  [⟨0, .act "a" (.compile "c")⟩, ⟨1, .act "b" (.compile "c")⟩, ⟨2, .forget (some "main")⟩,
    ⟨3, .act "a" (.compile "c")⟩]

/-- Without the clicked thread the other one is still compiled as before, and the container
remembers as much. And the clicked one has its compiler called at its first request. -/
theorem clicks_leave_no_trace_reset :
    (exClicked.unclicked exClicks).length = 2 ∧
      ∃ replies w' replies' v', exClicked.run 0 exClicks = some (replies, w') ∧
        exClicked.run 0 (exClicked.unclicked exClicks) = some (replies', v') ∧
        v'.host.containers = w'.host.containers ∧
        v'.threads.get? "b" = w'.threads.get? "b" ∧
      ∃ t, exClicked.threads.get? "a" = some t ∧
        .compile "c" 0 { t with triedToCompile := true } ∈
          Host.eventsSince exClicked.host (Machine.compile "c" ⟨t, exClicked.host⟩).host := by
  have hcompilers : ∀ name, (exClicked.host.compiler name).IsSteady := by
    intro name
    have hget : exClicked.host.compiler name =
        (if "c" = name then some (Compiler.scripted [.ok {}]) else none).getD .idle := rfl
    rw [hget]
    split
    · exact isSteady_scripted _
    · exact fun _ _ _ => rfl
  obtain ⟨⟨replies, w', replies', v', hrun, hrun', hcontainers, hthreads⟩, hclicked⟩ :=
    @World.clicks_leave_no_trace 0 exClicked exClicks hcompilers (by decide)
  have hb := (hthreads "b" (by decide)).1
  refine ⟨by decide, replies, w', replies', v', hrun, hrun', hcontainers, hb, _, rfl, ?_⟩
  exact (hclicked ⟨_, exClicked.host⟩ "c" rfl rfl).1

end BlockThreads
