import BlockThreads.Proofs.Effects

/-!
# Actions on a host that throws frames away

A host that recycles gives out frames that other threads have used before. Next to it
stands a host that throws every frame away and makes every frame anew. As long as the
frames that wait in the pools are clear, nobody can tell one host from the other: whatever
an action does, it answers the same on both and leaves the same thread behind, and the
frames that wait are clear again.

Compilation is left out. What it does depends on what other threads have left in the
containers.

Results:
1. `Machine.Mirrors`: a thread on a host that recycles, and the same thread on a host that
   does not.
2. `Machine.Mirrors.perform`: an action leads from such machines to such machines, with the
   same answer.
-/

namespace BlockThreads

/-- Every frame that waits in a pool of the host is clear. -/
def Host.IsClean (h : Host) : Prop := ∀ id, (h.pool id).IsPristine

/-- A host throws all frames away, but is like another host in everything else that actions
depend on. -/
structure Host.Mirrors (h r : Host) : Prop where
  config : r.config = h.config
  containers : r.containers = h.containers
  palette : r.palette = h.palette
  sequencer : r.sequencer = h.sequencer
  clean : h.IsClean
  wasteful : r.recycles = false
  empty : ∀ id, (r.pool id).free = []

/-- The same thread runs on a host and on one that throws all frames away. -/
structure Machine.Mirrors (m r : Machine) : Prop where
  thread : r.thread = m.thread
  host : m.host.Mirrors r.host
  now : r.host.now = m.host.now

/-! ## Pools -/

namespace Host

variable {h r : Host}

theorem pool_setPool (id other : PoolId) (pool : Pool) (h : Host) :
    (h.setPool id pool).pool other = if id = other then pool else h.pool other := by
  unfold setPool Host.pool
  rw [Table.get?_insert]
  split <;> rfl

theorem IsClean.setPool (hc : h.IsClean) {pool : Pool} (hp : pool.IsPristine) (id : PoolId) :
    (h.setPool id pool).IsClean := by
  intro other
  rw [pool_setPool]
  split
  · exact hp
  · exact hc other

theorem IsClean.createFrame (hc : h.IsClean) (id : PoolId) (warpMode : Bool) :
    (h.createFrame id warpMode).1 = .fresh warpMode ∧ (h.createFrame id warpMode).2.IsClean := by
  have hp := (hc id).create warpMode
  unfold Host.createFrame
  split
  · exact ⟨hp.1, IsClean.setPool (h := h.log .allocatingFrame) hc hp.2 id⟩
  · exact ⟨hp.1, hc.setPool hp.2 id⟩

theorem IsClean.releaseFrames (hc : h.IsClean) (id : PoolId) (frames : List Frame) :
    (h.releaseFrames id frames).IsClean := by
  unfold Host.releaseFrames
  split
  · exact hc.setPool ((hc id).releaseAll frames) id
  · exact hc

/-- Whatever is done with the frames, those that wait are clear. -/
theorem Serves.isClean {h h' : Host} (hs : h.Serves h') (hc : h.IsClean) : h'.IsClean := by
  induction hs with
  | refl => exact hc
  | trans _ _ ih ih' => exact ih' (ih hc)
  | record => exact hc
  | openPool id => exact hc.setPool (hc id) id
  | createFrame id warpMode => exact (hc.createFrame id warpMode).2
  | releaseFrames id frames => exact hc.releaseFrames id frames

namespace Mirrors

/-- What has been written to the traces does not matter. -/
theorem setTrace (hm : h.Mirrors r) (trace trace' : List Event) :
    { h with trace }.Mirrors { r with trace := trace' } :=
  ⟨hm.config, hm.containers, hm.palette, hm.sequencer, hm.clean, hm.wasteful, hm.empty⟩

/-- What the clocks show is looked at elsewhere. -/
theorem setClock (hm : h.Mirrors r) (now now' : Nat) :
    { h with now }.Mirrors { r with now := now' } :=
  ⟨hm.config, hm.containers, hm.palette, hm.sequencer, hm.clean, hm.wasteful, hm.empty⟩

theorem setPool (hm : h.Mirrors r) {p q : Pool} (hp : p.IsPristine) (hq : q.free = [])
    (id id' : PoolId) : (h.setPool id p).Mirrors (r.setPool id' q) := by
  refine ⟨hm.config, hm.containers, hm.palette, hm.sequencer, hm.clean.setPool hp id,
    hm.wasteful, fun other => ?_⟩
  rw [pool_setPool]
  split
  · exact hq
  · exact hm.empty other

/-- Both hosts give out a new frame. -/
theorem createFrame (hm : h.Mirrors r) (id : PoolId) (warpMode : Bool) :
    (h.createFrame id warpMode).1 = .fresh warpMode ∧
      (r.createFrame id warpMode).1 = .fresh warpMode ∧
      (h.createFrame id warpMode).2.Mirrors (r.createFrame id warpMode).2 := by
  have hp := (hm.clean id).create warpMode
  have hq := Pool.create_of_empty warpMode (hm.empty id)
  -- nothing ever waits on the side that throws frames away
  have hempty : (r.pool id).isEmpty := by
    rw [Pool.isEmpty, Pool.size, hm.empty id]
    rfl
  unfold Host.createFrame
  rw [hempty, hq]
  refine ⟨hp.1, rfl, ?_⟩
  split
  · exact (hm.setTrace _ _).setPool hp.2 (hm.empty id) id id
  · exact (hm.setTrace h.trace _).setPool hp.2 (hm.empty id) id id

/-- Frames that are given back do not matter. -/
theorem releaseFrames (hm : h.Mirrors r) (id : PoolId) (frames : List Frame) :
    (h.releaseFrames id frames).Mirrors (r.releaseFrames id frames) := by
  have hr : r.releaseFrames id frames = r := by
    unfold Host.releaseFrames
    rw [hm.wasteful]
    rfl
  rw [hr]
  refine ⟨?_, ?_, ?_, ?_, hm.clean.releaseFrames id frames, hm.wasteful, hm.empty⟩ <;>
  · unfold Host.releaseFrames
    split <;> first
      | exact hm.config | exact hm.containers | exact hm.palette | exact hm.sequencer

theorem container (hm : h.Mirrors r) (id : ContainerId) : r.container id = h.container id := by
  rw [Host.container, hm.containers, Host.container]

end Mirrors

end Host

/-! ## Operations -/

namespace Machine.Mirrors

variable {m r : Machine}

/-- The two machines, with the thread that both of them have. -/
theorem exists_eq (h : m.Mirrors r) :
    ∃ (t : Thread) (g k : Host), m = ⟨t, g⟩ ∧ r = ⟨t, k⟩ ∧ g.Mirrors k ∧ k.now = g.now := by
  obtain ⟨t, g⟩ := m
  obtain ⟨t', k⟩ := r
  obtain ⟨rfl, hhost, hnow⟩ := h
  exact ⟨t', g, k, rfl, rfl, hhost, hnow⟩

theorem state (h : m.Mirrors r) : r.state = m.state :=
  congrArg Thread.toThreadState h.thread

theorem editState (h : m.Mirrors r) (edit : ThreadState → ThreadState) :
    (m.editState edit).Mirrors (r.editState edit) :=
  ⟨congrArg (Thread.editState edit) h.thread, h.host, h.now⟩

theorem record (h : m.Mirrors r) (event : Event) : (m.record event).Mirrors (r.record event) :=
  ⟨h.thread, h.host.setTrace _ _, h.now⟩

theorem now_createFrame (id : PoolId) (warpMode : Bool) (g : Host) :
    (g.createFrame id warpMode).2.now = g.now := by
  unfold Host.createFrame
  split <;> rfl

theorem now_releaseFrames (id : PoolId) (frames : List Frame) (g : Host) :
    (g.releaseFrames id frames).now = g.now := by
  unfold Host.releaseFrames
  split <;> rfl

theorem releaseFrames (h : m.Mirrors r) (frames : List Frame) :
    (m.releaseFrames frames).Mirrors (r.releaseFrames frames) := by
  refine ⟨h.thread, ?_, ?_⟩
  · have hpool : r.thread.pool = m.thread.pool := congrArg Thread.pool h.thread
    unfold Machine.releaseFrames
    rw [hpool]
    exact h.host.releaseFrames m.thread.pool frames
  · exact (now_releaseFrames _ _ _).trans (h.now.trans (now_releaseFrames _ _ _).symm)

theorem pushFrame (h : m.Mirrors r) : m.pushFrame.Mirrors r.pushFrame := by
  obtain ⟨t, g, k, rfl, rfl, hhost, hnow⟩ := h.exists_eq
  obtain ⟨hg, hk, hframes⟩ := hhost.createFrame t.pool t.isWarpMode
  refine ⟨?_, hframes, ?_⟩
  · simp only [Machine.pushFrame, Machine.createFrame, Machine.state, hg, hk]
    rfl
  · exact (now_createFrame _ _ _).trans (hnow.trans (now_createFrame _ _ _).symm)

theorem push (h : m.Mirrors r) (id : String) : (m.push id).Mirrors (r.push id) := by
  have hpushed := h.editState fun s => { s with stack := some id :: s.stack }
  simp only [Machine.push, hpushed.state]
  split
  · exact hpushed.pushFrame
  · exact hpushed

theorem pushAll (h : m.Mirrors r) (ids : List String) : (m.pushAll ids).Mirrors (r.pushAll ids) := by
  induction ids generalizing m r with
  | nil => exact h
  | cons id ids ih => exact ih (h.push id)

theorem drop (h : m.Mirrors r) : m.drop.Mirrors r.drop := by
  simp only [Machine.drop, h.state]
  exact (h.releaseFrames _).editState _

theorem block? (h : m.Mirrors r) (id : String) : r.block? id = m.block? id := by
  simp only [Machine.block?, Host.block?, h.thread, h.host.container, h.host.palette]

theorem enter (h : m.Mirrors r) (id : String) : (m.enter id).Mirrors (r.enter id) := by
  simp only [Machine.enter, h.thread, h.host.container]
  exact (h.push id).editState _

theorem nextId (h : m.Mirrors r) : r.nextId = m.nextId := by
  have hblock : r.block? = m.block? := funext h.block?
  rw [Machine.nextId, h.state, hblock, Machine.nextId]

theorem goToNext (h : m.Mirrors r) : m.goToNext.Mirrors r.goToNext := by
  unfold Machine.goToNext
  rw [h.nextId]
  exact h.editState _

theorem unwind (h : m.Mirrors r) (levels : Nat) :
    (Machine.unwind levels m).Mirrors (Machine.unwind levels r) := by
  induction levels generalizing m r with
  | zero => exact h
  | succ levels ih =>
    unfold Machine.unwind
    rw [h.state]
    split
    · exact h
    · next id _ =>
      have hcall : r.isCall id = m.isCall id := by rw [Machine.isCall, h.block?, Machine.isCall]
      rw [hcall]
      split
      · exact h
      · split
        · exact h.goToNext
        · exact ih h.drop

theorem stopScript (h : m.Mirrors r) : m.stopScript.Mirrors r.stopScript := by
  have hunwound := h.unwind m.state.stack.length
  simp only [Machine.stopScript, h.state, hunwound.state]
  split
  · exact hunwound.editState _
  · exact hunwound

theorem retire (h : m.Mirrors r) : m.retire.Mirrors r.retire := by
  simp only [Machine.retire, Machine.log, h.state, h.thread]
  exact ((h.record _).releaseFrames _).editState _

theorem kill (h : m.Mirrors r) : m.kill.Mirrors r.kill :=
  (h.editState fun s => { s with isKilled := true }).retire

theorem isRecursive (h : m.Mirrors r) (code : String) : r.isRecursive code = m.isRecursive code := by
  have hblock : r.block? = m.block? := funext h.block?
  have hcalls : r.callsProcedure code = m.callsProcedure code := by
    funext frame
    rw [Machine.callsProcedure, hblock, Machine.callsProcedure]
  rw [Machine.isRecursive, h.state, hcalls, Machine.isRecursive]

theorem replaceBase (h : m.Mirrors r) (id : String) :
    (m.replaceBase id).Mirrors (r.replaceBase id) := by
  unfold Machine.replaceBase
  rw [h.state]
  split
  · exact h.push id
  · exact h.editState _

theorem bindBlock (h : m.Mirrors r) (block : String) (context : Option Context) :
    (m.bindBlock block context).Mirrors (r.bindBlock block context) := by
  simp only [Machine.bindBlock, h.state]
  exact (h.replaceBase block).editState _

theorem attempt (h : m.Mirrors r) (change : ThreadState → Except Misuse ThreadState) :
    (r.attempt change).1 = (m.attempt change).1 ∧
      (m.attempt change).2.Mirrors (r.attempt change).2 := by
  unfold Machine.attempt
  rw [h.state]
  split
  · exact ⟨rfl, h.editState _⟩
  · exact ⟨rfl, h⟩

end Machine.Mirrors

/-! ## Actions -/

/-- Work on a machine goes the same way on a machine that mirrors it, unless it gets
nowhere. -/
def Machine.Follows {α : Type} (work work' : Option (α × Machine)) : Prop :=
  ∀ a m', work = some (a, m') → ∃ r', work' = some (a, r') ∧ m'.Mirrors r'

/-- Foreign code goes the same way on both machines, as long as nothing is compiled. -/
def Runner.Mirrors (run : Runner) (tell : Teller) : Prop :=
  ∀ (α : Type) (p : Program α) (m r : Machine), m.Mirrors r →
    (∀ x ∈ tell α p m, x.move.compiles = false) → Machine.Follows (run α p m) (run α p r)

namespace MirroringLemmas

open Machine

variable {run : Runner} {tell : Teller} {m r m' r' : Machine} {α β : Type}

theorem follows_some {a b : α} (hab : b = a) (h : m'.Mirrors r') :
    Follows (some (a, m')) (some (b, r')) := by
  intro c n hn
  obtain ⟨rfl, rfl⟩ := Prod.mk.inj (Option.some.inj hn)
  exact ⟨r', by rw [hab], h⟩

theorem follows_map {work work' : Option (α × Machine)} (h : Follows work work')
    {change : α × Machine → β × Machine}
    (hchange : ∀ a m r, m.Mirrors r →
      (change (a, r)).1 = (change (a, m)).1 ∧ (change (a, m)).2.Mirrors (change (a, r)).2) :
    Follows (work.map change) (work'.map change) := by
  intro b n hn
  obtain ⟨⟨a, m'⟩, hwork, heq⟩ := Option.map_eq_some_iff.mp hn
  obtain ⟨r', hr, hmirrors⟩ := h a m' hwork
  obtain ⟨hb, hmirrors'⟩ := hchange a m' r' hmirrors
  rw [heq] at hb hmirrors'
  have hpair : change (a, r') = (b, (change (a, r')).2) := Prod.ext hb rfl
  exact ⟨(change (a, r')).2, by rw [hr, Option.map_some, ← hpair], hmirrors'⟩

/-- An action that calls no foreign code and compiles nothing. -/
theorem follows_of_isPlain {action : Action} (h : m.Mirrors r) (hplain : action.isPlain)
    (hcompile : ∀ compiler, action ≠ .compile compiler) :
    Follows (action.perform run m) (action.perform run r) := by
  obtain ⟨t, g, k, rfl, rfl, hhost, hnow⟩ := h.exists_eq
  cases action with
  | push id => exact follows_some rfl (h.push id)
  | pushAll ids => exact follows_some rfl (h.pushAll ids)
  | enter id => exact follows_some rfl (h.enter id)
  | pop => exact follows_some rfl h.drop
  | next => exact follows_some rfl h.goToNext
  | stop => exact follows_some rfl h.stopScript
  | retire => exact follows_some rfl h.retire
  | kill => exact follows_some rfl h.kill
  | isRecursive code => exact follows_some (congrArg _ (h.isRecursive code)) h
  | initParams => exact follows_some (h.attempt _).1 (h.attempt _).2
  | pushParam name value => exact follows_some (h.attempt _).1 (h.attempt _).2
  | startWarpTimer =>
    refine follows_some rfl ?_
    simp only [Machine.startWarpTimer, hnow]
    exact h.editState _
  | warpBudgetExceeded =>
    refine follows_some ?_ h
    simp only [Machine.isWarpBudgetExceeded, hhost.config, hnow]
    rfl
  | sleep ms => exact follows_some rfl ⟨rfl, hhost.setClock _ _, congrArg (· + ms) hnow⟩
  | shouldCompile =>
    refine follows_some ?_ h
    simp only [Machine.shouldCompile, hhost.config]
    rfl
  | compile compiler => exact absurd rfl (hcompile compiler)
  | peek | peekFrame | peekParentFrame | getParam | getAllParams | atStackTop | isWarpMode
  | names | hasProcedure | state => exact follows_some rfl h
  | reuse | editFrame | editParentFrame | resetFrame | reuseFrame | report | settle
  | clearWarpTimer | setStatus | setKilled | setStackClick | setGlow | takeContext =>
    exact follows_some rfl (h.editState _)
  | runProcedure | resume | callLegacy | bindLegacy => simp [Action.isPlain] at hplain

/-! ## Foreign code -/

theorem mirrors_enter (h : m.Mirrors r) (c : Coroutine) (attached : Bool) :
    ((Move.enter c attached).apply m).Mirrors ((Move.enter c attached).apply r) := by
  obtain ⟨t, g, k, rfl, rfl, hhost, hnow⟩ := h.exists_eq
  cases attached <;> exact ⟨rfl, hhost.setTrace _ _, hnow⟩

theorem conclude_mirrors (h : m.Mirrors r) (step : Step) (c : Coroutine) :
    (r.conclude step c).1 = (m.conclude step c).1 ∧
      (m.conclude step c).2.Mirrors (r.conclude step c).2 := by
  -- both machines look at the same status, so they take the same way
  unfold Machine.conclude
  rw [h.state]
  split
  · exact ⟨rfl, h.editState _⟩
  · cases step with
    | completed value => exact ⟨rfl, h.editState _⟩
    | suspended status =>
      have hwait : ({ m with thread := { m.thread with status, coroutine := some c } } : Machine).Mirrors
          { r with thread := { r.thread with status, coroutine := some c } } :=
        ⟨congrArg (fun t : Thread => { t with status, coroutine := some c }) h.thread,
          h.host, h.now⟩
      cases status with
      | done => exact ⟨rfl, h.editState _⟩
      | _ => exact ⟨rfl, hwait⟩

theorem follows_call (hrun : run.Mirrors tell) (h : m.Mirrors r) {c : Coroutine}
    (hno : ∀ x ∈ c.moments run tell false m, x.move.compiles = false) :
    Follows (c.step run false m) (c.step run false r) := by
  have hbody := hrun Step c.program _ _ (mirrors_enter h c false) fun x hx =>
    hno x (List.mem_cons_of_mem _ (List.mem_append_left _ hx))
  rw [Coroutine.step_eq, Coroutine.step_eq]
  exact follows_map hbody fun a m r hm => ⟨rfl, hm.record _⟩

theorem follows_script (hrun : run.Mirrors tell) (h : m.Mirrors r) {c : Coroutine}
    (hc : m.thread.coroutine = some c)
    (hno : ∀ x ∈ c.moments run tell true m, x.move.compiles = false) :
    Follows (m.wake.stepAttached (Coroutine.step run true))
      (r.wake.stepAttached (Coroutine.step run true)) := by
  have hc' : r.thread.coroutine = some c := (congrArg Thread.coroutine h.thread).trans hc
  have hbody := hrun Step c.program _ _ (mirrors_enter h c true) fun x hx =>
    hno x (List.mem_cons_of_mem _ (List.mem_append_left _ hx))
  rw [Machine.stepAttached_of_some hc, Machine.stepAttached_of_some hc']
  exact follows_map hbody fun a m r hm => conclude_mirrors (hm.record _) a.2 (c.advance a.1)

theorem follows_resume (hrun : run.Mirrors tell) (h : m.Mirrors r)
    (hno : ∀ x ∈ m.resumeMoments run tell, x.move.compiles = false) :
    Follows (m.resume (Coroutine.step run true)) (r.resume (Coroutine.step run true)) := by
  by_cases hd : m.state.status = .done
  · rw [Machine.resume_done hd, Machine.resume_done (h.state ▸ hd)]
    exact follows_some rfl h
  · by_cases hp : m.state.status = .promiseWait
    · rw [Machine.resume_promiseWait hp, Machine.resume_promiseWait (h.state ▸ hp)]
      exact follows_some rfl h
    · rw [Machine.resume_of_ne hd hp, Machine.resume_of_ne (h.state ▸ hd) (h.state ▸ hp)]
      cases hc : m.thread.coroutine with
      | none =>
        have hc' : r.thread.coroutine = none := (congrArg Thread.coroutine h.thread).trans hc
        rw [Machine.stepAttached_of_none hc, Machine.stepAttached_of_none hc']
        exact follows_some rfl (h.editState _)
      | some c =>
        refine follows_script hrun h hc fun x hx => hno x ?_
        rw [Machine.resumeMoments, if_neg (not_or.mpr ⟨hd, hp⟩), hc]
        exact hx

theorem follows_procedure (hrun : run.Mirrors tell) (h : m.Mirrors r) {code : String}
    {arguments : List Value}
    (hno : ∀ x ∈ m.procedureMoments run tell code arguments, x.move.compiles = false) :
    Follows (m.runProcedure run code arguments) (r.runProcedure run code arguments) := by
  unfold Machine.runProcedure
  rw [h.thread]
  cases hp : m.thread.procedure? code with
  | none => exact follows_some rfl h
  | some procedure =>
    have hcall := follows_call hrun (h.record (.call code procedure.binding arguments))
      (c := procedure.call arguments) fun x hx => hno x (by
        rw [Machine.procedureMoments, hp]
        exact List.mem_cons_of_mem _ hx)
    exact follows_map hcall fun a m r hm => ⟨rfl, hm⟩

theorem follows_sequencer (hrun : run.Mirrors tell) (h : m.Mirrors r)
    (hno : ∀ x ∈ m.sequencerMoments tell, x.move.compiles = false) :
    Follows (m.askSequencer run) (r.askSequencer run) := by
  unfold Machine.askSequencer
  rw [h.host.sequencer]
  cases hs : m.host.sequencer with
  | none => exact follows_some rfl h
  | some sequencer =>
    have hbody := hrun Unit sequencer.retire m r h fun x hx => hno x (by
      rw [Machine.sequencerMoments, hs]
      exact hx)
    exact follows_map hbody fun a m r hm => ⟨rfl, hm⟩

/-! ## Legacy blocks -/

/-- Work that also tells the branch asked for goes the same way on both machines. -/
def FollowsAsking (work work' : Option (α × Option Branch × Machine)) : Prop :=
  ∀ a branch m', work = some (a, branch, m') →
    ∃ r', work' = some (a, branch, r') ∧ m'.Mirrors r'

theorem asking_some {a b : α} {branch : Option Branch} (hab : b = a) (h : m'.Mirrors r') :
    FollowsAsking (some (a, branch, m')) (some (b, branch, r')) := by
  intro c branch' n hn
  obtain ⟨rfl, hpair⟩ := Prod.mk.inj (Option.some.inj hn)
  obtain ⟨rfl, rfl⟩ := Prod.mk.inj hpair
  exact ⟨r', by rw [hab], h⟩

theorem context_eq (h : m.Mirrors r) : r.context = m.context := by
  rw [Machine.context, h.state, Machine.context]

theorem editContext_mirrors (h : m.Mirrors r) (edit : Context → Context) :
    (m.editContext edit).Mirrors (r.editContext edit) := by
  unfold Machine.editContext
  rw [context_eq h]
  exact h.editState _

theorem asking_of_isPlain {step : Use} (h : m.Mirrors r) (hplain : step.isPlain)
    (branch : Option Branch) :
    FollowsAsking (step.perform run branch m) (step.perform run branch r) := by
  cases step with
  | context => exact asking_some (by rw [context_eq h]) (editContext_mirrors h _)
  | setValue name value => exact asking_some (by rw [context_eq h]) (editContext_mirrors h _)
  | unsetValue name => exact asking_some (by rw [context_eq h]) (editContext_mirrors h _)
  | startTimer =>
    refine asking_some (by rw [context_eq h]) ?_
    unfold Machine.startContextTimer
    rw [h.now]
    exact editContext_mirrors h _
  | editContext edit => exact asking_some rfl (editContext_mirrors h edit)
  | clearContext | yield | yieldTick => exact asking_some rfl (h.editState _)
  | startBranch | startProcedure | initParams | pushParam | getParam | startedBranch =>
    exact asking_some rfl h
  | onThread | retire => simp [Use.isPlain] at hplain

mutual

theorem follows_action (hrun : run.Mirrors tell) (action : Action) {m r : Machine}
    (h : m.Mirrors r)
    (hno : ∀ x ∈ action.moments run tell m, x.move.compiles = false) :
    Follows (action.perform run m) (action.perform run r) := by
  cases action with
  | runProcedure code arguments =>
    simp only [Action.perform]
    exact follows_map (follows_procedure hrun h hno) fun a m r hm => ⟨rfl, hm⟩
  | resume =>
    simp only [Action.perform]
    exact follows_map (follows_resume hrun h hno) fun a m r hm => ⟨rfl, hm⟩
  | callLegacy block context errand =>
    have herrand := asking_errand hrun none errand (h.bindBlock block context) fun x hx =>
      hno x (List.mem_cons_of_mem _ hx)
    intro a m' hm'
    simp only [Action.perform, Option.bind_eq_bind, Option.bind_eq_some_iff, Option.pure_def,
      Option.some.injEq, Prod.mk.injEq] at hm' ⊢
    obtain ⟨⟨answers, branch, n⟩, hn, rfl, rfl⟩ := hm'
    obtain ⟨r', hr', hmirrors⟩ := herrand answers branch n hn
    exact ⟨r', ⟨_, hr', rfl, rfl⟩, hmirrors⟩
  | bindLegacy block context errand =>
    have herrand := asking_errand hrun none errand (h.bindBlock block context) fun x hx =>
      hno x (List.mem_cons_of_mem _ hx)
    -- here the answer also tells whether there is a sequencer
    intro a m' hm'
    simp only [Action.perform, Option.bind_eq_bind, Option.bind_eq_some_iff, Option.pure_def,
      Option.some.injEq, Prod.mk.injEq] at hm' ⊢
    obtain ⟨⟨answers, branch, n⟩, hn, rfl, rfl⟩ := hm'
    obtain ⟨r', hr', hmirrors⟩ := herrand answers branch n hn
    exact ⟨r', ⟨_, hr', by rw [hmirrors.host.sequencer], rfl⟩, hmirrors⟩
  | compile compiler =>
    have hcompiles := hno ⟨m, .act (.compile compiler)⟩ List.mem_cons_self
    simp [Move.compiles] at hcompiles
  | _ => exact follows_of_isPlain h rfl fun compiler heq => nomatch heq

theorem asking_use (hrun : run.Mirrors tell) (branch : Option Branch) (step : Use)
    {m r : Machine} (h : m.Mirrors r)
    (hno : ∀ x ∈ step.moments run tell m, x.move.compiles = false) :
    FollowsAsking (step.perform run branch m) (step.perform run branch r) := by
  cases step with
  | onThread action =>
    have haction := follows_action hrun action h hno
    intro a branch' m' hm'
    simp only [Use.perform, Option.bind_eq_bind, Option.bind_eq_some_iff, Option.pure_def,
      Option.some.injEq, Prod.mk.injEq] at hm' ⊢
    obtain ⟨⟨answer, n⟩, hn, rfl, rfl, rfl⟩ := hm'
    obtain ⟨r', hr', hmirrors⟩ := haction answer n hn
    exact ⟨r', ⟨_, hr', rfl, rfl, rfl⟩, hmirrors⟩
  | retire =>
    have hsequencer := follows_sequencer hrun h hno
    intro a branch' m' hm'
    simp only [Use.perform, Option.map_eq_some_iff, Prod.mk.injEq] at hm' ⊢
    obtain ⟨⟨asked, n⟩, hn, rfl, rfl, rfl⟩ := hm'
    obtain ⟨r', hr', hmirrors⟩ := hsequencer asked n hn
    exact ⟨r', ⟨_, hr', rfl, rfl, rfl⟩, hmirrors⟩
  | _ => exact asking_of_isPlain h rfl branch

theorem asking_errand (hrun : run.Mirrors tell) (branch : Option Branch) (errand : Errand)
    {m r : Machine} (h : m.Mirrors r)
    (hno : ∀ x ∈ errand.moments run tell branch m, x.move.compiles = false) :
    FollowsAsking (errand.perform run branch m) (errand.perform run branch r) := by
  cases errand with
  | finish => exact asking_some rfl h
  | ask first next =>
    have hfirst := asking_use hrun branch first h fun x hx =>
      hno x (by rw [Errand.moments]; exact List.mem_append_left _ hx)
    intro answers branch' m' hm'
    simp only [Errand.perform, Option.bind_eq_bind, Option.bind_eq_some_iff, Option.pure_def,
      Option.some.injEq, Prod.mk.injEq] at hm' ⊢
    obtain ⟨⟨answer, branch₁, n⟩, hn, ⟨rest, branch₂, n'⟩, hn', rfl, rfl, rfl⟩ := hm'
    obtain ⟨s, hs, hmirrors⟩ := hfirst answer branch₁ n hn
    have hrest := asking_errand hrun branch₁ (next answer) hmirrors fun x hx =>
      hno x (by
        rw [Errand.moments, hn]
        exact List.mem_append_right _ hx)
    obtain ⟨r', hr', hmirrors'⟩ := hrest rest branch₂ n' hn'
    exact ⟨r', ⟨_, hs, _, hr', rfl, rfl, rfl⟩, hmirrors'⟩

end

theorem follows_program {act : Action → Machine → Option (Answer × Machine)}
    {tells : Action → Machine → List Moment}
    (hact : ∀ action m r, m.Mirrors r → (∀ x ∈ tells action m, x.move.compiles = false) →
      Follows (act action m) (act action r))
    (p : Program α) (h : m.Mirrors r) (hno : ∀ x ∈ p.moments act tells m, x.move.compiles = false) :
    Follows (p.run act m) (p.run act r) := by
  induction p generalizing m r with
  | finish result => exact follows_some rfl h
  | ask action next ih =>
    have hfirst := hact action m r h fun x hx =>
      hno x (by rw [Program.moments]; exact List.mem_append_left _ hx)
    intro a m' hm'
    simp only [Program.run, Option.bind_eq_bind, Option.bind_eq_some_iff, Option.pure_def,
      Option.some.injEq, Prod.mk.injEq] at hm' ⊢
    obtain ⟨⟨answer, n⟩, hn, ⟨⟨answers, result⟩, n'⟩, hn', rfl, rfl⟩ := hm'
    obtain ⟨s, hs, hmirrors⟩ := hfirst answer n hn
    have hrest := ih answer hmirrors fun x hx => hno x (by
      rw [Program.moments, hn]
      exact List.mem_append_right _ hx)
    obtain ⟨r', hr', hmirrors'⟩ := hrest _ n' hn'
    exact ⟨r', ⟨_, hs, _, hr', rfl, rfl⟩, hmirrors'⟩

end MirroringLemmas

open MirroringLemmas

theorem Program.execute_mirrors (depth : Nat) : Runner.Mirrors (execute depth) (tell depth) := by
  induction depth with
  | zero =>
    intro α p m r h hno a m' hm'
    cases hm'
  | succ depth ih =>
    -- the code that is called runs within the smaller depth
    intro α p m r h hno
    exact follows_program (fun action m r hm => follows_action ih action hm) p h hno

/-- An action that compiles nothing answers the same on a host that throws frames away, and
leaves the same thread behind. -/
theorem Machine.Mirrors.perform {m r : Machine} (h : m.Mirrors r) {depth : Nat} {action : Action}
    (hno : ∀ x ∈ m.moments depth action, x.move.compiles = false) :
    Machine.Follows (m.perform depth action) (r.perform depth action) :=
  follows_action (Program.execute_mirrors depth) action h hno

/-- So does a call of a procedure that is stepped. -/
theorem Machine.Mirrors.stepCall {m r : Machine} (h : m.Mirrors r) {depth : Nat} {c : Coroutine}
    (hno : ∀ x ∈ c.moments (Program.execute depth) (Program.tell depth) false m,
      x.move.compiles = false) :
    Machine.Follows (c.step (Program.execute depth) false m)
      (c.step (Program.execute depth) false r) :=
  follows_call (Program.execute_mirrors depth) h hno

end BlockThreads
