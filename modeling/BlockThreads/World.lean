import BlockThreads.Execution

/-!
# Worlds

A `World` is a host with all its threads. Besides, it keeps what the owner of the
threads has at hand: coroutines of procedure calls, and frames and pools that belong
to no thread. A `Command` is what the owner can do next: let a thread perform an
action, make and drop threads, change the containers, use the pools. A run of the
world carries out a list of commands, each at some time.

Results:
1. `perform_act`: an action of a thread works on the machine of that thread.
-/

namespace BlockThreads

/-- A host, its threads, and what their owner has at hand. -/
structure World where
  host : Host := {}
  targets : Table String Target := .empty
  threads : Table String Thread := .empty
  /-- Coroutines of procedure calls. -/
  calls : Table String Coroutine := .empty
  /-- Frames that belong to no thread. -/
  frames : Table String Frame := .empty
  /-- The pools at hand, by number. Two of them may be the same pool. -/
  handles : List PoolId := []

/-- What the owner of a world can do. -/
inductive Command where
  | act (thread : String) (action : Action)
  /-- Makes a thread; by default it runs the blocks of its target. One that had the
  name is dropped. -/
  | newThread (thread target top : String) (container : Option ContainerId) (pool : PoolId)
  | dropThread (thread : String)
  | nameOf (target top : String)
  /-- Calls a procedure and keeps its coroutine. -/
  | makeCall (thread code call : String) (arguments : List Value)
  /-- Steps a coroutine that was kept, with any thread. -/
  | stepCall (thread call : String)
  | insertBlock (container : ContainerId) (id : String) (block : Block)
  | getBlock (container : ContainerId) (id : String)
  | nextOf (container : ContainerId) (id : String)
  | outcome (container : ContainerId) (top : String)
  | remember (container : ContainerId) (top : String) (outcome : Outcome)
  | forget (container : ContainerId)
  | poolSize (pool : PoolId)
  | newPool
  /-- Makes another handle on a pool. -/
  | sharePool (handle : Nat)
  | createFrame (slot : String) (warpMode : Bool) (handle : Nat)
  | newFrame (slot : String) (warpMode : Bool)
  | releaseFrame (slot : String) (handle : Nat)
  | editFrame (slot : String) (edit : Frame → Frame)

inductive Reply where
  | answer (answer : Answer)
  | block (block : Option Block)
  | outcome (outcome : Option Outcome)
  | size (count : Nat) (isEmpty : Bool)
  | text (text : String)
  | number (number : Nat)
  /-- The command names something that is not there. -/
  | unknown

def Reply.done : Reply := .answer .done

/-- A command and the time at which it is carried out. -/
structure Task where
  time : Nat
  command : Command

namespace World

/-! ## Threads -/

/-- Works on the machine of a thread, if there is such a thread. -/
def onThread {α : Type} (name : String) (work : Machine → Option (α × Machine)) (w : World) :
    Option (Option α × World) :=
  match w.threads.get? name with
  | none => some (none, w)
  | some thread =>
    (work ⟨thread, w.host⟩).map fun r =>
      (some r.1, { w with host := r.2.host, threads := w.threads.insert name r.2.thread })

/-- Drops a thread. Its frames go back to their pool. -/
def dropThread (name : String) (w : World) : World :=
  match w.threads.get? name with
  | none => w
  | some thread =>
    { w with
      host := w.host.releaseFrames thread.pool thread.frames.reverse
      threads := w.threads.erase name }

/-- Makes a thread, and drops one that had its name. -/
def newThread (name : String) (target : Target) (top : String) (container : ContainerId)
    (pool : PoolId) (w : World) : World :=
  let w := w.dropThread name
  { w with
    host := w.host.setPool pool (w.host.pool pool)
    threads := w.threads.insert name { top, target, container, pool } }

/-- Calls a procedure of a thread and keeps its coroutine. Answers whether the thread
has the procedure. -/
def makeCall (code call : String) (arguments : List Value) (thread : Thread) (w : World) :
    Bool × World :=
  match thread.procedure? code with
  | none => (false, w)
  | some procedure =>
    (true,
      { w with
        host := w.host.record (.call code procedure.binding arguments)
        calls := w.calls.insert call (procedure.call arguments) })

def stepCall (depth : Nat) (thread call : String) (coroutine : Coroutine) (w : World) :
    Option (Reply × World) :=
  (w.onThread thread (coroutine.step (Program.execute depth) false)).map fun r =>
    match r.1 with
    | none => (.unknown, r.2)
    | some (step, coroutine) =>
      (.answer (.step (some step)), { r.2 with calls := r.2.calls.insert call coroutine })

/-! ## Frames and pools at hand -/

def poolOf (handle : Nat) (w : World) : PoolId := w.handles[handle]?.getD ""

/-- Makes a handle on a pool. Answers its number. -/
def addHandle (pool : PoolId) (w : World) : Reply × World :=
  (.number w.handles.length, { w with handles := w.handles ++ [pool] })

/-- The size of the pool behind every handle. -/
def handleSizes (w : World) : List (Nat × Bool) :=
  w.handles.map fun id => ((w.host.pool id).size, (w.host.pool id).isEmpty)

/-- Keeps a frame, in place of one that was kept in the slot. -/
def keepFrame (slot : String) (frame : Frame) (w : World) : Reply × World :=
  (.answer (.frame (some frame)), { w with frames := w.frames.insert slot frame })

/-- Takes a frame from a pool and keeps it. -/
def createFrame (slot : String) (warpMode : Bool) (pool : PoolId) (w : World) : Reply × World :=
  let created := w.host.createFrame pool warpMode
  { w with host := created.2 }.keepFrame slot created.1

/-- Gives a frame that was kept back to a pool. Answers whether there was one. -/
def releaseFrame (slot : String) (pool : PoolId) (w : World) : Reply × World :=
  match w.frames.get? slot with
  | none => (.answer (.flag false), w)
  | some frame =>
    (.answer (.flag true),
      { w with host := w.host.releaseFrames pool [frame], frames := w.frames.erase slot })

def editFrame (slot : String) (edit : Frame → Frame) (w : World) : Reply × World :=
  match w.frames.get? slot with
  | none => (.answer (.frame none), w)
  | some frame => w.keepFrame slot (edit frame)

/-! ## Commands -/

/-- Changes the host and says nothing. -/
def editHost (edit : Host → Host) (w : World) : Reply × World :=
  (.done, { w with host := edit w.host })

/-- Carries out a command. Foreign code may be nested `depth` deep. -/
def perform (depth : Nat) (w : World) : Command → Option (Reply × World)
  | .act thread action =>
    (w.onThread thread (Machine.perform depth action)).map fun r =>
      (r.1.elim .unknown .answer, r.2)
  | .newThread thread target top container pool =>
    some <|
      match w.targets.get? target with
      | none => (.unknown, w)
      | some target => (.done, w.newThread thread target top (container.getD target.container) pool)
  | .dropThread thread =>
    some (.answer (.flag (w.threads.contains thread)), w.dropThread thread)
  | .nameOf target top => some (.text (Thread.nameOf target top), w)
  | .makeCall thread code call arguments =>
    some <|
      match w.threads.get? thread with
      | none => (.unknown, w)
      | some thread =>
        let made := w.makeCall code call arguments thread
        (.answer (.flag made.1), made.2)
  | .stepCall thread call =>
    match w.calls.get? call with
    | none => some (.unknown, w)
    | some coroutine => w.stepCall depth thread call coroutine
  | .insertBlock container id block =>
    some (w.editHost (Host.editContainer container (Container.insert id block)))
  | .getBlock container id => some (.block ((w.host.container container).block? id), w)
  | .nextOf container id => some (.answer (.blockId ((w.host.container container).nextOf id)), w)
  | .outcome container top => some (.outcome ((w.host.container container).outcome? top), w)
  | .remember container top outcome => some (w.editHost (Host.remember container top outcome))
  | .forget container => some (w.editHost (Host.editContainer container Container.forget))
  | .poolSize pool =>
    let w := { w with host := w.host.setPool pool (w.host.pool pool) }
    some (.size (w.host.pool pool).size (w.host.pool pool).isEmpty, w)
  | .newPool => some (w.addHandle (toString w.handles.length))
  | .sharePool handle => some (w.addHandle (w.poolOf handle))
  | .createFrame slot warpMode handle => some (w.createFrame slot warpMode (w.poolOf handle))
  | .newFrame slot warpMode => some (w.keepFrame slot (.fresh warpMode))
  | .releaseFrame slot handle => some (w.releaseFrame slot (w.poolOf handle))
  | .editFrame slot edit => some (w.editFrame slot edit)

/-! ## Runs -/

/-- The world when its clock shows a time. -/
def atTime (time : Nat) (w : World) : World := { w with host := { w.host with now := time } }

/-- Carries out tasks, one after the other, each at its time. -/
def run (depth : Nat) : World → List Task → Option (List Reply × World)
  | w, [] => some ([], w)
  | w, task :: tasks => do
    let (reply, w) ← (w.atTime task.time).perform depth task.command
    let (replies, w) ← w.run depth tasks
    return (reply :: replies, w)

/-! ## Laws -/

/-- An action of a thread works on the machine of that thread. -/
theorem perform_act {depth : Nat} {w : World} {name : String} {thread : Thread}
    (h : w.threads.get? name = some thread) (action : Action) :
    w.perform depth (.act name action) =
      (Machine.perform depth action ⟨thread, w.host⟩).map fun r =>
        (.answer r.1,
          { w with host := r.2.host, threads := w.threads.insert name r.2.thread }) := by
  simp only [perform, onThread, h, Option.map_map]
  rfl

end World

end BlockThreads
