import BlockThreads.Config
import BlockThreads.Container
import BlockThreads.Event
import BlockThreads.Pool

/-!
# Hosts

A `Host` is everything that threads share: the settings, the containers, the pools,
the compilers, the sequencer, the clock, and the trace of what has happened. A
`Machine` is a thread together with its host, the state that operations work on.

A block that a thread mentions is looked for in three containers, its own, that of its
target and the palette; the first that has a block with the id decides.
-/

namespace BlockThreads

/-- What stops threads from outside: `retire` is what it does with a thread. -/
structure Sequencer where
  retire : Program Unit

/-- Everything that threads share. -/
structure Host where
  config : Config := {}
  containers : Table ContainerId Container := .empty
  /-- The blocks of the palette, which can be run by clicking them. -/
  palette : ContainerId := none
  compilers : Table String Compiler := .empty
  sequencer : Option Sequencer := none
  pools : Table PoolId Pool := .empty
  /-- Frames that are given back are kept for later. A host that does not recycle throws
  them away, so that every frame is made anew. -/
  recycles : Bool := true
  /-- The time in milliseconds. -/
  now : Nat := 0
  /-- What has happened, the latest first. -/
  trace : List Event := []

namespace Host

/-! ## The parts of a host -/

/-- The container with a name; one that was never heard of is empty. -/
def container (h : Host) (id : ContainerId) : Container := (h.containers.get? id).getD .empty

def editContainer (id : ContainerId) (edit : Container → Container) (h : Host) : Host :=
  { h with containers := h.containers.insert id (edit (h.container id)) }

/-- The pool with a name; one that was never heard of is empty. -/
def pool (h : Host) (id : PoolId) : Pool := (h.pools.get? id).getD {}

/-- Puts a pool in the place of the one with that name. -/
def setPool (id : PoolId) (pool : Pool) (h : Host) : Host :=
  { h with pools := h.pools.insert id pool }

/-- The compiler with a name; one that was never heard of does nothing. -/
def compiler (h : Host) (name : String) : Compiler := (h.compilers.get? name).getD .idle

def record (event : Event) (h : Host) : Host := { h with trace := event :: h.trace }

def recordAll (events : List Event) (h : Host) : Host :=
  { h with trace := events.reverse ++ h.trace }

def log (note : Note) (h : Host) : Host := h.record (.log note)

/-- The events since an earlier time, the earliest first. -/
def eventsSince (earlier h : Host) : List Event :=
  (h.trace.take (h.trace.length - earlier.trace.length)).reverse

/-! ## Pools -/

def createFrame (id : PoolId) (warpMode : Bool) (h : Host) : Frame × Host :=
  let created := (h.pool id).create warpMode
  let h := if (h.pool id).isEmpty then h.log .allocatingFrame else h
  (created.1, h.setPool id created.2)

def releaseFrames (id : PoolId) (frames : List Frame) (h : Host) : Host :=
  if h.recycles then h.setPool id ((h.pool id).releaseAll frames) else h

/-! ## Blocks -/

/-- Finds the block that a thread means by an id. -/
def block? (h : Host) (t : Thread) (id : String) : Option Block :=
  ((h.container t.container).block? id).or
    (((h.container t.target.container).block? id).or ((h.container h.palette).block? id))

/-- The container that remembers the outcome of compiling a thread's script: the one
the thread runs if that has the block the script starts from, else the palette. -/
def outcomePlace (h : Host) (t : Thread) : ContainerId :=
  if ((h.container t.container).block? t.top).isSome then t.container else h.palette

def remember (id : ContainerId) (top : String) (outcome : Outcome) (h : Host) : Host :=
  (h.log (.remembering top outcome)).editContainer id (Container.remember top outcome)

end Host

/-! ## Machines -/

/-- A thread and the host it runs on. -/
structure Machine where
  thread : Thread
  host : Host

namespace Machine

def state (m : Machine) : ThreadState := m.thread.toThreadState

def editState (edit : ThreadState → ThreadState) (m : Machine) : Machine :=
  { m with thread := m.thread.editState edit }

def editHost (edit : Host → Host) (m : Machine) : Machine := { m with host := edit m.host }

def block? (m : Machine) (id : String) : Option Block := m.host.block? m.thread id

def log (note : Note) (m : Machine) : Machine := m.editHost (Host.log note)

def record (event : Event) (m : Machine) : Machine := m.editHost (Host.record event)

def createFrame (warpMode : Bool) (m : Machine) : Frame × Machine :=
  let created := m.host.createFrame m.thread.pool warpMode
  (created.1, { m with host := created.2 })

def releaseFrames (frames : List Frame) (m : Machine) : Machine :=
  m.editHost (Host.releaseFrames m.thread.pool frames)

@[simp]
theorem createFrame_thread (warpMode : Bool) (m : Machine) :
    (m.createFrame warpMode).2.thread = m.thread := rfl

@[simp]
theorem releaseFrames_thread (frames : List Frame) (m : Machine) :
    (m.releaseFrames frames).thread = m.thread := rfl

end Machine

end BlockThreads
