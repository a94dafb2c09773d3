import BlockThreads.Proofs.ScriptHomes

/-!
# How far a recursive call is looked for

Before a procedure is called, the thread guesses whether the call is recursive. It looks for a
call of the same procedure in the frames around the top one: not in the top frame itself, which
belongs to the call that is about to be made, and not further than five frames below it. A frame
counts if the block that it notes, looked up where the thread finds its blocks, calls the
procedure. The first container that has the block decides, whatever the others have.

So the guess hangs on five notes. Nothing else on the thread matters, neither what the blocks of
its stack are nor what lies deeper.

Results:
1. `callsAt_iff`: whether a frame counts can be told from its note and the block that is meant.
2. `recursion_window`: the range of the guess, and two threads whose notes agree in this range
   come to the same guess.
-/

namespace BlockThreads

namespace Machine

/-- The block that is noted so many frames below the top one. A frame that is not there notes
nothing. -/
def notedAt (distance : Nat) (m : Machine) : Option Operation :=
  m.state.frames[distance]?.bind Frame.op

/-- The frame so many frames below the top one runs a call of a procedure: its note means a
block, which is found at its home, calls a procedure and has the code of this one. -/
def CallsAt (code : String) (distance : Nat) (m : Machine) : Prop :=
  ∃ op place block, m.notedAt distance = some op ∧
    m.host.home? m.thread op.id = some place ∧
    (m.host.container place).block? op.id = some block ∧
    block.opcode = Block.callOpcode ∧ block.mutation = some ⟨code⟩

/-- Two threads look blocks up in the same containers. -/
structure SameContainers (m n : Machine) : Prop where
  own : n.host.container n.thread.container = m.host.container m.thread.container
  target : n.host.container n.thread.target.container =
    m.host.container m.thread.target.container
  palette : n.host.container n.host.palette = m.host.container m.host.palette

end Machine

namespace RecursiveCallsLemmas

open Machine

variable {m n : Machine} {code : String} {distance : Nat} {frame : Frame}

/-- Threads with the same containers mean the same blocks. -/
theorem block?_eq (h : m.SameContainers n) : n.block? = m.block? := by
  funext id
  unfold Machine.block? Host.block?
  rw [h.own, h.target, h.palette]

theorem callsProcedure_iff :
    m.callsProcedure code frame ↔
      ∃ op block, frame.op = some op ∧ m.block? op.id = some block ∧
        block.proccode = some code := by
  unfold callsProcedure
  cases hop : frame.op with
  | none => simp
  | some op =>
    rw [Option.bind_some]
    cases hblock : m.block? op.id with
    | none => simp [hblock]
    | some block => simp [hblock]

/-- Whether a frame counts can be told from its note and the block that is meant. -/
theorem callsAt_iff :
    m.CallsAt code distance ↔
      ∃ op block, m.notedAt distance = some op ∧ m.block? op.id = some block ∧
        block.proccode = some code := by
  constructor
  · rintro ⟨op, place, block, hop, hhome, hblock, hcalls⟩
    exact ⟨op, block, hop, Host.block?_eq_some_iff.mpr ⟨place, hhome, hblock⟩,
      Block.proccode_eq_some_iff.mpr hcalls⟩
  · rintro ⟨op, block, hop, hblock, hcode⟩
    obtain ⟨place, hhome, hblock⟩ := Host.block?_eq_some_iff.mp hblock
    exact ⟨op, place, block, hop, hhome, hblock, Block.proccode_eq_some_iff.mp hcode⟩

/-- What counts is the frame that is there. -/
theorem callsAt_iff_frame :
    m.CallsAt code distance ↔
      ∃ frame, m.state.frames[distance]? = some frame ∧ m.callsProcedure code frame := by
  rw [callsAt_iff]
  constructor
  · rintro ⟨op, block, hop, hblock⟩
    obtain ⟨frame, hframe, hop⟩ := Option.bind_eq_some_iff.mp hop
    exact ⟨frame, hframe, callsProcedure_iff.mpr ⟨op, block, hop, hblock⟩⟩
  · rintro ⟨frame, hframe, hcalls⟩
    obtain ⟨op, block, hop, hblock⟩ := callsProcedure_iff.mp hcalls
    exact ⟨op, block, Option.bind_eq_some_iff.mpr ⟨frame, hframe, hop⟩, hblock⟩

/-- The frames that are looked at, by their distance from the top. -/
theorem mem_window_iff :
    frame ∈ m.state.frames.tail.take recursionCheckDepth ↔
      ∃ d, 1 ≤ d ∧ d ≤ recursionCheckDepth ∧ m.state.frames[d]? = some frame := by
  simp only [List.mem_iff_getElem?, List.getElem?_take, List.getElem?_tail]
  constructor
  · rintro ⟨i, hi⟩
    split at hi
    · next hlt => exact ⟨i + 1, Nat.succ_pos i, hlt, hi⟩
    · cases hi
  · rintro ⟨d, hpos, hle, hd⟩
    obtain ⟨i, rfl⟩ := Nat.exists_eq_add_of_le' hpos
    exact ⟨i, (if_pos hle).trans hd⟩

/-- Only a frame that is there counts. -/
theorem lt_of_callsAt (h : m.CallsAt code distance) : distance < m.state.frames.length := by
  obtain ⟨frame, hframe, _⟩ := callsAt_iff_frame.mp h
  exact (List.getElem?_eq_some_iff.mp hframe).1

theorem isRecursive_iff :
    m.isRecursive code ↔ ∃ d, 1 ≤ d ∧ d ≤ recursionCheckDepth ∧ m.CallsAt code d := by
  rw [isRecursive, List.any_eq_true]
  constructor
  · rintro ⟨frame, hmem, hcalls⟩
    obtain ⟨d, hpos, hle, hd⟩ := mem_window_iff.mp hmem
    exact ⟨d, hpos, hle, callsAt_iff_frame.mpr ⟨frame, hd, hcalls⟩⟩
  · rintro ⟨d, hpos, hle, hd⟩
    obtain ⟨frame, hframe, hcalls⟩ := callsAt_iff_frame.mp hd
    exact ⟨frame, mem_window_iff.mpr ⟨d, hpos, hle, hframe⟩, hcalls⟩

/-- The note and the containers decide whether a frame counts. -/
theorem callsAt_congr (h : m.SameContainers n) (hnoted : n.notedAt distance = m.notedAt distance) :
    n.CallsAt code distance ↔ m.CallsAt code distance := by
  rw [callsAt_iff, callsAt_iff, hnoted, block?_eq h]

end RecursiveCallsLemmas

namespace Machine

open RecursiveCallsLemmas

/-- A call looks recursive exactly if a frame one to five frames below the top one runs a call of
the procedure. So two threads with the same containers whose notes agree at these distances come
to the same guess for every procedure, whatever their top frames and all deeper ones hold. -/
theorem recursion_window (m : Machine) :
    (∀ code, m.isRecursive code ↔
      ∃ d, 1 ≤ d ∧ d ≤ 5 ∧ d < m.state.frames.length ∧ m.CallsAt code d) ∧
    ∀ n : Machine, m.SameContainers n →
      (∀ d, 1 ≤ d → d ≤ 5 → n.notedAt d = m.notedAt d) →
        ∀ code, n.isRecursive code = m.isRecursive code := by
  constructor
  · intro code
    rw [isRecursive_iff]
    constructor
    · rintro ⟨d, hpos, hle, hd⟩
      exact ⟨d, hpos, hle, lt_of_callsAt hd, hd⟩
    · rintro ⟨d, hpos, hle, _, hd⟩
      exact ⟨d, hpos, hle, hd⟩
  · intro n hsame hnoted code
    rw [Bool.eq_iff_iff, isRecursive_iff, isRecursive_iff]
    refine exists_congr fun d => and_congr_right fun hpos => and_congr_right fun hle => ?_
    exact callsAt_congr hsame (hnoted d hpos hle)

end Machine

/-! ## A shadowed call -/

def exCallOf (code : String) : Block :=
  { opcode := Block.callOpcode, mutation := some { proccode := code } }

/-- A thread with these notes in its frames. The target has the two calls "greet" and "wave", and
the container of the thread has another block under the id of the second one. -/
def exShadowing (notes : List (Option Operation)) : Machine where
  thread :=
    { top := "hat"
      target := { id := "sprite", name := "Sprite", container := some "main" }
      container := some "own"
      pool := "pool"
      stack := notes.map fun note => note.map Operation.id
      frames := notes.map fun note => { op := note } }
  host :=
    { containers := .ofList
        [(some "own", { blocks := .ofList [("wave", { opcode := "control_wait" })] }),
          (some "main",
            { blocks := .ofList [("greet", exCallOf "greet"), ("wave", exCallOf "wave")] })] }

def exGreet : Operation := ⟨"greet", Block.callOpcode⟩

def exWave : Operation := ⟨"wave", Block.callOpcode⟩

/-- A thread five frames above the call "greet". -/
def exNear : Machine := exShadowing [none, some exWave, none, none, none, some exGreet]

/-- Another top frame, and one frame more at the base. -/
def exDeeper : Machine :=
  exShadowing [some exGreet, some exWave, none, none, none, some exGreet, some exWave]

/-- Both threads come to the same guess: the call "greet" looks recursive, and the call "wave",
which is hidden from the threads, does not. -/
theorem recursion_window_shadowed :
    exNear.SameContainers exDeeper ∧
      (∀ code, exDeeper.isRecursive code = exNear.isRecursive code) ∧
      exNear.isRecursive "greet" ∧ exDeeper.isRecursive "wave" = false := by
  have hsame : exNear.SameContainers exDeeper := ⟨rfl, rfl, rfl⟩
  have hnoted : ∀ d < 6, 1 ≤ d → exDeeper.notedAt d = exNear.notedAt d := by decide
  have hagree := (Machine.recursion_window exNear).2 exDeeper hsame
    fun d hpos hle => hnoted d (Nat.lt_succ_of_le hle) hpos
  refine ⟨hsame, hagree, ?_, ?_⟩
  · refine ((Machine.recursion_window exNear).1 "greet").mpr
      ⟨5, by decide, by decide, by decide, exGreet, some "main", ?_⟩
    exact ⟨_, rfl, rfl, rfl, rfl, rfl⟩
  · rw [hagree "wave"]
    rfl

end BlockThreads
