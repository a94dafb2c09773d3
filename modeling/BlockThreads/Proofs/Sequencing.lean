import Mathlib.Logic.Function.Iterate
import BlockThreads.Proofs.ScriptHomes
import BlockThreads.Proofs.Stopping

/-!
# Going on from block to block

A thread goes on through its script at one level of its stack. The block on top makes room for
the one that comes next, and the frame is cleared, but for its warp mode. Nothing else on the
thread or on its host changes, however long the thread goes on, and also if the script is a
cycle.

What comes next is asked of the home of the block, the first container that has a block with
the id. If the block is the last one there, the script has come to its end, even if another
container has a block with that id and knows one that comes next. A level that has run off the
end of its script stays there.

Results:
1. `Machine.goToNext_levels`: one step, on the levels of the stack.
2. `Machine.chain_of_own`: a script whose blocks are all in the container of the thread is
   the one that this container tells by itself.
3. `Machine.walks_the_chain`: any number of steps.
-/

namespace BlockThreads

namespace Machine

/-- The block that comes after another one, by the container that is the home of that one. -/
def nextOf (m : Machine) (id : String) : Option String :=
  (m.host.home? m.thread id).bind fun place => (m.host.container place).nextOf id

/-- Where a level is that has gone on so many times. Behind the end of a script there is
nothing to go on to. -/
def chain (m : Machine) (steps : Nat) (entry : Option String) : Option String :=
  (fun entry : Option String => entry.bind m.nextOf)^[steps] entry

/-- The container whose blocks the thread runs. -/
def ownContainer (m : Machine) : Container := m.host.container m.thread.container

variable {m : Machine} {entry : Option String} {frame : Frame}
  {below : List (Option String × Frame)}

/-! ## What comes next -/

theorem nextOf_eq (m : Machine) (id : String) : m.nextOf id = (m.block? id).bind Block.next := by
  rw [Machine.block?, Host.block?_eq_home, Option.bind_assoc]
  rfl

/-- The container of the thread is the home of each of its blocks. -/
theorem nextOf_of_own {id : String} (h : (m.ownContainer.block? id).isSome) :
    m.nextOf id = m.ownContainer.nextOf id := by
  have hhome : m.host.home? m.thread id = some m.thread.container :=
    List.find?_cons_of_pos h
  rw [nextOf, hhome]
  rfl

theorem nextId_of_stack {rest : List (Option String)} (h : m.state.stack = entry :: rest) :
    m.nextId = entry.bind m.nextOf := by
  have hpeek : m.state.peek = entry := by
    rw [ThreadState.peek, h]
    cases entry <;> rfl
  rw [nextId, hpeek, Option.bind_assoc]
  exact congrArg entry.bind (funext fun id => (nextOf_eq m id).symm)

theorem chain_succ (m : Machine) (steps : Nat) (entry : Option String) :
    m.chain (steps + 1) entry = (m.chain steps entry).bind m.nextOf :=
  Function.iterate_succ_apply' _ steps entry

/-- As long as the container of the thread has the blocks that come along, it tells by itself
what comes next. -/
theorem chain_of_own {steps : Nat} (h : ∀ k < steps, ∀ id, m.chain k entry = some id →
      (m.ownContainer.block? id).isSome) :
    m.chain steps entry =
      (fun entry : Option String => entry.bind m.ownContainer.nextOf)^[steps] entry := by
  induction steps with
  | zero => rfl
  | succ steps ih =>
    have hchain := ih fun k hk => h k (Nat.lt_succ_of_lt hk)
    rw [chain_succ, Function.iterate_succ_apply', ← hchain]
    cases hid : m.chain steps entry with
    | none => rfl
    | some id => exact nextOf_of_own (h steps (Nat.lt_succ_self steps) id hid)

/-! ## Steps -/

theorem goToNext_of_empty (h : m.state.stack = []) : m.goToNext = m := by
  have hstill : m.state.reuse m.nextId = m.state := by
    rw [ThreadState.reuse, h]
  exact congrArg (fun s => { m with thread := { m.thread with toThreadState := s } }) hstill

/-- A step changes the top level and nothing else. -/
theorem goToNext_levels (h : m.state.IsAligned) (hlevels : m.levels = below ++ [(entry, frame)]) :
    m.goToNext = m.setLevels (below ++ [(entry.bind m.nextOf, .fresh frame.warpMode)]) := by
  obtain ⟨hstack, hframes⟩ := top_of_levels h hlevels
  refine editState_congr ?_
  rw [nextId_of_stack hstack, ThreadState.reuse, hstack, hframes]
  simp only [List.map_append, List.map_cons, List.map_nil, List.reverse_append,
    List.reverse_cons, List.reverse_nil, List.nil_append, List.singleton_append, Frame.reuse_eq]

/-- After some steps the top level has gone on as many times, and nothing else has changed. -/
theorem iterate_goToNext (h : m.state.IsAligned) (hlevels : m.levels = below ++ [(entry, frame)])
    (steps : Nat) : goToNext^[steps + 1] m =
      m.setLevels (below ++ [(m.chain (steps + 1) entry, .fresh frame.warpMode)]) := by
  induction steps with
  | zero => exact goToNext_levels h hlevels
  | succ steps ih =>
    -- the frame that is left is fresh already, and what comes next is asked of the same host
    have hnext := goToNext_levels (isAligned_setLevels _ m) (levels_setLevels
      (below ++ [(m.chain (steps + 1) entry, Frame.fresh frame.warpMode)]) m)
    rw [Function.iterate_succ_apply', ih, hnext, chain_succ m (steps + 1)]
    rfl

/-- A thread that goes on again and again. With nothing on the stack nothing happens. Else the
top level goes on through the chain of the blocks that come next, its frame is as good as new
but for its warp mode, and nothing else changes: not the levels below it, not the rest of the
thread, not the pools or anything else of the host. As far as the container of the thread has
the blocks of the chain, it is the chain that the container tells by itself. -/
theorem walks_the_chain (m : Machine) (h : m.state.IsAligned) :
    (m.state.stack = [] → ∀ steps, goToNext^[steps] m = m) ∧
    (∀ below entry frame, m.levels = below ++ [(entry, frame)] →
      ∀ steps, 1 ≤ steps → goToNext^[steps] m =
        m.setLevels (below ++ [(m.chain steps entry, .fresh frame.warpMode)])) ∧
    ∀ entry steps, (∀ k < steps, ∀ id, m.chain k entry = some id →
        (m.ownContainer.block? id).isSome) →
      m.chain steps entry =
        (fun entry : Option String => entry.bind m.ownContainer.nextOf)^[steps] entry := by
  refine ⟨fun hempty steps => ?_, fun below entry frame hlevels steps hsteps => ?_,
    fun entry steps => chain_of_own⟩
  · exact Function.iterate_fixed (goToNext_of_empty hempty) steps
  · obtain ⟨steps, rfl⟩ := Nat.exists_eq_add_of_le' hsteps
    exact iterate_goToNext h hlevels steps

/-! ## A cycle through two containers -/

/-- A thread that has come to a block, in warp mode. The container of the thread leads from "a"
to "b", and that of the target leads back; it knows a successor of "last", too, but the
container of the thread has none. -/
def exOnCycle (id : String) : Machine :=
  setLevels [(some "hat", {}), (some id, { warpMode := true, isLoop := true })]
    { thread :=
        { top := "hat"
          target := { id := "sprite", name := "Sprite", container := some "main" }
          container := some "own"
          pool := "pool" }
      host :=
        { containers := .ofList
            [(some "own", { blocks := .ofList [
                ("a", { opcode := "wait", next := some "b" }), ("last", { opcode := "say" })] }),
              (some "main", { blocks := .ofList [
                ("a", { opcode := "stop" }), ("b", { opcode := "wait", next := some "a" }),
                ("last", { opcode := "say", next := some "a" })] })] } }

/-- The thread goes round the cycle, and comes to the end behind "last". -/
theorem walks_the_chain_round :
    goToNext^[3] (exOnCycle "a") =
        (exOnCycle "a").setLevels [(some "hat", {}), (some "b", .fresh true)] ∧
      goToNext^[2] (exOnCycle "last") =
        (exOnCycle "last").setLevels [(some "hat", {}), (none, .fresh true)] ∧
      (exOnCycle "a").chain 1 (some "a") = (exOnCycle "a").ownContainer.nextOf "a" := by
  have hcycle := walks_the_chain (exOnCycle "a") (isAligned_setLevels _ _)
  have hlast := walks_the_chain (exOnCycle "last") (isAligned_setLevels _ _)
  refine ⟨?_, ?_, hcycle.2.2 (some "a") 1 ?_⟩
  · exact hcycle.2.1 [(some "hat", {})] (some "a") _ (levels_setLevels _ _) 3 (by decide)
  · exact hlast.2.1 [(some "hat", {})] (some "last") _ (levels_setLevels _ _) 2 (by decide)
  · intro k hk id hid
    obtain rfl : k = 0 := Nat.lt_one_iff.mp hk
    cases hid
    rfl

end Machine

end BlockThreads
