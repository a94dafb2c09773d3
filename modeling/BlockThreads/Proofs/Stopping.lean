import Mathlib.Data.List.Induction
import BlockThreads.Proofs.Levels
import BlockThreads.Proofs.Mirroring
import BlockThreads.Proofs.ScriptHomes

/-!
# The effect of stopping

Stopping a script gives the levels above the topmost one that stands in the way back, and
leaves the levels below it as they are. A level without a block, or one that waits for a
reporter, stays as it is itself; at a call the thread goes on behind the call, with a frame
that is new but for its warp mode. If nothing stands in the way then nothing is left, the
thread is done and does not ask to glow.

The levels are counted from the base of the stack here, so that those that stay keep their
numbers. Whether a level calls a procedure is asked of the home of its block.

Results:
1. `Machine.drop_eq`, `Machine.giveBack_succ`: a level that is dropped puts one clear frame
   into the pool, whatever its own frame held.
2. `Machine.stopScript_exactly`: what stopping does, by the topmost level in its way.
-/

namespace BlockThreads

namespace Machine

/-! ## Levels -/

/-- The blocks and the frames of a thread, level by level, the base first. -/
def levels (m : Machine) : List (Option String × Frame) :=
  (m.state.stack.zip m.state.frames).reverse

/-- Gives the thread other levels. -/
def setLevels (levels : List (Option String × Frame)) (m : Machine) : Machine :=
  m.editState fun s =>
    { s with stack := (levels.map Prod.fst).reverse, frames := (levels.map Prod.snd).reverse }

/-- Puts so many clear frames into the pool of the thread. A host that does not recycle throws
them away. -/
def giveBack (count : Nat) (m : Machine) : Machine :=
  if m.host.recycles ∧ 0 < count then
    { m with
      host := { m.host with
        pools := m.host.pools.insert m.thread.pool
          ⟨List.replicate count (.fresh false) ++ (m.host.pool m.thread.pool).free⟩ } }
  else m

/-- A level stands in the way of stopping if it has no block, if it waits for a reporter or
if its block, which is found at its home, calls a procedure. -/
def StandsInWay (m : Machine) (level : Option String × Frame) : Prop :=
  level.1 = none ∨ level.2.waitingReporter ∨
    ∃ id place block, level.1 = some id ∧ m.host.home? m.thread id = some place ∧
      (m.host.container place).block? id = some block ∧ block.opcode = Block.callOpcode

variable {m : Machine} {level top : Option String × Frame}
  {below above levels : List (Option String × Frame)}

theorem stack_eq_levels (h : m.state.IsAligned) :
    m.state.stack = (m.levels.map Prod.fst).reverse := by
  rw [Machine.levels, List.map_reverse, List.reverse_reverse, List.map_fst_zip (Nat.le_of_eq h)]

theorem frames_eq_levels (h : m.state.IsAligned) :
    m.state.frames = (m.levels.map Prod.snd).reverse := by
  rw [Machine.levels, List.map_reverse, List.reverse_reverse,
    List.map_snd_zip (Nat.le_of_eq h.symm)]

theorem setLevels_levels (h : m.state.IsAligned) : m.setLevels m.levels = m := by
  unfold setLevels
  rw [← stack_eq_levels h, ← frames_eq_levels h]
  rfl

/-- The top of the stack is its last level. -/
theorem top_of_levels (h : m.state.IsAligned) (hlevels : m.levels = below ++ [top]) :
    m.state.stack = top.1 :: (below.map Prod.fst).reverse ∧
      m.state.frames = top.2 :: (below.map Prod.snd).reverse := by
  rw [stack_eq_levels h, frames_eq_levels h, hlevels]
  simp only [List.map_append, List.map_cons, List.map_nil, List.reverse_append,
    List.reverse_cons, List.reverse_nil, List.nil_append, List.singleton_append, and_self]

theorem editState_congr {edit edit' : ThreadState → ThreadState}
    (h : edit m.state = edit' m.state) : m.editState edit = m.editState edit' := by
  show { m with thread := { m.thread with toThreadState := edit m.state } } = _
  rw [h]
  rfl

theorem levels_setLevels (levels : List (Option String × Frame)) (m : Machine) :
    (m.setLevels levels).levels = levels := by
  show (List.zip (levels.map Prod.fst).reverse (levels.map Prod.snd).reverse).reverse = levels
  rw [← List.map_reverse, ← List.map_reverse, List.zip_map']
  show (levels.reverse.map fun level => level).reverse = levels
  rw [List.map_id', List.reverse_reverse]

theorem isAligned_setLevels (levels : List (Option String × Frame)) (m : Machine) :
    (m.setLevels levels).state.IsAligned := by
  show (levels.map Prod.fst).reverse.length = (levels.map Prod.snd).reverse.length
  rw [List.length_reverse, List.length_reverse, List.length_map, List.length_map]

/-- Dropping the top level leaves the levels below it. -/
theorem drop_eq (h : m.state.IsAligned) (hlevels : m.levels = below ++ [top]) :
    m.drop = (m.releaseFrames [top.2]).setLevels below := by
  obtain ⟨hstack, hframes⟩ := top_of_levels h hlevels
  have hreleased : m.drop = (m.releaseFrames [top.2]).editState fun s =>
      { s with stack := s.stack.tail, frames := s.frames.tail } := by
    unfold drop
    rw [hframes]
    rfl
  rw [hreleased]
  refine editState_congr ?_
  show { m.state with stack := m.state.stack.tail, frames := m.state.frames.tail } = _
  rw [hstack, hframes]
  rfl

/-! ## Giving frames back -/

theorem giveBack_zero (m : Machine) : m.giveBack 0 = m :=
  if_neg fun h => Nat.lt_irrefl 0 h.2

theorem giveBack_of_recycles {count : Nat} (h : m.host.recycles) (hpos : 0 < count) :
    m.giveBack count =
      { m with
        host := { m.host with
          pools := m.host.pools.insert m.thread.pool
            ⟨List.replicate count (.fresh false) ++ (m.host.pool m.thread.pool).free⟩ } } :=
  if_pos ⟨h, hpos⟩

theorem giveBack_of_thrown (h : m.host.recycles = false) (count : Nat) : m.giveBack count = m :=
  if_neg fun hboth => Bool.false_ne_true (h.symm.trans hboth.1)

/-- Giving frames back changes nothing about the thread. -/
theorem thread_giveBack (count : Nat) (m : Machine) : (m.giveBack count).thread = m.thread := by
  unfold giveBack
  split <;> rfl

/-- The frames that are given back are in the pool, on top of those that were there. -/
theorem free_giveBack (hrecycles : m.host.recycles) (count : Nat) :
    ((m.giveBack count).host.pool m.thread.pool).free =
      List.replicate count (.fresh false) ++ (m.host.pool m.thread.pool).free := by
  cases count with
  | zero =>
    rw [giveBack_zero]
    rfl
  | succ count =>
    rw [giveBack_of_recycles hrecycles (Nat.succ_pos count), Host.pool, Table.get?_insert_self]
    rfl

/-- Frames may be given back in parts. -/
theorem giveBack_giveBack (first more : Nat) (m : Machine) :
    (m.giveBack first).giveBack more = m.giveBack (more + first) := by
  cases hrecycles : m.host.recycles with
  | false =>
    rw [giveBack_of_thrown hrecycles, giveBack_of_thrown hrecycles, giveBack_of_thrown hrecycles]
  | true =>
    cases first with
    | zero => rw [giveBack_zero, Nat.add_zero]
    | succ first =>
      cases more with
      | zero => rw [giveBack_zero, Nat.zero_add]
      | succ more =>
        have hfree := free_giveBack hrecycles (first + 1)
        have hfirst := giveBack_of_recycles hrecycles (Nat.succ_pos first)
        have hstill : (m.giveBack (first + 1)).host.recycles := by
          rw [hfirst]
          exact hrecycles
        rw [giveBack_of_recycles hstill (Nat.succ_pos more),
          giveBack_of_recycles hrecycles (Nat.add_pos_left (Nat.succ_pos more) _),
          thread_giveBack, hfree, ← List.append_assoc, List.replicate_append_replicate, hfirst]
        simp only [Table.insert_insert]

/-- A frame is cleared when it is given back, whatever it held. -/
theorem giveBack_succ (frame : Frame) (count : Nat) (m : Machine) :
    m.giveBack (count + 1) = (m.releaseFrames [frame]).giveBack count := by
  have hrelease : m.releaseFrames [frame] =
      { m with host := m.host.releaseFrames m.thread.pool [frame] } := rfl
  -- nothing of the frame is left in what the pool gets
  have hreleased : m.releaseFrames [frame] = m.giveBack 1 := by
    cases hrecycles : m.host.recycles with
    | false =>
      rw [hrelease, Host.releaseFrames, hrecycles, giveBack_of_thrown hrecycles]
      rfl
    | true =>
      rw [hrelease, Host.releaseFrames, if_pos hrecycles,
        giveBack_of_recycles hrecycles Nat.one_pos]
      rfl
  rw [hreleased, giveBack_giveBack]

/-- Giving frames back has nothing to do with the levels that a thread has. -/
theorem giveBack_setLevels (levels : List (Option String × Frame)) (count : Nat) (m : Machine) :
    (m.setLevels levels).giveBack count = (m.giveBack count).setLevels levels := by
  by_cases h : m.host.recycles ∧ 0 < count
  · rw [giveBack_of_recycles h.1 h.2]
    exact if_pos h
  · have hstill : m.giveBack count = m := if_neg h
    rw [hstill]
    exact if_neg h

theorem restacks_giveBack (count : Nat) (m : Machine) : m.Restacks (m.giveBack count) := by
  induction count generalizing m with
  | zero =>
    rw [giveBack_zero]
    exact .refl m
  | succ count ih =>
    rw [giveBack_succ {}]
    exact (Restacks.releaseFrames _ m).trans (ih _)

/-- A thread means the same blocks, whatever levels it has and gives back. -/
theorem block?_setLevels_giveBack (levels : List (Option String × Frame)) (count : Nat)
    (m : Machine) : ((m.giveBack count).setLevels levels).block? = m.block? :=
  ((restacks_giveBack count m).trans (Restacks.edit _ _ rfl)).block?

/-! ## Stopping -/

/-- Whether a level stands in the way hangs on the block that the thread means. -/
theorem standsInWay_iff : m.StandsInWay level ↔ level.1 = none ∨ level.2.waitingReporter ∨
    ∃ id block, level.1 = some id ∧ m.block? id = some block ∧
      block.opcode = Block.callOpcode := by
  refine or_congr_right (or_congr_right (exists_congr fun id => ?_))
  constructor
  · rintro ⟨place, block, hid, hhome, hblock, hcall⟩
    exact ⟨block, hid, Host.block?_eq_some_iff.mpr ⟨place, hhome, hblock⟩, hcall⟩
  · rintro ⟨block, hid, hblock, hcall⟩
    obtain ⟨place, hhome, hblock⟩ := Host.block?_eq_some_iff.mp hblock
    exact ⟨place, block, hid, hhome, hblock, hcall⟩

theorem standsInWay_drop : m.drop.StandsInWay level ↔ m.StandsInWay level := by
  rw [standsInWay_iff, standsInWay_iff, (Restacks.drop m).block?]

theorem isCall_iff {id : String} :
    m.isCall id ↔ ∃ block, m.block? id = some block ∧ block.opcode = Block.callOpcode := by
  rw [isCall, Option.any_eq_true]
  exact exists_congr fun block => and_congr_right fun _ => beq_iff_eq

theorem isWaiting_of_frames {frame : Frame} {frames : List Frame}
    (h : m.state.frames = frame :: frames) : m.state.isWaiting = frame.waitingReporter := by
  rw [ThreadState.isWaiting, ThreadState.peekFrame, h]
  rfl

/-- A top level that does not stand in the way is dropped. -/
theorem stopScript_of_passed (h : m.state.IsAligned) (hlevels : m.levels = below ++ [top])
    (htop : ¬ m.StandsInWay top) : m.stopScript = m.drop.stopScript := by
  obtain ⟨hstack, hframes⟩ := top_of_levels h hlevels
  simp only [standsInWay_iff, not_or, Bool.not_eq_true] at htop
  obtain ⟨hslot, hwaiting, hcall⟩ := htop
  obtain ⟨id, hid⟩ := Option.ne_none_iff_exists'.mp hslot
  rw [hid] at hstack
  refine stopScript_of_block hstack ((isWaiting_of_frames hframes).trans hwaiting) ?_
  rw [← Bool.not_eq_true, isCall_iff]
  exact fun ⟨block, hblock, hop⟩ => hcall ⟨id, block, hid, hblock, hop⟩

/-- A top level that has no block, or waits for a reporter, stays. -/
theorem stopScript_of_still (h : m.state.IsAligned) (hlevels : m.levels = below ++ [top])
    (hstill : top.1 = none ∨ top.2.waitingReporter) : m.stopScript = m := by
  obtain ⟨hstack, hframes⟩ := top_of_levels h hlevels
  cases hid : top.1 with
  | none =>
    rw [hid] at hstack
    exact stopScript_of_slot hstack
  | some id =>
    have hwaiting := hstill.resolve_left (by rw [hid]; exact nofun)
    rw [hid] at hstack
    exact stopScript_of_waiting hstack ((isWaiting_of_frames hframes).trans hwaiting)

/-- At a call that does not wait the thread goes on behind it, with a new frame. -/
theorem stopScript_of_call_level {id : String} {block : Block} (h : m.state.IsAligned)
    (hlevels : m.levels = below ++ [top]) (hid : top.1 = some id)
    (hwaiting : top.2.waitingReporter = false) (hblock : m.block? id = some block)
    (hcall : block.opcode = Block.callOpcode) :
    m.stopScript = m.setLevels (below ++ [(block.next, .fresh top.2.warpMode)]) := by
  obtain ⟨hstack, hframes⟩ := top_of_levels h hlevels
  rw [hid] at hstack
  have hnext : m.nextId = block.next := by
    rw [nextId, peek_of_stack hstack, Option.bind_some, hblock, Option.bind_some]
  rw [stopScript_of_call hstack ((isWaiting_of_frames hframes).trans hwaiting)
    (isCall_iff.mpr ⟨block, hblock, hcall⟩)]
  refine editState_congr ?_
  rw [ThreadState.reuse, hstack, hframes, hnext]
  simp only [List.map_append, List.map_cons, List.map_nil, List.reverse_append,
    List.reverse_cons, List.reverse_nil, List.nil_append, List.singleton_append, Frame.reuse_eq]

/-- The levels above one that stands in the way are given back, and what happens then is up to
that one. -/
theorem stopScript_of_above (h : m.state.IsAligned) (hlevels : m.levels = below ++ above)
    (habove : ∀ level ∈ above, ¬ m.StandsInWay level) :
    m.stopScript = ((m.giveBack above.length).setLevels below).stopScript := by
  induction above using List.reverseRecOn generalizing m with
  | nil =>
    rw [List.append_nil] at hlevels
    rw [← hlevels, List.length_nil, giveBack_zero]
    exact congrArg stopScript (setLevels_levels h).symm
  | append_singleton above top ih =>
    obtain ⟨habove, htop⟩ := List.forall_mem_append.mp habove
    rw [← List.append_assoc] at hlevels
    rw [stopScript_of_passed h hlevels (htop top (List.mem_singleton.mpr rfl)),
      ih (isAligned_drop h) ?_ fun level hlevel => mt standsInWay_drop.mp (habove level hlevel),
      List.length_append, List.length_singleton, giveBack_succ top.2, drop_eq h hlevels,
      giveBack_setLevels]
    · rfl
    · rw [drop_eq h hlevels, levels_setLevels]

/-- The levels from the one that stands in the way on are those that decide. -/
theorem levels_split {k : Nat} (hlevel : m.levels[k]? = some level)
    (habove : ∀ j other, k < j → m.levels[j]? = some other → ¬ m.StandsInWay other) :
    m.levels = (m.levels.take k ++ [level]) ++ m.levels.drop (k + 1) ∧
      ∀ other ∈ m.levels.drop (k + 1), ¬ m.StandsInWay other := by
  constructor
  · obtain ⟨hk, rfl⟩ := List.getElem?_eq_some_iff.mp hlevel
    rw [List.append_assoc, List.singleton_append, ← List.drop_eq_getElem_cons hk,
      List.take_append_drop]
  · intro other hother
    obtain ⟨i, hi⟩ := List.mem_iff_getElem?.mp hother
    rw [List.getElem?_drop] at hi
    exact habove (k + 1 + i) other (by omega) hi

/-- What stopping does. If no level stands in the way, nothing is left of the stack, as many
frames as it had go back, and the thread is done and does not ask to glow. Else the frames above
the topmost level in the way go back, the levels below it stay, and that level stays too, or goes
on behind its call: its entry is what comes next there, and its frame is new but for its warp
mode. Nothing else happens to the thread, and nothing to its host but that the frames that go back
wait in the pool, clear. -/
theorem stopScript_exactly (m : Machine) (h : m.state.IsAligned) :
    ((∀ level ∈ m.levels, ¬ m.StandsInWay level) →
      m.stopScript = (m.giveBack m.levels.length).editState fun s =>
        { s with stack := [], frames := [], glow := false, status := .done }) ∧
    (∀ k level, m.levels[k]? = some level → m.StandsInWay level →
      (∀ j other, k < j → m.levels[j]? = some other → ¬ m.StandsInWay other) →
      (level.1 = none ∨ level.2.waitingReporter → m.stopScript =
        (m.giveBack (m.levels.length - (k + 1))).setLevels (m.levels.take k ++ [level])) ∧
      ∀ id place block, level.1 = some id → level.2.waitingReporter = false →
        m.host.home? m.thread id = some place → (m.host.container place).block? id = some block →
          m.stopScript = (m.giveBack (m.levels.length - (k + 1))).setLevels
            (m.levels.take k ++ [(block.next, .fresh level.2.warpMode)])) ∧
    ∀ count, (m.giveBack count).thread = m.thread ∧
      (m.host.recycles → ((m.giveBack count).host.pool m.thread.pool).free =
        List.replicate count (.fresh false) ++ (m.host.pool m.thread.pool).free) := by
  refine ⟨fun hall => ?_, fun k level hlevel hstands habove => ?_, fun count =>
    ⟨thread_giveBack count m, fun hrecycles => free_giveBack hrecycles count⟩⟩
  · rw [stopScript_of_above h (List.nil_append _).symm hall]
    exact stopScript_of_empty rfl
  · obtain ⟨hlevels, hpassed⟩ := levels_split hlevel habove
    rw [stopScript_of_above h hlevels hpassed, List.length_drop]
    have haligned := isAligned_setLevels (m.levels.take k ++ [level])
      (m.giveBack (m.levels.length - (k + 1)))
    have hleft := levels_setLevels (m.levels.take k ++ [level])
      (m.giveBack (m.levels.length - (k + 1)))
    refine ⟨fun hstill => stopScript_of_still haligned hleft hstill,
      fun id place block hid hwaiting hhome hfound => ?_⟩
    have hblock := Host.block?_eq_some_iff.mpr ⟨place, hhome, hfound⟩
    have hcall : block.opcode = Block.callOpcode := by
      rcases standsInWay_iff.mp hstands with hslot | hwaits | ⟨_, _, hid', hblock', hcall⟩
      · cases hid.symm.trans hslot
      · cases hwaiting.symm.trans hwaits
      · cases hid.symm.trans hid'
        cases hblock.symm.trans hblock'
        exact hcall
    exact stopScript_of_call_level haligned hleft hid hwaiting
      ((congrFun (block?_setLevels_giveBack _ _ m) id).trans hblock) hcall

/-! ## A script that glows -/

def exCallBlock : Block where
  opcode := Block.callOpcode
  next := some "say"

/-- A frame in warp mode that remembers this and that. -/
def exUsed : Frame where
  isLoop := true
  warpMode := true
  reporting := some "wait"
  params := some (.ofList [("n", .null)])
  op := some ⟨"call", Block.callOpcode⟩

/-- A thread that glows, with some levels, and a frame that waits in its pool. The block "call" is
one of the target, and "jump" is one of the palette. The target has a call with the id "wait",
too, but the thread means the block in its own container. -/
def exLevels (levels : List (Option String × Frame)) : Machine :=
  setLevels levels
    { thread :=
        { top := "hat"
          target := { id := "sprite", name := "Sprite", container := some "main" }
          container := some "own"
          pool := "pool"
          status := .yielded
          glow := true
          blockGlow := some "hat" }
      host :=
        { palette := some "palette"
          containers := .ofList [
            (some "own", { blocks := .ofList [
              ("hat", { opcode := "hat", next := some "call" }), ("wait", { opcode := "wait" })] }),
            (some "main", { blocks := .ofList [("call", exCallBlock), ("wait", exCallBlock)] }),
            (some "palette", { blocks := .ofList [("jump", { opcode := Block.callOpcode })] })]
          pools := .ofList [("pool", ⟨[.fresh false]⟩)] } }

/-- Two blocks that call nothing. -/
def exPassed : List (Option String × Frame) := [(some "hat", exUsed), (some "wait", exUsed)]

/-- A call with another block above it. -/
def exCalled : List (Option String × Frame) :=
  [(some "hat", exUsed), (some "call", exUsed), (some "wait", exUsed)]

/-- The last block of a script is a call. -/
def exLast : List (Option String × Frame) := [(some "hat", exUsed), (some "jump", exUsed)]

/-- A call that waits, above an empty level. -/
def exWaiting : List (Option String × Frame) :=
  [(none, exUsed), (some "call", { exUsed with waitingReporter := true })]

theorem isAligned_exLevels (levels : List (Option String × Frame)) :
    (exLevels levels).state.IsAligned := isAligned_setLevels levels _

theorem passes_exLevels {id : String} {block : Block} {levels : List (Option String × Frame)}
    (hblock : (exLevels levels).block? id = some block) (hcall : block.opcode ≠ Block.callOpcode) :
    ¬ (exLevels levels).StandsInWay (some id, exUsed) := by
  rw [standsInWay_iff]
  rintro (h | h | ⟨_, _, hid, hblock', hcall'⟩)
  · cases h
  · cases h
  · cases hid
    cases hblock.symm.trans hblock'
    exact hcall hcall'

/-- Blocks that call nothing are passed: the thread is done and glows no more, and the pool has
two clear frames more. A call stands in the way, wherever its block is; the thread goes on behind
it, or comes to the end of the script, and nothing but the warp mode is left of the frame. If the
call waits it stays. -/
theorem stopScript_exactly_call :
    ((exLevels exPassed).state.glow ∧ (exLevels exPassed).stopScript =
      ((exLevels exPassed).giveBack 2).editState fun s =>
        { s with stack := [], frames := [], glow := false, status := .done }) ∧
    (((exLevels exPassed).giveBack 2).host.pool "pool").free =
      [.fresh false, .fresh false, .fresh false] ∧
    (exLevels exCalled).stopScript = ((exLevels exCalled).giveBack 1).setLevels
      [(some "hat", exUsed), (some "say", .fresh true)] ∧
    (exLevels exLast).stopScript = ((exLevels exLast).giveBack 0).setLevels
      [(some "hat", exUsed), (none, .fresh true)] ∧
    (exLevels exWaiting).stopScript = ((exLevels exWaiting).giveBack 0).setLevels exWaiting := by
  have hpassed := stopScript_exactly (exLevels exPassed) (isAligned_exLevels _)
  have hcalled := stopScript_exactly (exLevels exCalled) (isAligned_exLevels _)
  have hlast := stopScript_exactly (exLevels exLast) (isAligned_exLevels _)
  have hwaiting := stopScript_exactly (exLevels exWaiting) (isAligned_exLevels _)
  have hwait : ∀ levels, ¬ (exLevels levels).StandsInWay (some "wait", exUsed) := fun levels =>
    passes_exLevels rfl (by decide)
  refine ⟨⟨rfl, hpassed.1 ?_⟩, (hpassed.2.2 2).2 rfl, ?_, ?_, ?_⟩
  · have hhat : ¬ (exLevels exPassed).StandsInWay (some "hat", exUsed) :=
      passes_exLevels rfl (by decide)
    exact List.forall_mem_cons.mpr ⟨hhat, List.forall_mem_singleton.mpr (hwait _)⟩
  · refine (hcalled.2.1 1 (some "call", exUsed) rfl ?_ ?_).2 "call" (some "main") exCallBlock rfl
      rfl rfl rfl
    · exact .inr (.inr ⟨"call", some "main", exCallBlock, rfl, rfl, rfl, rfl⟩)
    · rintro (_ | _ | _ | j) other hj hother
      · exact absurd hj (by decide)
      · exact absurd hj (by decide)
      · cases hother
        exact hwait _
      · cases hother
  · refine (hlast.2.1 1 (some "jump", exUsed) rfl ?_ ?_).2 "jump" (some "palette")
      { opcode := Block.callOpcode } rfl rfl rfl rfl
    · exact .inr (.inr ⟨"jump", some "palette", _, rfl, rfl, rfl, rfl⟩)
    · rintro (_ | _ | j) other hj hother
      · exact absurd hj (by decide)
      · exact absurd hj (by decide)
      · cases hother
  · refine (hwaiting.2.1 1 _ rfl (.inr (.inl rfl)) ?_).1 (.inr rfl)
    rintro (_ | _ | j) other hj hother
    · exact absurd hj (by decide)
    · exact absurd hj (by decide)
    · cases hother

end Machine

end BlockThreads
