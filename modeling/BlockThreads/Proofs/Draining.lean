import Mathlib.Logic.Function.Iterate
import BlockThreads.Proofs.Levels
import BlockThreads.Proofs.Mirroring

/-!
# Stopping over and over

One stop need not empty the stack of a thread: it ends at a procedure call and goes on
behind it. The next stop finds another block there. So whoever wants to be rid of a thread
stops it again and again.

That comes to an end if no level waits for a reporter and no script is a cycle, but not
always to the end that is wanted. When the last block of a script is a call, the level is
left without a block, and every later stop finds this level in its way. The levels below it
keep their frames, and the thread is never done.

Results:
1. `drained_unless_stuck`: stopping over and over drains a thread exactly if no level of its
   stack is without a block or has nothing but calls up to the end of its script. Otherwise
   it ends at a level without a block, which stays.
2. `final_call_sticks`: a thread whose topmost block is a final call is never drained.
-/

namespace BlockThreads

/-! ## Levels -/

section Levels

variable (find : String → Option Block)

/-- Going on from block to block comes to the end of the script. -/
inductive Ends : Option String → Prop
  | slot : Ends none
  | block {id : String} : Ends ((find id).bind Block.next) → Ends (some id)

/-- A level gets stuck: it is without a block, or there is nothing but calls from its block
up to the end of the script. -/
inductive Sticks : Option String → Prop
  | slot : Sticks none
  | call {id : String} : (find id).any Block.isCall → Sticks ((find id).bind Block.next) →
      Sticks (some id)

end Levels

/-- No level waits for a reporter. -/
def ThreadState.HasNoWaiting (s : ThreadState) : Prop :=
  ∀ frame ∈ s.frames, frame.waitingReporter = false

instance (s : ThreadState) : Decidable s.HasNoWaiting :=
  inferInstanceAs (Decidable (∀ frame ∈ s.frames, frame.waitingReporter = false))

namespace Machine

/-- A thread is drained of what it had on its stack: the frames are back in the pool, unless
its host throws them away, and the thread is done and does not ask to glow. -/
structure Drained (m n : Machine) : Prop where
  stack : n.state.stack = []
  frames : n.state.frames = []
  returned : m.host.recycles → (n.host.pool m.thread.pool).free =
    List.replicate m.state.frames.length (.fresh false) ++ (m.host.pool m.thread.pool).free
  status : n.state.status = .done
  glow : n.state.glow = false

/-- The frames that wait in the pool when the thread has given back all of its own. -/
def stock (m : Machine) : List Frame :=
  List.replicate m.state.frames.length (.fresh false) ++ (m.host.pool m.thread.pool).free

/-- A machine comes from another by work on the stack that keeps no frame from the pool. -/
structure Sheds (m n : Machine) : Prop where
  restacks : m.Restacks n
  stock : m.host.recycles → n.stock = m.stock

/-- Nothing stands in the way of stopping but calls and levels without a block. -/
structure Stoppable (find : String → Option Block) (m : Machine) : Prop where
  aligned : m.state.IsAligned
  noWaiting : m.state.HasNoWaiting
  block? : m.block? = find

end Machine

namespace DrainingLemmas

open Machine

variable {find : String → Option Block} {l m n : Machine} {entry : Option String}
  {rest : List (Option String)} {frame : Frame} {frames : List Frame} {id : String}

/-! ## Frames -/

theorem sheds_refl (m : Machine) : m.Sheds m := ⟨.refl m, fun _ => rfl⟩

theorem sheds_trans (h : l.Sheds m) (h' : m.Sheds n) : l.Sheds n := by
  refine ⟨h.restacks.trans h'.restacks, fun hrecycles => ?_⟩
  have hm : m.host.recycles := by
    obtain ⟨_, _, _, _, rfl⟩ := h.restacks
    exact hrecycles
  rw [h'.stock hm, h.stock hrecycles]

theorem sheds_drop (hf : m.state.frames = frame :: frames) : m.Sheds m.drop := by
  refine ⟨.drop m, fun hrecycles => ?_⟩
  have hpool : (m.drop.host.pool m.drop.thread.pool).free =
      .fresh false :: (m.host.pool m.thread.pool).free := by
    show ((m.host.releaseFrames m.thread.pool (m.state.frames.take 1)).pool m.thread.pool).free = _
    rw [Host.releaseFrames, if_pos hrecycles, Host.pool_setPool, if_pos rfl, hf]
    rfl
  have hframes : m.drop.state.frames.length = frames.length := by
    rw [frames_drop, hf, List.tail_cons]
  rw [Machine.stock, Machine.stock, hpool, hframes, hf, List.length_cons, List.replicate_succ',
    List.append_assoc]
  rfl

theorem sheds_goToNext (hs : m.state.stack = entry :: rest)
    (hf : m.state.frames = frame :: frames) : m.Sheds m.goToNext := by
  refine ⟨.goToNext m, fun _ => ?_⟩
  have hlength : m.goToNext.state.frames.length = m.state.frames.length := by
    rw [(stack_goToNext hs hf).2, hf, List.length_cons, List.length_cons]
  rw [Machine.stock, Machine.stock, hlength]
  rfl

/-! ## Levels -/

theorem exists_frame (h : m.state.IsAligned) (hs : m.state.stack = entry :: rest) :
    ∃ frame frames, m.state.frames = frame :: frames := by
  cases hf : m.state.frames with
  | nil =>
    rw [h.stack_eq_nil_iff.mpr hf] at hs
    cases hs
  | cons frame frames => exact ⟨frame, frames, rfl⟩

theorem isWaiting_of_noWaiting (h : m.state.HasNoWaiting) : m.state.isWaiting = false := by
  unfold ThreadState.isWaiting ThreadState.peekFrame
  cases hf : m.state.frames with
  | nil => rfl
  | cons frame frames => exact h frame (by rw [hf]; exact List.mem_cons_self)

theorem stoppable_drop (h : Stoppable find m) : Stoppable find m.drop where
  aligned := isAligned_drop h.aligned
  noWaiting frame hframe := h.noWaiting frame (List.mem_of_mem_tail hframe)
  block? := (Restacks.drop m).block?.trans h.block?

theorem stoppable_goToNext (h : Stoppable find m) (hs : m.state.stack = entry :: rest) :
    Stoppable find m.goToNext where
  aligned := isAligned_goToNext h.aligned
  noWaiting f hmem := by
    obtain ⟨frame, frames, hf⟩ := exists_frame h.aligned hs
    rw [(stack_goToNext hs hf).2] at hmem
    rcases List.mem_cons.mp hmem with rfl | hmem
    · rfl
    · exact h.noWaiting f (by rw [hf]; exact List.mem_cons_of_mem _ hmem)
  block? := (Restacks.goToNext m).block?.trans h.block?

theorem stack_behind (h : Stoppable find m) (hs : m.state.stack = some id :: rest) :
    m.goToNext.state.stack = (find id).bind Block.next :: rest := by
  obtain ⟨frame, frames, hf⟩ := exists_frame h.aligned hs
  rw [(stack_goToNext hs hf).1, nextId, peek_of_stack hs, ← h.block?]
  rfl

/-! ## Stopping over and over -/

/-- A level that does not get stuck is dropped in the end, and then the level below
decides. -/
theorem passes_level (hends : Ends find entry) (hfree : ¬ Sticks find entry)
    (h : Stoppable find m) (hs : m.state.stack = entry :: rest) :
    ∃ k n, stopScript^[k + 1] m = n.stopScript ∧ n.state.stack = rest ∧ m.Sheds n ∧
      Stoppable find n := by
  induction hends generalizing m with
  | slot => exact absurd .slot hfree
  | @block id _ ih =>
    obtain ⟨frame, frames, hf⟩ := exists_frame h.aligned hs
    have hwaiting := isWaiting_of_noWaiting h.noWaiting
    cases hcall : m.isCall id with
    | false =>
      refine ⟨0, m.drop, stopScript_of_block hs hwaiting hcall, ?_, sheds_drop hf,
        stoppable_drop h⟩
      rw [stack_drop, hs, List.tail_cons]
    | true =>
      have hcall' : (find id).any Block.isCall := by
        rw [← h.block?]
        exact hcall
      have hbehind : ¬ Sticks find ((find id).bind Block.next) := fun hsticks =>
        hfree (.call hcall' hsticks)
      obtain ⟨k, n, hstop, hn, hsheds, hready⟩ :=
        ih hbehind (stoppable_goToNext h hs) (stack_behind h hs)
      refine ⟨k + 1, n, ?_, hn, sheds_trans (sheds_goToNext hs hf) hsheds, hready⟩
      rw [Function.iterate_succ_apply, stopScript_of_call hs hwaiting hcall, hstop]

/-- A level that gets stuck is left without a block. -/
theorem sticks_level (hsticks : Sticks find entry) (h : Stoppable find m)
    (hs : m.state.stack = entry :: rest) :
    ∃ k, (stopScript^[k + 1] m).state.stack = none :: rest := by
  induction hsticks generalizing m with
  | slot => exact ⟨0, by rw [Function.iterate_one, stopScript_of_slot hs, hs]⟩
  | @call id hcall _ ih =>
    have hwaiting := isWaiting_of_noWaiting h.noWaiting
    have hcall' : m.isCall id := by
      rw [isCall, h.block?]
      exact hcall
    obtain ⟨k, hk⟩ := ih (stoppable_goToNext h hs) (stack_behind h hs)
    refine ⟨k + 1, ?_⟩
    rw [Function.iterate_succ_apply, stopScript_of_call hs hwaiting hcall', hk]

/-- If no level gets stuck, the stack is emptied in the end. -/
theorem empties_stack (hends : ∀ id, Ends find (some id))
    (hfree : ∀ entry ∈ m.state.stack, ¬ Sticks find entry) (h : Stoppable find m) :
    ∃ k n, stopScript^[k + 1] m = n.editState ThreadState.finish ∧ n.state.stack = [] ∧
      m.Sheds n ∧ Stoppable find n := by
  induction hs : m.state.stack generalizing m with
  | nil => exact ⟨0, m, stopScript_of_empty hs, hs, sheds_refl m, h⟩
  | cons entry rest ih =>
    rw [hs] at hfree
    have hentry : Ends find entry := by
      cases entry with
      | none => exact .slot
      | some id => exact hends id
    obtain ⟨i, n, hstop, hn, hsheds, hready⟩ :=
      passes_level hentry (hfree entry List.mem_cons_self) h hs
    have hrest : ∀ entry ∈ n.state.stack, ¬ Sticks find entry := fun other hmem =>
      hfree other (List.mem_cons_of_mem _ (hn ▸ hmem))
    obtain ⟨k, u, hstop', hu, hsheds', hready'⟩ := ih hrest hready hn
    refine ⟨k + i, u, ?_, hu, sheds_trans hsheds hsheds', hready'⟩
    rw [Nat.add_assoc, Function.iterate_add_apply, hstop, ← hstop', Function.iterate_succ_apply]

/-- If a level gets stuck, a level without a block is on top in the end. -/
theorem sticks_stack (hends : ∀ id, Ends find (some id))
    (hsticks : ∃ entry ∈ m.state.stack, Sticks find entry) (h : Stoppable find m) :
    ∃ k rest, (stopScript^[k + 1] m).state.stack = none :: rest := by
  induction hs : m.state.stack generalizing m with
  | nil =>
    obtain ⟨entry, hmem, _⟩ := hsticks
    rw [hs] at hmem
    exact absurd hmem List.not_mem_nil
  | cons entry rest ih =>
    by_cases htop : Sticks find entry
    · obtain ⟨k, hk⟩ := sticks_level htop h hs
      exact ⟨k, rest, hk⟩
    · have hentry : Ends find entry := by
        cases entry with
        | none => exact .slot
        | some id => exact hends id
      obtain ⟨i, n, hstop, hn, _, hready⟩ := passes_level hentry htop h hs
      obtain ⟨other, hmem, hother⟩ := hsticks
      rw [hs] at hmem
      have hrest : ∃ entry ∈ n.state.stack, Sticks find entry := by
        rcases List.mem_cons.mp hmem with rfl | hmem
        · exact absurd hother htop
        · exact ⟨other, hn ▸ hmem, hother⟩
      obtain ⟨k, rest', hk⟩ := ih hrest hready hn
      refine ⟨k + i, rest', ?_⟩
      rw [Nat.add_assoc, Function.iterate_add_apply, hstop, ← Function.iterate_succ_apply, hk]

/-- What does not change once, does not change any more. -/
theorem iterate_of_fixed {k j : Nat} (hk : stopScript^[k] m = n) (hn : n.stopScript = n)
    (hj : k ≤ j) : stopScript^[j] m = n := by
  obtain ⟨i, rfl⟩ := Nat.exists_eq_add_of_le' hj
  rw [Function.iterate_add_apply, hk, Function.iterate_fixed hn]

theorem drained_of_sheds (h : m.Sheds n) (halign : n.state.IsAligned) (hn : n.state.stack = []) :
    m.Drained (n.editState ThreadState.finish) where
  stack := hn
  frames := halign.stack_eq_nil_iff.mp hn
  returned hrecycles := by
    have hstock := h.stock hrecycles
    rw [Machine.stock, halign.stack_eq_nil_iff.mp hn] at hstock
    obtain ⟨_, _, _, _, rfl⟩ := h.restacks
    exact hstock
  status := rfl
  glow := rfl

/-- If no level gets stuck, the thread is drained in the end. -/
theorem drains (hends : ∀ id, Ends find (some id))
    (hfree : ∀ entry ∈ m.state.stack, ¬ Sticks find entry) (h : Stoppable find m) :
    ∃ k, ∀ j, k ≤ j → m.Drained (stopScript^[j] m) := by
  obtain ⟨k, n, hstop, hn, hsheds, hready⟩ := empties_stack hends hfree h
  refine ⟨k + 1, fun j hj => ?_⟩
  have hfixed : (n.editState ThreadState.finish).stopScript = n.editState ThreadState.finish :=
    stopScript_of_empty hn
  rw [iterate_of_fixed hstop hfixed hj]
  exact drained_of_sheds hsheds hready.aligned hn

/-- If a level gets stuck, a level without a block is on top in the end, and nothing changes
any more. -/
theorem gets_stuck (hends : ∀ id, Ends find (some id))
    (hsticks : ∃ entry ∈ m.state.stack, Sticks find entry) (h : Stoppable find m) :
    ∃ k n rest, n.state.stack = none :: rest ∧ ∀ j, k ≤ j → stopScript^[j] m = n := by
  obtain ⟨k, rest, hk⟩ := sticks_stack hends hsticks h
  exact ⟨k + 1, _, rest, hk, fun j hj => iterate_of_fixed rfl (stopScript_of_slot hk) hj⟩

/-- What is stuck is not drained. -/
theorem not_drained_of_stuck {k : Nat} (hn : n.state.stack = none :: rest)
    (hstuck : ∀ j, k ≤ j → stopScript^[j] m = n) :
    ¬ ∃ i, ∀ j, i ≤ j → m.Drained (stopScript^[j] m) := by
  rintro ⟨i, hdrained⟩
  have hstack := (hdrained (max i k) (Nat.le_max_left i k)).stack
  rw [hstuck (max i k) (Nat.le_max_right i k), hn] at hstack
  cases hstack

end DrainingLemmas

open DrainingLemmas

namespace World

/-- A thread that started with nothing on its stack, has no level that waits for a reporter
and knows no script that is a cycle. Stopped over and over it is drained in the end, exactly
if no level of its stack gets stuck. If one does, a level without a block is on top in the
end, and stopping changes nothing any more. -/
theorem drained_unless_stuck {depth : Nat} {w w' : World} {tasks : List Task}
    {replies : List Reply} {name : String} {t t' : Thread} {m : Machine}
    (ht : w.threads.get? name = some t) (hnew : t.stack = [] ∧ t.frames = [])
    (hlife : ∀ task ∈ tasks, task.command.ends name = false)
    (hrun : w.run depth tasks = some (replies, w')) (ht' : w'.threads.get? name = some t')
    (hm : m = ⟨t', w'.host⟩) (hwaiting : m.state.HasNoWaiting)
    (hends : ∀ id, Ends m.block? (some id)) :
    ((∃ k, ∀ j, k ≤ j → m.Drained (Machine.stopScript^[j] m)) ↔
      ∀ entry ∈ m.state.stack, ¬ Sticks m.block? entry) ∧
    ((∃ entry ∈ m.state.stack, Sticks m.block? entry) →
      ∃ k n rest, n.state.stack = none :: rest ∧ ∀ j, k ≤ j → Machine.stopScript^[j] m = n) := by
  have hstart : t.IsAligned := by rw [ThreadState.IsAligned, hnew.1, hnew.2]; rfl
  obtain ⟨u, hu, haligned⟩ := (World.isAligned_history ht hstart hlife).2 replies w' hrun
  obtain rfl : u = t' := Option.some.inj (hu.symm.trans ht')
  have hready : m.Stoppable m.block? := ⟨by rw [hm]; exact haligned, hwaiting, rfl⟩
  refine ⟨⟨fun hdrained entry hmem hsticks => ?_, fun hfree => drains hends hfree hready⟩,
    fun hsticks => gets_stuck hends hsticks hready⟩
  obtain ⟨_, _, _, hn, hstuck⟩ := gets_stuck hends ⟨entry, hmem, hsticks⟩ hready
  exact not_drained_of_stuck hn hstuck hdrained

end World

/-! ## A call and what comes behind it -/

/-- A script of a hat and a call, with `next` behind the call. -/
def exScript (next : Option String) : Container where
  blocks := .ofList [("hat", { opcode := "hat", next := some "call" }),
    ("call", { opcode := Block.callOpcode, next }), ("say", { opcode := "say" })]

/-- A world with one thread that runs the script. -/
def exCalling (next : Option String) : World where
  host := { containers := .ofList [(some "main", exScript next)] }
  threads := .ofList [("t",
    { top := "hat"
      target := { id := "sprite", name := "Sprite", container := some "main" }
      container := some "main"
      pool := "pool" })]

/-- The thread goes into the hat and into the call. -/
def exCall : List Task := [⟨0, .act "t" (.push "hat")⟩, ⟨1, .act "t" (.push "call")⟩]

/-- The thread in the call. -/
def exInCall (next : Option String) : Machine where
  thread :=
    { top := "hat"
      target := { id := "sprite", name := "Sprite", container := some "main" }
      container := some "main"
      pool := "pool"
      stack := [some "call", some "hat"]
      frames := [.fresh false, .fresh false] }
  host := (((exCalling next).run 0 exCall).map fun r => r.2.host).getD {}

theorem run_exCall (next : Option String) :
    ∃ replies w, (exCalling next).run 0 exCall = some (replies, w) ∧
      w.threads.get? "t" = some (exInCall next).thread ∧ (exInCall next).host = w.host :=
  ⟨_, _, rfl, rfl, rfl⟩

theorem block?_exInCall (next : Option String) (id : String) :
    (exInCall next).block? id = (exScript next).block? id := by
  show ((exScript next).block? id).or (((exScript next).block? id).or none) = _
  rw [Option.or_none, Option.or_self]

theorem ends_exInCall {next : Option String} (h : next = none ∨ next = some "say")
    (id : String) : Ends (exInCall next).block? (some id) := by
  have hlast : ∀ id, (exScript next).nextOf id = none → Ends (exInCall next).block? (some id) := by
    intro id hid
    have hnext : ((exInCall next).block? id).bind Block.next = none := by
      rw [block?_exInCall]
      exact hid
    exact .block (hnext ▸ .slot)
  have hcall : Ends (exInCall next).block? (some "call") := by
    refine .block ?_
    rcases h with rfl | rfl
    · exact .slot
    · exact hlast "say" rfl
  by_cases hhat : "hat" = id
  · exact hhat ▸ .block hcall
  · by_cases hid : "call" = id
    · exact hid ▸ hcall
    · refine hlast id ?_
      by_cases hsay : "say" = id
      · exact hsay ▸ rfl
      · simp [Container.nextOf, Container.block?, exScript, Table.get?_ofList, Table.lookup,
          hhat, hid, hsay]

/-- With a block behind the call the thread is drained in the end. -/
theorem drained_unless_stuck_say :
    ∃ k, ∀ j, k ≤ j →
      (exInCall (some "say")).Drained (Machine.stopScript^[j] (exInCall (some "say"))) := by
  obtain ⟨replies, w', hrun, ht, hhost⟩ := run_exCall (some "say")
  have h := @World.drained_unless_stuck 0 (exCalling (some "say")) w' exCall replies "t" _ _
    (exInCall (some "say")) rfl ⟨rfl, rfl⟩ (by decide) hrun ht (congrArg (Machine.mk _) hhost)
    (by decide) (ends_exInCall (.inr rfl))
  refine h.1.mpr fun entry hmem hsticks => ?_
  have hstack : entry ∈ [some "call", some "hat"] := hmem
  rcases List.mem_cons.mp hstack with rfl | hhat
  · cases hsticks with
    | call _ hsay =>
      -- the block behind the call is no call
      cases hsay with
      | call hcall => cases hcall
  · rw [List.mem_singleton.mp hhat] at hsticks
    cases hsticks with
    | call hcall => cases hcall

/-- Without a block behind the call the thread is never drained, although no level waits
and no script is a cycle: every stop after the first finds the level of the call without a
block. -/
theorem final_call_sticks :
    (∃ replies w, (exCalling none).run 0 exCall = some (replies, w) ∧
      w.threads.get? "t" = some (exInCall none).thread ∧ (exInCall none).host = w.host) ∧
    (exInCall none).state.HasNoWaiting ∧
    (∀ id, Ends (exInCall none).block? (some id)) ∧
    ∀ k, ¬ (exInCall none).Drained (Machine.stopScript^[k] (exInCall none)) := by
  refine ⟨run_exCall none, by decide, ends_exInCall (.inl rfl), fun k hdrained => ?_⟩
  have hstack : (exInCall none).stopScript.state.stack = [none, some "hat"] := by decide
  have hfixed := Machine.stopScript_of_slot hstack
  cases k with
  | zero => exact absurd hdrained.stack (by decide)
  | succ k =>
    have hstuck : Machine.stopScript^[k + 1] (exInCall none) = (exInCall none).stopScript :=
      iterate_of_fixed (Function.iterate_one _ ▸ rfl) hfixed (Nat.le_add_left 1 k)
    have hempty := hdrained.stack
    rw [hstuck, hstack] at hempty
    cases hempty

end BlockThreads
