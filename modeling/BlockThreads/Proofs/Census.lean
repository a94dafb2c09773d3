import Mathlib.Algebra.GroupWithZero.Nat
import Mathlib.Data.List.Induction
import Mathlib.Order.Bounds.Basic
import BlockThreads.Proofs.Alignment
import BlockThreads.Proofs.Mirroring

/-!
# How many frames are ever made

Threads that share a pool hand frames on to each other. A frame that is made is from then
on either at work, on the stack of some thread, or it waits in the pool; none is lost, and
none is in two places. And a frame is made only when none waits, so that there are never
more frames than were once at work at the same time.

Work on a stack goes one of two ways. Going deeper draws frames: the pool does not grow, and
a frame is made only when the pool is empty. Coming back returns frames: what the stack loses
the pool gains.

Results:
1. `Moment.Happens.settles`: nothing that happens to a thread loses a frame or makes one in
   vain.
2. `settles_deed`: nor does anything else in a run whose threads share one pool.
3. `frames_at_peak`: as many frames have been made as wait and are at work, and as were at
   work when most were.
-/

namespace BlockThreads

/-! ## Sums over tables -/

namespace Table

variable {κ ν : Type}

/-- The sum of a measure over all values. -/
def total (measure : ν → Nat) (t : Table κ ν) : Nat := (t.entries.map fun e => measure e.2).sum

variable [DecidableEq κ]

theorem sum_put (measure : ν → Nat) (key : κ) (value : ν) (entries : List (κ × ν)) :
    ((put key value entries).map fun e => measure e.2).sum + (lookup key entries).elim 0 measure =
      (entries.map fun e => measure e.2).sum + measure value := by
  induction entries with
  | nil => simp [put, lookup]
  | cons entry rest ih =>
    obtain ⟨k, v⟩ := entry
    by_cases h : k = key
    · subst h
      simp only [put, lookup, if_true, List.map_cons, List.sum_cons, Option.elim_some]
      omega
    · simp only [put, lookup, h, if_false, List.map_cons, List.sum_cons]
      omega

/-- A write adds the measure of the new value and takes away that of the old one. -/
theorem total_insert (measure : ν → Nat) (t : Table κ ν) (key : κ) (value : ν) :
    (t.insert key value).total measure + (t.get? key).elim 0 measure =
      t.total measure + measure value :=
  sum_put measure key value t.entries

theorem sum_erase (measure : ν → Nat) (key : κ) {entries : List (κ × ν)}
    (h : (entries.map Prod.fst).Nodup) :
    ((entries.filter fun e => e.1 ≠ key).map fun e => measure e.2).sum +
        (lookup key entries).elim 0 measure =
      (entries.map fun e => measure e.2).sum := by
  induction entries with
  | nil => rfl
  | cons entry rest ih =>
    obtain ⟨k, v⟩ := entry
    rw [List.map_cons, List.nodup_cons] at h
    have hrest := ih h.2
    by_cases hk : k = key
    · subst hk
      -- the key is not bound again
      have hnone : lookup k rest = none := by
        cases hl : lookup k rest with
        | none => rfl
        | some v => exact absurd (lookup_isSome_iff.mp (by rw [hl]; rfl)) h.1
      rw [hnone] at hrest
      simp only [lookup, if_true, ne_eq, not_true, decide_false, Bool.false_eq_true,
        not_false_eq_true, List.filter_cons_of_neg, List.map_cons, List.sum_cons,
        Option.elim_some]
      simp only [Option.elim_none, ne_eq, Nat.add_zero] at hrest
      omega
    · simp only [lookup, hk, if_false, ne_eq, not_false_eq_true, decide_true,
        List.filter_cons_of_pos, List.map_cons, List.sum_cons]
      simp only [ne_eq] at hrest
      omega

theorem total_erase (measure : ν → Nat) (t : Table κ ν) (key : κ) :
    (t.erase key).total measure + (t.get? key).elim 0 measure = t.total measure :=
  sum_erase measure key t.nodup

end Table

/-! ## Counting frames -/

/-- How many frames have been made, as the trace tells. -/
def Host.allocations (h : Host) : Nat := h.trace.countP Event.isAllocation

namespace Machine

/-- How many frames wait in the pool of the thread. -/
def waiting (m : Machine) : Nat := (m.host.pool m.thread.pool).size

/-- How many frames are on the stack of the thread. -/
def working (m : Machine) : Nat := m.state.frames.length

/-- Frames are drawn from the pool. One is made only when none waits. -/
structure Draws (m n : Machine) : Prop where
  pool : n.thread.pool = m.thread.pool
  recycles : n.host.recycles = m.host.recycles
  balance : n.host.allocations + m.waiting + m.working =
    m.host.allocations + n.waiting + n.working
  made : m.host.allocations ≤ n.host.allocations
  waiting : n.waiting ≤ m.waiting
  needed : n.host.allocations = m.host.allocations ∨ n.waiting = 0

/-- Frames are returned to the pool. -/
structure Returns (m n : Machine) : Prop where
  pool : n.thread.pool = m.thread.pool
  recycles : n.host.recycles = m.host.recycles
  allocations : n.host.allocations = m.host.allocations
  balance : n.waiting + n.working = m.waiting + m.working

/-- No frame is lost, and if one was made then none waits. -/
structure Settles (m n : Machine) : Prop where
  pool : n.thread.pool = m.thread.pool
  recycles : n.host.recycles = m.host.recycles
  balance : n.host.allocations + m.waiting + m.working =
    m.host.allocations + n.waiting + n.working
  made : m.host.allocations ≤ n.host.allocations
  needed : n.host.allocations = m.host.allocations ∨ n.waiting = 0

end Machine

namespace CensusLemmas

open Machine

variable {l m n : Machine}

theorem settles_of_draws (h : m.Draws n) : m.Settles n :=
  ⟨h.pool, h.recycles, h.balance, h.made, h.needed⟩

theorem settles_of_returns (h : m.Returns n) : m.Settles n where
  pool := h.pool
  recycles := h.recycles
  balance := by
    have hbalance := h.balance
    rw [h.allocations]
    omega
  made := Nat.le_of_eq h.allocations.symm
  needed := .inl h.allocations

theorem draws_refl (m : Machine) : m.Draws m :=
  ⟨rfl, rfl, rfl, Nat.le_refl _, Nat.le_refl _, .inl rfl⟩

theorem draws_trans (h : l.Draws m) (h' : m.Draws n) : l.Draws n where
  pool := h'.pool.trans h.pool
  recycles := h'.recycles.trans h.recycles
  balance := by
    have hfirst := h.balance
    have hlast := h'.balance
    omega
  made := Nat.le_trans h.made h'.made
  waiting := Nat.le_trans h'.waiting h.waiting
  needed := by
    have hwaiting := h'.waiting
    rcases h'.needed with hlast | hlast
    · rcases h.needed with hfirst | hfirst
      · exact .inl (hlast.trans hfirst)
      · -- no frame waits any longer, and none comes back
        exact .inr (by omega)
    · exact .inr hlast

theorem returns_refl (m : Machine) : m.Returns m := ⟨rfl, rfl, rfl, rfl⟩

theorem returns_trans (h : l.Returns m) (h' : m.Returns n) : l.Returns n where
  pool := h'.pool.trans h.pool
  recycles := h'.recycles.trans h.recycles
  allocations := h'.allocations.trans h.allocations
  balance := h'.balance.trans h.balance

/-- A change that has nothing to do with the pools and keeps the number of frames. -/
theorem returns_of_pools (hpool : n.thread.pool = m.thread.pool)
    (hrecycles : n.host.recycles = m.host.recycles) (hpools : n.host.pools = m.host.pools)
    (hallocations : n.host.allocations = m.host.allocations) (hworking : n.working = m.working) :
    m.Returns n where
  pool := hpool
  recycles := hrecycles
  allocations := hallocations
  balance := by rw [hworking, Machine.waiting, Machine.waiting, Host.pool, Host.pool, hpools, hpool]

theorem returns_edit (edit : ThreadState → ThreadState)
    (h : (edit m.state).frames.length = m.state.frames.length) : m.Returns (m.editState edit) :=
  returns_of_pools rfl rfl rfl rfl h

theorem draws_edit (edit : ThreadState → ThreadState)
    (h : (edit m.state).frames.length = m.state.frames.length) : m.Draws (m.editState edit) where
  pool := rfl
  recycles := rfl
  balance := by
    show m.host.allocations + m.waiting + m.working =
      m.host.allocations + m.waiting + (edit m.state).frames.length
    rw [h]
    rfl
  made := Nat.le_refl _
  waiting := Nat.le_refl _
  needed := .inl rfl

/-! ## Going deeper -/

theorem size_create (warpMode : Bool) (p : Pool) :
    (p.create warpMode).2.size + 1 = p.size ∨
      p.size = 0 ∧ (p.create warpMode).2.size = 0 := by
  unfold Pool.create Pool.size
  split
  · next h => exact .inr ⟨by rw [h]; rfl, by rw [h]; rfl⟩
  · next h => exact .inl (by rw [h]; rfl)

/-- A frame that is taken was waiting, or it is made because none waits. -/
theorem createFrame_cases (id : PoolId) (warpMode : Bool) (h : Host) :
    let h' := (h.createFrame id warpMode).2
    (h'.pool id).size + 1 = (h.pool id).size ∧ h'.allocations = h.allocations ∨
      (h.pool id).size = 0 ∧ (h'.pool id).size = 0 ∧ h'.allocations = h.allocations + 1 := by
  intro h'
  have hpool : h'.pool id = ((h.pool id).create warpMode).2 := by
    show ((h.createFrame id warpMode).2).pool id = _
    unfold Host.createFrame
    rw [Host.pool_setPool, if_pos rfl]
  have hsize := size_create warpMode (h.pool id)
  rw [← hpool] at hsize
  cases hempty : (h.pool id).isEmpty with
  | true =>
    have hzero : (h.pool id).size = 0 := beq_iff_eq.mp hempty
    refine .inr ⟨hzero, by omega, ?_⟩
    show ((h.createFrame id warpMode).2).allocations = _
    unfold Host.createFrame
    rw [hempty]
    exact List.countP_cons_of_pos rfl
  | false =>
    have hne : (h.pool id).size ≠ 0 := by simpa [Pool.isEmpty] using hempty
    refine .inl ⟨by omega, ?_⟩
    show ((h.createFrame id warpMode).2).allocations = _
    unfold Host.createFrame
    rw [hempty]
    rfl

theorem recycles_createFrame (id : PoolId) (warpMode : Bool) (h : Host) :
    (h.createFrame id warpMode).2.recycles = h.recycles := by
  unfold Host.createFrame
  split <;> rfl

/-- A push draws one frame. -/
theorem draws_push (h : m.state.IsAligned) (id : String) : m.Draws (m.push id) := by
  have hroom : m.state.frames.length < (some id :: m.state.stack).length := by
    rw [List.length_cons, h]
    exact Nat.lt_succ_self _
  have hpush : m.push id =
      (m.editState fun s => { s with stack := some id :: s.stack }).pushFrame := if_pos hroom
  have hhost : (m.push id).host = (m.host.createFrame m.thread.pool m.state.isWarpMode).2 := by
    rw [hpush]
    rfl
  have hpool : (m.push id).thread.pool = m.thread.pool := by
    rw [hpush]
    rfl
  have hworking : (m.push id).working = m.working + 1 := by
    rw [Machine.working, frames_push h id]
    rfl
  have hcases := createFrame_cases m.thread.pool m.state.isWarpMode m.host
  rw [← hhost] at hcases
  refine ⟨hpool, ?_, ?_, ?_, ?_, ?_⟩
  · rw [hhost]
    exact recycles_createFrame _ _ m.host
  all_goals
    simp only [Machine.waiting, hpool, hworking] at hcases ⊢
    omega

theorem draws_pushAll (h : m.state.IsAligned) (ids : List String) : m.Draws (m.pushAll ids) := by
  induction ids generalizing m with
  | nil => exact draws_refl m
  | cons id ids ih => exact draws_trans (draws_push h id) (ih (isAligned_push h id))

/-! ## Coming back -/

theorem size_releaseFrames {h : Host} (hrecycles : h.recycles) (id : PoolId)
    (frames : List Frame) :
    ((h.releaseFrames id frames).pool id).size = (h.pool id).size + frames.length := by
  rw [Host.releaseFrames, if_pos hrecycles, Host.pool_setPool, if_pos rfl, Pool.size_releaseAll]

theorem returns_drop (hrecycles : m.host.recycles) : m.Returns m.drop := by
  have hhost : m.drop.host = m.host.releaseFrames m.thread.pool (m.state.frames.take 1) := rfl
  have hsize := size_releaseFrames hrecycles m.thread.pool (m.state.frames.take 1)
  refine ⟨rfl, ?_, ?_, ?_⟩
  · rw [hhost, Host.releaseFrames, if_pos hrecycles]
    rfl
  · rw [hhost, Host.releaseFrames, if_pos hrecycles]
    rfl
  · have hworking : m.drop.working = m.state.frames.tail.length := rfl
    have hwaiting : m.drop.waiting = (m.drop.host.pool m.thread.pool).size := rfl
    rw [hwaiting, hworking, hhost, hsize, List.length_take, List.length_tail, Machine.waiting,
      Machine.working]
    omega

theorem length_reuse (id : Option String) (s : ThreadState) :
    (s.reuse id).frames.length = s.frames.length := by
  unfold ThreadState.reuse
  split
  · next hf =>
    rw [hf]
    rfl
  · rfl

theorem returns_goToNext (m : Machine) : m.Returns m.goToNext :=
  returns_edit _ (length_reuse m.nextId m.state)

theorem returns_unwind (hrecycles : m.host.recycles) (levels : Nat) :
    m.Returns (unwind levels m) := by
  induction levels generalizing m with
  | zero => exact returns_refl m
  | succ levels ih =>
    -- each level is returned, or the unwinding ends there
    unfold unwind
    split
    · exact returns_refl m
    · split
      · exact returns_refl m
      · split
        · exact returns_goToNext m
        · have hdrop := returns_drop hrecycles
          exact returns_trans hdrop (ih (hdrop.recycles.trans hrecycles))

theorem returns_stopScript (hrecycles : m.host.recycles) : m.Returns m.stopScript := by
  have hunwind := returns_unwind hrecycles m.state.stack.length
  unfold stopScript
  dsimp only
  split
  · exact returns_trans hunwind (returns_edit ThreadState.finish rfl)
  · exact hunwind

theorem returns_retire (hrecycles : m.host.recycles) : m.Returns m.retire := by
  have hhost : m.retire.host = (m.log (.retiring m.thread.name)).host.releaseFrames m.thread.pool
      m.state.frames.reverse := rfl
  have hrecycles' : (m.log (.retiring m.thread.name)).host.recycles := hrecycles
  have hsize := size_releaseFrames hrecycles' m.thread.pool m.state.frames.reverse
  rw [← hhost] at hsize
  refine ⟨rfl, ?_, ?_, ?_⟩
  · rw [hhost, Host.releaseFrames, if_pos hrecycles']
    rfl
  · rw [hhost, Host.releaseFrames, if_pos hrecycles']
    rfl
  · have hworking : m.retire.working = 0 := rfl
    have hwaiting : m.retire.waiting = (m.retire.host.pool m.thread.pool).size := rfl
    rw [hwaiting, hworking, hsize, List.length_reverse]
    rfl

/-! ## Everything else -/

theorem returns_attempt {change : ThreadState → Except Misuse ThreadState}
    (h : ∀ s, change m.state = .ok s → s.frames.length = m.state.frames.length) :
    m.Returns (m.attempt change).2 := by
  unfold Machine.attempt
  split
  · next s hs => exact returns_edit (fun _ => s) (h s hs)
  · exact returns_refl m

theorem length_initParams {s t : ThreadState} (h : s.initParams = .ok t) :
    t.frames.length = s.frames.length := by
  unfold ThreadState.initParams at h
  split at h
  · cases h
  · next hf =>
    cases h
    rw [hf]
    rfl

theorem length_pushParam {s t : ThreadState} {name : String} {value : Value}
    (h : s.pushParam name value = .ok t) : t.frames.length = s.frames.length := by
  unfold ThreadState.pushParam at h
  split at h
  · cases h
  · next hf =>
    split at h
    · cases h
    · cases h
      rw [hf]
      rfl

/-- To compile a thread has nothing to do with frames. -/
theorem returns_compile (compiler : String) (m : Machine) : m.Returns (m.compile compiler) := by
  have htrace := m.trace_compile compiler
  have hframes := (LevelsLemmas.levels_compile compiler m).2
  obtain ⟨_, _, _, _, _, _, _, hthread⟩ := compile_thread compiler m
  obtain ⟨_, _, _, hhost⟩ := Host.Compiles.compile compiler m
  refine returns_of_pools (congrArg (fun t => t.pool) hthread) ?_ ?_ ?_
    (congrArg List.length hframes)
  · rw [hhost]
  · rw [hhost]
  · rw [Host.allocations, htrace, List.countP_append, List.countP_reverse]
    have hnone : (m.compileEvents compiler).countP Event.isAllocation = 0 :=
      List.countP_eq_zero.mpr fun e he => by simp [(Machine.shown_compile he).1]
    rw [hnone, Nat.zero_add, Host.allocations]

/-- No action that calls no foreign code loses a frame or makes one in vain. -/
theorem settles_act {action : Action} (hplain : action.isPlain) (h : m.state.IsAligned)
    (hrecycles : m.host.recycles) : m.Settles ((Move.act action).apply m) := by
  cases action with
  | push id => exact settles_of_draws (draws_push h id)
  | pushAll ids => exact settles_of_draws (draws_pushAll h ids)
  | enter id =>
    exact settles_of_draws (draws_trans (draws_push h id)
      (draws_edit _ (List.length_modify _ _ _)))
  | pop => exact settles_of_returns (returns_drop hrecycles)
  | stop => exact settles_of_returns (returns_stopScript hrecycles)
  | retire => exact settles_of_returns (returns_retire hrecycles)
  | kill =>
    have hretire := settles_of_returns
      (returns_retire (m := m.editState fun s => { s with isKilled := true }) hrecycles)
    exact ⟨hretire.pool, hretire.recycles, hretire.balance, hretire.made, hretire.needed⟩
  | reuse id => exact settles_of_draws (draws_edit _ (length_reuse id m.state))
  | next => exact settles_of_draws (draws_edit _ (length_reuse m.nextId m.state))
  | editFrame | editParentFrame | resetFrame | reuseFrame =>
    exact settles_of_draws (draws_edit _ (List.length_modify _ _ _))
  | initParams => exact settles_of_returns (returns_attempt fun _ => length_initParams)
  | pushParam => exact settles_of_returns (returns_attempt fun _ => length_pushParam)
  | compile compiler => exact settles_of_returns (returns_compile compiler m)
  | settle value =>
    refine settles_of_draws (draws_edit _ ?_)
    unfold ThreadState.settle
    split <;> rfl
  | runProcedure | resume | callLegacy | bindLegacy => cases hplain
  | _ => exact settles_of_returns (returns_of_pools rfl rfl rfl rfl rfl)

theorem returns_conclude (step : Step) (c : Coroutine) (m : Machine) :
    m.Returns (m.conclude step c).2 := by
  obtain ⟨_, _, _, h⟩ := conclude_machine step c m
  rw [h]
  exact returns_of_pools rfl rfl rfl rfl rfl

theorem draws_replaceBase (h : m.state.IsAligned) (id : String) : m.Draws (m.replaceBase id) := by
  unfold replaceBase
  split
  · exact draws_push h id
  · exact draws_edit _ rfl

end CensusLemmas

open CensusLemmas

/-- Nothing that happens to a thread loses a frame or makes one in vain. -/
theorem Moment.Happens.settles {x : Moment} {s t : List Coroutine} (hx : x.Happens s t)
    (h : x.machine.state.IsAligned) (hrecycles : x.machine.host.recycles) :
    x.machine.Settles x.after := by
  cases hx with
  | act hplain => exact settles_act hplain h hrecycles
  | @use m _ step hplain =>
    cases step with
    | onThread | retire => cases hplain
    | _ => exact settles_of_returns (returns_of_pools rfl rfl rfl rfl rfl)
  | @bind m _ block context =>
    have hbase := settles_of_draws (draws_trans (draws_replaceBase h block)
      (draws_edit (fun s => { s with legacyContext := some (context.getD m.context) }) rfl))
    exact hbase
  | call | enterScript | enterCall | leaveCall =>
    exact settles_of_returns (returns_of_pools rfl rfl rfl rfl rfl)
  | @pass m _ _ =>
    simp only [Moment.after, Move.apply]
    split <;> exact settles_of_returns (returns_of_pools rfl rfl rfl rfl rfl)
  | @leaveScript m _ c answers step =>
    have hrecord : m.Returns (m.record (.leave c.name answers)) :=
      returns_of_pools rfl rfl rfl rfl rfl
    exact settles_of_returns
      (returns_trans hrecord (returns_conclude step (c.advance answers) _))

/-! ## Threads that share a pool -/

/-- Whether a command leaves the pools to the threads, and a thread that it makes to one pool. -/
def Command.drawsOn (pool : PoolId) : Command → Bool
  | .newThread _ _ _ _ other => other == pool
  | .createFrame _ _ _ => false
  | .releaseFrame _ _ => false
  | _ => true

namespace Cast

/-- How many blocks are on the stacks of all threads. -/
def depth (c : Cast) : Nat := c.threads.total fun t => t.stack.length

/-- All threads share one pool, and their frames are recycled. -/
structure IsServedBy (pool : PoolId) (c : Cast) : Prop where
  aligned : c.IsAligned
  pool : ∀ name t, c.threads.get? name = some t → t.pool = pool
  recycles : c.host.recycles

/-- No frame is lost, and if one was made then none waits. -/
structure Settles (pool : PoolId) (c c' : Cast) : Prop where
  balance : c'.host.allocations + (c.host.pool pool).size + c.depth =
    c.host.allocations + (c'.host.pool pool).size + c'.depth
  made : c.host.allocations ≤ c'.host.allocations
  needed : c'.host.allocations = c.host.allocations ∨ (c'.host.pool pool).size = 0

end Cast

namespace CensusLemmas

variable {c c' : Cast} {d : Deed} {w : World} {name : String} {pool : PoolId}

/-- A change that has nothing to do with the threads and the frames. -/
theorem settles_of_threads (h : c.IsServedBy pool) (hthreads : c'.threads = c.threads)
    (hrecycles : c'.host.recycles = c.host.recycles)
    (hpool : (c'.host.pool pool).size = (c.host.pool pool).size)
    (hallocations : c'.host.allocations = c.host.allocations) :
    c'.IsServedBy pool ∧ c.Settles pool c' := by
  refine ⟨⟨?_, ?_, hrecycles.trans h.recycles⟩, ?_, Nat.le_of_eq hallocations.symm,
    .inl hallocations⟩
  · rw [Cast.IsAligned, hthreads]
    exact h.aligned
  · rw [hthreads]
    exact h.pool
  · rw [Cast.depth, Cast.depth, hthreads, hpool, hallocations]

/-- What a thread does settles with all threads if it settles with the thread. -/
theorem settles_moment (h : c.IsServedBy pool) {x : Moment}
    (hd : (Deed.of name x).JoinsCasts c c') : c'.IsServedBy pool ∧ c.Settles pool c' := by
  have haligned := AlignmentLemmas.aligned_step hd h.aligned
  obtain ⟨rfl, hhost, hthread, _, _, hhappens⟩ := hd
  have hm : x.machine.state.IsAligned := h.aligned name _ hthread
  have hpool : x.machine.thread.pool = pool := h.pool name _ hthread
  have hrecycles : x.machine.host.recycles := by
    rw [hhost]
    exact h.recycles
  have hsettles := hhappens.settles hm hrecycles
  have hafter : x.after.thread.pool = pool := hsettles.pool.trans hpool
  refine ⟨⟨haligned, fun other t ht => ?_, hsettles.recycles.trans hrecycles⟩, ?_, ?_, ?_⟩
  · simp only [Deed.effect, Table.get?_insert] at ht
    split at ht
    · rw [← Option.some.inj ht, hafter]
    · exact h.pool other t ht
  · -- the depth changes by what the stack of the thread gains or loses
    have hdepth := Table.total_insert (fun t => t.stack.length) c.threads name x.after.thread
    rw [hthread, Option.elim_some] at hdepth
    have hbalance := hsettles.balance
    have hworking : x.machine.working = x.machine.thread.stack.length := hm.symm
    have hworking' : x.after.working = x.after.thread.stack.length :=
      (hhappens.isAligned hm).symm
    simp only [Machine.waiting, hpool, hafter, hhost, hworking, hworking'] at hbalance
    simp only [Cast.depth, Deed.effect]
    omega
  · have hmade := hsettles.made
    rwa [hhost] at hmade
  · have hneeded := hsettles.needed
    rwa [hhost, Machine.waiting, hafter] at hneeded

/-- A thread that is dropped returns all its frames. -/
theorem dropThread_eq (h : w.cast.IsServedBy pool) (name : String) :
    (w.dropThread name).host.recycles = w.host.recycles ∧
      (w.dropThread name).host.allocations = w.host.allocations ∧
      ((w.dropThread name).host.pool pool).size + (w.dropThread name).cast.depth =
        (w.host.pool pool).size + w.cast.depth ∧
      (w.dropThread name).threads.get? name = none := by
  unfold World.dropThread
  split
  · next hnone => exact ⟨rfl, rfl, rfl, hnone⟩
  · next t ht =>
    have hpool : t.pool = pool := h.pool name t ht
    have haligned : t.stack.length = t.frames.length := h.aligned name t ht
    have hrecycles : w.host.recycles := h.recycles
    have hsize := size_releaseFrames hrecycles t.pool t.frames.reverse
    have hdepth := Table.total_erase (fun t => t.stack.length) w.threads name
    rw [ht, Option.elim_some] at hdepth
    rw [List.length_reverse, hpool] at hsize
    refine ⟨?_, ?_, ?_, ?_⟩
    · rw [Host.releaseFrames, if_pos hrecycles]
      rfl
    · rw [Host.releaseFrames, if_pos hrecycles]
      rfl
    · simp only [Cast.depth, World.cast, hpool] at hdepth ⊢
      omega
    · rw [Table.get?_erase, if_pos rfl]

/-- To drop a thread and to make one settle. -/
theorem settles_newThread (h : w.cast.IsServedBy pool) (name top : String) (target : Target)
    (container : ContainerId) :
    w.cast.Settles pool (w.newThread name target top container pool).cast := by
  obtain ⟨_, hallocations, hbalance, hnone⟩ := dropThread_eq h name
  have hdepth := Table.total_insert (fun t => t.stack.length) (w.dropThread name).threads name
    { top, target, container, pool }
  rw [hnone, Option.elim_none] at hdepth
  have hnew : (w.newThread name target top container pool).cast.depth =
      (w.dropThread name).cast.depth := hdepth
  have hsize : ((w.newThread name target top container pool).host.pool pool).size =
      ((w.dropThread name).host.pool pool).size := by
    show ((Host.setPool _ _ _).pool pool).size = _
    rw [Host.pool_setPool, if_pos rfl]
  have hmade : (w.newThread name target top container pool).host.allocations =
      w.host.allocations := hallocations
  refine ⟨?_, Nat.le_of_eq hmade.symm, .inl hmade⟩
  show (w.newThread name target top container pool).host.allocations + (w.host.pool pool).size +
      w.cast.depth = w.host.allocations +
        ((w.newThread name target top container pool).host.pool pool).size +
          (w.newThread name target top container pool).cast.depth
  rw [hmade, hsize, hnew]
  omega

theorem settles_dropThread (h : w.cast.IsServedBy pool) (name : String) :
    w.cast.Settles pool (w.dropThread name).cast := by
  obtain ⟨_, hallocations, hbalance, _⟩ := dropThread_eq h name
  have hmade : (w.dropThread name).cast.host.allocations = w.cast.host.allocations := hallocations
  refine ⟨?_, Nat.le_of_eq hmade.symm, .inl hmade⟩
  rw [hmade, Nat.add_assoc, Nat.add_assoc]
  exact congrArg (w.cast.host.allocations + ·) hbalance.symm

/-- Only the commands that make threads choose pools. -/
theorem pool_order {command : Command} (hactor : command.actor? = none)
    (hdraws : command.drawsOn pool) (h : w.cast.IsServedBy pool) {t : Thread}
    (ht : ((Deed.order w command).effect w.cast).threads.get? name = some t) : t.pool = pool := by
  simp only [Deed.effect] at ht
  cases hp : w.perform 0 command with
  | none =>
    rw [hp] at ht
    exact h.pool name t ht
  | some r =>
    rw [hp] at ht
    rcases AlignmentLemmas.thread_order hactor hp ht with ht | ⟨_, _, _, _, rfl⟩
    · exact h.pool name t ht
    · exact beq_iff_eq.mp hdraws

/-- What the owner of the threads does settles too. -/
theorem settles_order {command : Command} (hactor : command.actor? = none)
    (hdraws : command.drawsOn pool) (h : w.cast.IsServedBy pool) :
    ((Deed.order w command).effect w.cast).IsServedBy pool ∧
      w.cast.Settles pool ((Deed.order w command).effect w.cast) := by
  have haligned := AlignmentLemmas.aligned_order hactor h.aligned
  have hpool : ∀ name t,
      ((Deed.order w command).effect w.cast).threads.get? name = some t → t.pool = pool :=
    fun _ _ => pool_order hactor hdraws h
  cases command with
  | act | stepCall => cases hactor
  | createFrame | releaseFrame => cases hdraws
  | newThread name target top container other =>
    obtain rfl : other = pool := beq_iff_eq.mp hdraws
    have hrecycles := (dropThread_eq h name).1.trans h.recycles
    simp only [Deed.effect, World.perform, Option.map_some, Option.getD_some] at haligned hpool ⊢
    cases htarget : w.targets.get? target with
    | none => exact settles_of_threads h rfl rfl rfl rfl
    | some target =>
      rw [htarget] at haligned hpool
      exact ⟨⟨haligned, hpool, hrecycles⟩, settles_newThread h name top target _⟩
  | dropThread name =>
    have hrecycles := (dropThread_eq h name).1.trans h.recycles
    exact ⟨⟨haligned, hpool, hrecycles⟩, settles_dropThread h name⟩
  | poolSize other =>
    refine settles_of_threads h rfl rfl ?_ rfl
    show ((w.host.setPool other (w.host.pool other)).pool pool).size = _
    rw [Host.pool_setPool]
    split
    · next heq =>
      rw [heq]
      rfl
    · rfl
  | makeCall thread code call arguments =>
    simp only [Deed.effect, World.perform, Option.map_some, Option.getD_some]
    split
    · exact settles_of_threads h rfl rfl rfl rfl
    · unfold World.makeCall
      split <;> exact settles_of_threads h rfl rfl rfl rfl
  | editFrame slot edit =>
    simp only [Deed.effect, World.perform, Option.map_some, Option.getD_some, World.editFrame]
    split <;> exact settles_of_threads h rfl rfl rfl rfl
  | remember container top outcome =>
    refine settles_of_threads h rfl rfl rfl ?_
    cases outcome <;> rfl
  | _ => exact settles_of_threads h rfl rfl rfl rfl

/-- Whatever happens, no frame is lost, and none is made in vain. -/
theorem settles_deed (hd : d.JoinsCasts c c')
    (hdraws : ∀ w command, d = .order w command → command.drawsOn pool)
    (h : c.IsServedBy pool) : c'.IsServedBy pool ∧ c.Settles pool c' := by
  cases d with
  | of name x => exact settles_moment h hd
  | order w command =>
    obtain ⟨rfl, rfl, hactor⟩ := hd
    exact settles_order hactor (hdraws w command rfl) h
  | clock w time =>
    obtain ⟨rfl, rfl⟩ := hd
    exact settles_of_threads h rfl rfl rfl rfl

end CensusLemmas

/-! ## The peak -/

/-- How many frames are made, as the events of what happens tell. -/
def allocationsIn (deeds : List Deed) : Nat :=
  (deeds.flatMap Deed.events).countP Event.isAllocation

/-- The depth of all threads together at the point of a run where it was greatest. -/
def Cast.IsPeak (c : Cast) (deeds : List Deed) (peak : Nat) : Prop :=
  IsGreatest {n | ∃ earlier, earlier <+: deeds ∧ n = (c.replay earlier).depth} peak

namespace CensusLemmas

variable {c c' : Cast} {deeds : List Deed} {pool : PoolId}

theorem allocations_path (hpath : Path Deed.JoinsCasts c deeds c') :
    c'.host.allocations = c.host.allocations + allocationsIn deeds := by
  have hhosts : Path Deed.Joins c.host (deeds.map id) c'.host :=
    hpath.map Cast.host id fun _ _ _ hd => hd.joins
  rw [List.map_id] at hhosts
  rw [Host.allocations, RequestsLemmas.trace_path hhosts, List.countP_append, List.countP_reverse,
    Nat.add_comm]
  rfl

theorem isPeak_nil (hdepth : c.depth = 0) : c.IsPeak [] 0 := by
  refine ⟨⟨[], List.prefix_rfl, hdepth.symm⟩, ?_⟩
  rintro n ⟨earlier, hearlier, rfl⟩
  rw [List.prefix_nil.mp hearlier]
  exact Nat.le_of_eq hdepth

/-- If a frame is made then all frames are at work, more than ever before. -/
theorem isPeak_concat {peak peak' : Nat} (h : c.IsPeak deeds peak) (hle : peak ≤ peak')
    (hdepth : (c.replay (deeds ++ [d])).depth ≤ peak')
    (hneeded : peak' = peak ∨ peak' = (c.replay (deeds ++ [d])).depth) :
    c.IsPeak (deeds ++ [d]) peak' := by
  obtain ⟨⟨highest, hhighest, hpeak⟩, hupper⟩ := h
  constructor
  · rcases hneeded with rfl | rfl
    · exact ⟨highest, hhighest.trans (List.prefix_append _ _), hpeak⟩
    · exact ⟨deeds ++ [d], List.prefix_rfl, rfl⟩
  · rintro n ⟨earlier, hearlier, rfl⟩
    rcases List.prefix_concat_iff.mp hearlier with rfl | hearlier
    · exact hdepth
    · exact (hupper ⟨earlier, hearlier, rfl⟩).trans hle

/-- As many frames have been made as wait and are at work, and as were at work when most
were. -/
theorem census_path (hserved : c.IsServedBy pool)
    (hempty : (c.host.pool pool).size = 0 ∧ c.depth = 0)
    (hpath : Path Deed.JoinsCasts c deeds (c.replay deeds))
    (hdraws : ∀ w command, .order w command ∈ deeds → command.drawsOn pool) :
    (c.replay deeds).IsServedBy pool ∧
      allocationsIn deeds = ((c.replay deeds).host.pool pool).size + (c.replay deeds).depth ∧
      c.IsPeak deeds (allocationsIn deeds) := by
  induction deeds using List.reverseRecOn with
  | nil =>
    obtain ⟨hsize, hdepth⟩ := hempty
    have hcount : 0 = (c.host.pool pool).size + c.depth := by rw [hsize, hdepth]
    exact ⟨hserved, hcount, isPeak_nil hdepth⟩
  | append_singleton deeds d ih =>
    obtain ⟨c₁, hdeeds, hlast⟩ := hpath.split
    obtain rfl := Cast.replay_of_path hdeeds
    obtain ⟨hserved', hcount, hpeak⟩ := ih hdeeds fun w command hmem =>
      hdraws w command (List.mem_append_left _ hmem)
    cases hlast with
    | cons hd hnil =>
    cases hnil
    obtain ⟨hserved'', hsettles⟩ := settles_deed hd (fun w command heq =>
      hdraws w command (by simp [heq])) hserved'
    have hbefore := allocations_path hdeeds
    have hafter := allocations_path hpath
    obtain ⟨hbalance, hmade, hneeded⟩ := hsettles
    refine ⟨hserved'', by omega, isPeak_concat hpeak (by omega) (by omega) ?_⟩
    rcases hneeded with hsame | hnone
    · exact .inl (by omega)
    · exact .inr (by omega)

end CensusLemmas

open CensusLemmas

namespace World

/-- A run that starts without threads, on a host that recycles frames, with a pool that is
empty. All threads of the run take their frames from the pool, and nobody else does. At every
point of the run, the number of frames that have been made is the number of those that wait
in the pool and those on the stacks of the threads; and it is the greatest number that has
been on the stacks up to there. In the end the frames that have been made are those the
trace tells of. -/
theorem frames_at_peak {depth : Nat} {w : World} {tasks : List Task} {pool : PoolId}
    (hthreads : w.threads = .empty) (hpool : (w.host.pool pool).size = 0)
    (hrecycles : w.host.recycles) (hdraws : ∀ task ∈ tasks, task.command.drawsOn pool) :
    (∀ deeds, deeds <+: w.chronicle depth tasks →
      allocationsIn deeds =
          ((w.cast.replay deeds).host.pool pool).size + (w.cast.replay deeds).depth ∧
        w.cast.IsPeak deeds (allocationsIn deeds)) ∧
    ∀ replies w', w.run depth tasks = some (replies, w') →
      w.cast.replay (w.chronicle depth tasks) = w'.cast ∧
        Host.eventsSince w.host w'.host = (w.chronicle depth tasks).flatMap Deed.events := by
  have hnone : ∀ name, w.threads.get? name = none := fun name => by rw [hthreads]; rfl
  have hserved : w.cast.IsServedBy pool := by
    refine ⟨fun name t ht => ?_, fun name t ht => ?_, hrecycles⟩ <;>
    · have hget : w.threads.get? name = some t := ht
      rw [hnone name] at hget
      cases hget
  have hdepth : w.cast.depth = 0 := by
    rw [Cast.depth, World.cast, hthreads]
    rfl
  obtain ⟨hpath, hend⟩ := w.chronicle_casts depth tasks
  refine ⟨fun deeds hdeeds => ?_, fun replies w' hrun => ?_⟩
  · have horders : ∀ u command, .order u command ∈ deeds → command.drawsOn pool :=
      fun u command hmem =>
        order_chronicle (P := fun c => c.drawsOn pool) depth w hdraws (hdeeds.mem hmem)
    exact (census_path hserved ⟨hpool, hdepth⟩ (casts_up_to hdeeds) horders).2
  · have hlast := hend replies w' hrun
    obtain ⟨h, hhosts, hh⟩ := chronicle_path depth w tasks
    obtain rfl := hh replies w' hrun
    exact ⟨hlast, SharedOutcomesLemmas.eventsSince_of_trace (RequestsLemmas.trace_path hhosts)⟩

end World

/-! ## Frames that are handed on -/

/-- A world with a sprite and no threads. -/
def exHandingOn : World where
  targets := .ofList [("sprite", { id := "sprite", name := "Sprite", container := none })]

/-- A thread takes two frames and gives one back. Another one takes one, and is replaced. The
first one retires, and the new one takes two. -/
def exHandedOn : List Task :=
  [⟨0, .newThread "a" "sprite" "hat" none "pool"⟩, ⟨0, .newThread "b" "sprite" "hat" none "pool"⟩,
    ⟨1, .act "a" (.pushAll ["x", "y"])⟩, ⟨2, .act "a" .pop⟩, ⟨3, .act "b" (.push "x")⟩,
    ⟨4, .newThread "b" "sprite" "hat" none "pool"⟩, ⟨5, .act "a" .retire⟩,
    ⟨6, .act "b" (.pushAll ["x", "y"])⟩]

/-- Two frames are made, and no more than two are ever at work. -/
theorem frames_at_peak_handed_on :
    allocationsIn (exHandingOn.chronicle 0 exHandedOn) = 2 ∧
      exHandingOn.cast.IsPeak (exHandingOn.chronicle 0 exHandedOn) 2 := by
  have hcount : allocationsIn (exHandingOn.chronicle 0 exHandedOn) = 2 := by decide +kernel
  have hpeak := (@World.frames_at_peak 0 exHandingOn exHandedOn "pool" rfl rfl rfl
    (by decide)).1 _ List.prefix_rfl
  rw [hcount] at hpeak
  exact ⟨hcount, hpeak.2⟩

end BlockThreads
