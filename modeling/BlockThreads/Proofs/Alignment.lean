import BlockThreads.Proofs.Casts
import BlockThreads.Proofs.Levels
import BlockThreads.Proofs.Requests

/-!
# Blocks and frames in the course of a run

The blocks and the frames of a thread are kept in two lists, and nearly every operation
works on both. If the lists ever had different lengths, a push would find a frame left over
and use it again, with all that it remembers. This module shows that they never have: not
after any operation, not while foreign code is in the middle of its work on the thread, and
not when a compiler, a factory or a starting function is shown the thread.

Results:
1. `aligned_throughout`: at every point of a run each thread has as many frames as blocks,
   each thread that somebody is shown has, and each push takes a frame.
-/

namespace BlockThreads

/-- Each block on the stack of each thread has its frame. -/
def Cast.IsAligned (c : Cast) : Prop := ∀ name t, c.threads.get? name = some t → t.IsAligned

/-- Each block that is pushed takes a frame, however many have been pushed before. -/
def Machine.FramesPushes (m : Machine) : Prop :=
  ∀ ids id, ((m.pushAll ids).push id).state.frames =
    ((m.pushAll ids).createFrame (m.pushAll ids).state.isWarpMode).1 :: (m.pushAll ids).state.frames

namespace AlignmentLemmas

open ChronicleLemmas

variable {c c' : Cast} {d : Deed} {w : World} {name : String} {t : Thread}

theorem framesPushes_of_aligned {m : Machine} (h : m.state.IsAligned) : m.FramesPushes :=
  fun ids id => Machine.frames_push (Machine.isAligned_pushAll h ids) id

/-- A command that no thread carries out leaves each thread what it was, or makes a new one. -/
theorem thread_order {depth : Nat} {command : Command} {reply : Reply} {w' : World}
    (hactor : command.actor? = none) (h : w.perform depth command = some (reply, w'))
    (ht : w'.threads.get? name = some t) :
    w.threads.get? name = some t ∨
      t.toThreadState = {} ∧
        ∃ target top container, command = .newThread name target top container t.pool := by
  cases hends : command.ends name with
  | false =>
    rw [(threads_perform hactor hends h).1] at ht
    exact .inl ht
  | true =>
    cases command with
    | newThread thread target top container pool =>
      obtain rfl : thread = name := beq_iff_eq.mp hends
      simp only [World.perform, Option.some.injEq] at h
      split at h
      · rw [← (Prod.mk.inj h).2] at ht
        exact .inl ht
      · rw [← (Prod.mk.inj h).2] at ht
        simp only [World.newThread, Table.get?_insert_self, Option.some.injEq] at ht
        rw [← ht]
        exact .inr ⟨rfl, target, top, container, rfl⟩
    | dropThread thread =>
      obtain rfl : thread = name := beq_iff_eq.mp hends
      simp only [World.perform, Option.some.injEq, Prod.mk.injEq] at h
      rw [← h.2, World.dropThread] at ht
      split at ht
      · exact .inl ht
      · simp [Table.get?_erase] at ht
    | _ => cases hends

theorem aligned_order {command : Command} (hactor : command.actor? = none)
    (h : w.cast.IsAligned) : ((Deed.order w command).effect w.cast).IsAligned := by
  simp only [Deed.effect]
  cases hp : w.perform 0 command with
  | none => exact h
  | some r =>
    intro name t ht
    rcases thread_order hactor hp ht with ht | ⟨hnew, _⟩
    · exact h name t ht
    · show t.toThreadState.IsAligned
      rw [hnew]
      rfl

/-- Whatever happens, the blocks and frames of all threads stay aligned. -/
theorem aligned_step (hd : d.JoinsCasts c c') (h : c.IsAligned) : c'.IsAligned := by
  obtain ⟨rfl, hjoin⟩ := hd
  cases d with
  | of thread x =>
    obtain ⟨_, hx, _, _, hhappens⟩ := hjoin
    intro name t ht
    simp only [Deed.effect, Table.get?_insert] at ht
    split at ht
    · rw [← Option.some.inj ht]
      exact hhappens.isAligned (h thread _ hx)
    · exact h name t ht
  | order w command =>
    obtain ⟨rfl, hactor⟩ := hjoin
    exact aligned_order hactor h
  | clock w time =>
    obtain rfl := hjoin
    exact h

/-- Whoever is shown a thread while something happens is shown an aligned one. -/
theorem aligned_shown (hd : d.JoinsCasts c c') (h : c.IsAligned) {e : Event} (he : e ∈ d.events)
    (ht : e.thread? = some t) : t.IsAligned := by
  rcases hd.joins.shows with hnobody | ⟨thread, m, compiler, rfl, hevents⟩
  · rw [hnobody.events he] at ht
    cases ht
  · obtain ⟨_, _, hthread, _⟩ := hd
    rw [hevents] at he
    -- the thread has the levels of the one that is compiled
    obtain ⟨hstack, hframes⟩ := (Machine.shown_compile he).2 t ht
    have hm : m.state.IsAligned := h thread _ hthread
    show t.stack.length = t.frames.length
    rw [hstack, hframes]
    exact hm

end AlignmentLemmas

open AlignmentLemmas

namespace World

/-- In a run that starts with aligned threads. At every point of the run each thread has a
frame for each of its blocks. So has the thread at each moment, when foreign code has it at
hand, and a push there takes exactly one frame. And so has each thread that a compiler, a
factory or a starting function is shown. -/
theorem aligned_throughout {depth : Nat} {w : World} {tasks : List Task}
    (h : ∀ name t, w.threads.get? name = some t → t.IsAligned) :
    (∀ deeds, deeds <+: w.chronicle depth tasks →
      ∀ name t, (w.cast.replay deeds).threads.get? name = some t → t.IsAligned) ∧
    (∀ name x, .of name x ∈ w.chronicle depth tasks →
      x.machine.state.IsAligned ∧ x.after.state.IsAligned ∧ x.machine.FramesPushes) ∧
    (∀ d ∈ w.chronicle depth tasks, ∀ e ∈ d.events, ∀ t, e.thread? = some t → t.IsAligned) ∧
    ∀ replies w', w.run depth tasks = some (replies, w') →
      ∀ name t, w'.threads.get? name = some t → t.IsAligned := by
  have hstart : w.cast.IsAligned := h
  have hkeeps : ∀ deeds c, Path Deed.JoinsCasts w.cast deeds c → c.IsAligned :=
    fun deeds c hpath => hpath.keeps (fun d _ s t hd => aligned_step hd) hstart
  obtain ⟨hpath, hend⟩ := w.chronicle_casts depth tasks
  have hbefore := hpath.keeps_before (fun d _ s t hd => aligned_step hd) hstart
  refine ⟨fun deeds hdeeds => hkeeps deeds _ (casts_up_to hdeeds), ?_, ?_, ?_⟩
  · intro name x hx
    obtain ⟨c, _, ⟨_, _, hthread, _, _, hhappens⟩, hc⟩ := hbefore _ hx
    have hm : x.machine.state.IsAligned := hc name _ hthread
    exact ⟨hm, hhappens.isAligned hm, framesPushes_of_aligned hm⟩
  · intro d hd e he t ht
    obtain ⟨c, c', hjoin, hc⟩ := hbefore d hd
    exact aligned_shown hjoin hc he ht
  · intro replies w' hrun
    have hlast := hkeeps _ _ hpath
    rw [hend replies w' hrun] at hlast
    exact hlast

end World

/-! ## Pops that go too far -/

/-- A world with a thread that has one level, and a compiler whose script pops more often
than it pushes, and then calls a legacy block. -/
def exPopping : World where
  host :=
    { compilers := .ofList [("c", .scripted [.ok
        { script := [{ actions := [.push "x", .pop, .pop, .pop, .callLegacy "wait" none .finish]
                       conclusion := .suspend .yielded }] }])] }
  threads := .ofList [("t",
    { top := "hat"
      target := { id := "sprite", name := "Sprite", container := none }
      container := none
      pool := "pool"
      stack := [some "hat"]
      frames := [{}] })]

/-- The thread is compiled and run once. -/
def exPops : List Task := [⟨0, .act "t" (.compile "c")⟩, ⟨1, .act "t" .resume⟩]

/-- Whatever the script does with the stack, it finds a frame for each block, and so does the
compiler that is shown the thread. -/
theorem aligned_throughout_pops :
    (exPopping.history 2 "t" exPops).length = 8 ∧
      (∀ name x, .of name x ∈ exPopping.chronicle 2 exPops → x.machine.state.IsAligned) ∧
      ∀ d ∈ exPopping.chronicle 2 exPops, ∀ e ∈ d.events, ∀ t, e.thread? = some t →
        t.IsAligned := by
  have hstart : ∀ name t, exPopping.threads.get? name = some t → t.IsAligned := by
    intro name t ht
    have hget : exPopping.threads.get? name = if "t" = name then some _ else none := rfl
    rw [hget] at ht
    split at ht
    · rw [← Option.some.inj ht]
      rfl
    · cases ht
  have haligned := @World.aligned_throughout 2 exPopping exPops hstart
  exact ⟨by decide, fun name x hx => (haligned.2.1 name x hx).1, haligned.2.2.1⟩

end BlockThreads
