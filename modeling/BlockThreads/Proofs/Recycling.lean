import BlockThreads.Proofs.Chronicle
import BlockThreads.Proofs.Mirroring
import BlockThreads.Scripted

/-!
# Recycled frames

Threads that share a pool work with frames that other threads have used before, in
whatever order they push and drop. A thread cannot tell: everything that it does, and
everything that it is told, is the same as if it ran alone, with a new frame for every
level of its stack.

Results:
1. `recycling_unobservable`: a thread in a run with others, and the same thread alone on a
   host that throws all frames away.
-/

namespace BlockThreads

/-- Whether a command is about a thread. -/
def Command.concerns (name : String) : Command → Bool
  | .act thread _ => thread == name
  | .newThread thread _ _ _ _ => thread == name
  | .dropThread thread => thread == name
  | .makeCall thread _ _ _ => thread == name
  | .stepCall thread _ => thread == name
  | _ => false

/-- Whether a command leaves every call of a procedure with its keeper. -/
def Command.keepsCalls (keeper : String → String) : Command → Bool
  | .makeCall thread _ call _ => thread == keeper call
  | .stepCall thread call => thread == keeper call
  | _ => true

def Deed.compiles : Deed → Bool
  | .of _ x => x.move.compiles
  | _ => false

namespace World

/-- A thread alone, on a host of its own that throws all frames away. -/
def solo (name : String) (w : World) : World where
  host := { w.host with recycles := false, pools := .empty }
  targets := w.targets
  calls := w.calls
  threads :=
    match w.threads.get? name with
    | none => .empty
    | some thread => Table.empty.insert name thread

/-- What a run replies to the commands that are about a thread. -/
def ownReplies (name : String) (tasks : List Task) (replies : List Reply) : List Reply :=
  ((tasks.zip replies).filter fun r => r.1.command.concerns name).map Prod.snd

end World

namespace RecyclingLemmas

open ChronicleLemmas

variable {depth : Nat} {keeper : String → String} {name : String} {w v w' : World}
  {reply : Reply} {command : Command}

/-- A thread in a world, and the same thread in a world that throws all frames away. -/
structure Mirrors (keeper : String → String) (name : String) (w v : World) : Prop where
  thread : v.threads.get? name = w.threads.get? name
  targets : v.targets = w.targets
  calls : ∀ call, keeper call = name → v.calls.get? call = w.calls.get? call
  host : w.host.Mirrors v.host

theorem mirrors_solo (hclean : w.host.IsClean) : Mirrors keeper name w (w.solo name) where
  thread := by
    unfold World.solo
    cases ht : w.threads.get? name with
    | none => rfl
    | some t => exact Table.get?_insert_self _ _ _
  targets := rfl
  calls := fun _ _ => rfl
  host := ⟨rfl, rfl, rfl, rfl, hclean, rfl, fun _ => rfl⟩

theorem mirrors_atTime (h : Mirrors keeper name w v) (time : Nat) :
    Mirrors keeper name (w.atTime time) (v.atTime time) :=
  ⟨h.thread, h.targets, h.calls, h.host.setClock _ _⟩

/-! ## What the thread does -/

theorem mirrors_dropThread (h : Mirrors keeper name w v) :
    Mirrors keeper name (w.dropThread name) (v.dropThread name) := by
  have hthread := h.thread
  unfold World.dropThread
  rw [hthread]
  split
  · exact h
  · exact ⟨by rw [Table.get?_erase, Table.get?_erase, if_pos rfl, if_pos rfl], h.targets,
      h.calls, h.host.releaseFrames _ _⟩

/-- Work on the machine of the thread goes the same way alone, if it does on machines that
mirror each other. -/
theorem mirrors_onThread {α : Type} {work : Machine → Option (α × Machine)} {a : Option α}
    (h : Mirrors keeper name w v) (hnow : v.host.now = w.host.now)
    (hwork : ∀ t, w.threads.get? name = some t → ∀ r, Machine.Mirrors ⟨t, w.host⟩ r →
      Machine.Follows (work ⟨t, w.host⟩) (work r))
    (hw : w.onThread name work = some (a, w')) :
    ∃ v', v.onThread name work = some (a, v') ∧ Mirrors keeper name w' v' := by
  cases ht : w.threads.get? name with
  | none =>
    have hv : v.threads.get? name = none := h.thread.trans ht
    simp only [World.onThread, ht, hv, Option.some.injEq, Prod.mk.injEq] at hw ⊢
    obtain ⟨rfl, rfl⟩ := hw
    exact ⟨v, ⟨rfl, rfl⟩, h⟩
  | some t =>
    have hv : v.threads.get? name = some t := h.thread.trans ht
    rw [onThread_eq ht] at hw
    rw [onThread_eq hv]
    obtain ⟨⟨answer, n⟩, hn, heq⟩ := Option.map_eq_some_iff.mp hw
    obtain ⟨rfl, rfl⟩ := Prod.mk.inj heq
    obtain ⟨r, hr, hmirrors⟩ := hwork t ht ⟨t, v.host⟩ ⟨rfl, h.host, hnow⟩ answer n hn
    refine ⟨{ v with host := r.host, threads := v.threads.insert name r.thread }, ?_, ?_,
      h.targets, h.calls, hmirrors.host⟩
    · rw [hr, Option.map_some]
    · rw [Table.get?_insert_self, Table.get?_insert_self, hmirrors.thread]

/-- A call that is kept is the same alone, whoever keeps it. -/
theorem mirrors_keepCall (h : Mirrors keeper name w v) (call : String) (coroutine : Coroutine) :
    Mirrors keeper name { w with calls := w.calls.insert call coroutine }
      { v with calls := v.calls.insert call coroutine } := by
  refine ⟨h.thread, h.targets, fun other hother => ?_, h.host⟩
  rw [Table.get?_insert, Table.get?_insert, h.calls other hother]

theorem mirrors_makeCall (h : Mirrors keeper name w v) (code call : String)
    (arguments : List Value) (t : Thread) :
    (v.makeCall code call arguments t).1 = (w.makeCall code call arguments t).1 ∧
      Mirrors keeper name (w.makeCall code call arguments t).2
        (v.makeCall code call arguments t).2 := by
  unfold World.makeCall
  cases t.procedure? code with
  | none => exact ⟨rfl, h⟩
  | some procedure =>
    have hrecord : Mirrors keeper name
        { w with host := w.host.record (.call code procedure.binding arguments) }
        { v with host := v.host.record (.call code procedure.binding arguments) } :=
      ⟨h.thread, h.targets, h.calls, h.host.setTrace _ _⟩
    exact ⟨rfl, mirrors_keepCall hrecord call _⟩

theorem mirrors_own (h : Mirrors keeper name w v) (hnow : v.host.now = w.host.now)
    (hp : w.perform depth command = some (reply, w')) (hown : command.concerns name)
    (hkeeps : command.keepsCalls keeper)
    (hcompile : ∀ d ∈ w.deeds depth command, d.compiles = false) :
    ∃ v', v.perform depth command = some (reply, v') ∧ Mirrors keeper name w' v' := by
  cases command with
  | act thread action =>
    obtain rfl : thread = name := by simpa [Command.concerns] using hown
    simp only [World.perform] at hp ⊢
    obtain ⟨⟨answer, u⟩, hu, heq⟩ := Option.map_eq_some_iff.mp hp
    obtain ⟨rfl, rfl⟩ := Prod.mk.inj heq
    obtain ⟨v', hv', hmirrors⟩ := mirrors_onThread h hnow
      (fun t ht r hm => hm.perform fun x hx =>
        hcompile (.of thread x) (by rw [World.deeds, ht]; exact List.mem_map_of_mem hx)) hu
    exact ⟨v', by rw [hv', Option.map_some], hmirrors⟩
  | stepCall thread call =>
    obtain rfl : thread = name := by simpa [Command.concerns] using hown
    obtain rfl : thread = keeper call := by simpa [Command.keepsCalls] using hkeeps
    simp only [World.perform, h.calls call rfl] at hp ⊢
    cases hc : w.calls.get? call with
    | none =>
      simp only [hc, Option.some.injEq, Prod.mk.injEq] at hp ⊢
      obtain ⟨rfl, rfl⟩ := hp
      exact ⟨v, ⟨rfl, rfl⟩, h⟩
    | some coroutine =>
      simp only [hc, World.stepCall] at hp ⊢
      obtain ⟨⟨stepped, u⟩, hu, heq⟩ := Option.map_eq_some_iff.mp hp
      obtain ⟨v', hv', hmirrors⟩ := mirrors_onThread h hnow
        (fun t ht r hm => hm.stepCall fun x hx =>
          hcompile (.of _ x) (by rw [World.deeds, hc, ht]; exact List.mem_map_of_mem hx)) hu
      rw [hv', Option.map_some]
      cases stepped with
      | none =>
        obtain ⟨rfl, rfl⟩ := Prod.mk.inj heq
        exact ⟨v', rfl, hmirrors⟩
      | some stepped =>
        obtain ⟨rfl, rfl⟩ := Prod.mk.inj heq
        exact ⟨_, rfl, mirrors_keepCall hmirrors call stepped.2⟩
  | newThread thread target top container pool =>
    obtain rfl : thread = name := by simpa [Command.concerns] using hown
    simp only [World.perform, Option.some.injEq, h.targets] at hp ⊢
    split at hp
    · obtain ⟨rfl, rfl⟩ := Prod.mk.inj hp
      exact ⟨v, rfl, h⟩
    · next target' _ =>
      obtain ⟨rfl, rfl⟩ := Prod.mk.inj hp
      have hdrop := mirrors_dropThread h
      refine ⟨_, rfl, ?_, hdrop.targets, hdrop.calls, ?_⟩
      · simp only [World.newThread, Table.get?_insert_self]
      · exact hdrop.host.setPool (hdrop.host.clean pool) (hdrop.host.empty pool) pool pool
  | dropThread thread =>
    obtain rfl : thread = name := by simpa [Command.concerns] using hown
    simp only [World.perform, Option.some.injEq, Prod.mk.injEq] at hp ⊢
    obtain ⟨rfl, rfl⟩ := hp
    refine ⟨_, ⟨?_, rfl⟩, mirrors_dropThread h⟩
    rw [Table.contains, h.thread, Table.contains]
  | makeCall thread code call arguments =>
    obtain rfl : thread = name := by simpa [Command.concerns] using hown
    simp only [World.perform, Option.some.injEq, h.thread] at hp ⊢
    split at hp
    · obtain ⟨rfl, rfl⟩ := Prod.mk.inj hp
      exact ⟨v, rfl, h⟩
    · next t _ =>
      obtain ⟨rfl, rfl⟩ := Prod.mk.inj hp
      obtain ⟨hmade, hmirrors⟩ := mirrors_makeCall h code call arguments t
      exact ⟨_, by rw [hmade], hmirrors⟩
  | _ => simp [Command.concerns] at hown

/-! ## What is done besides -/

theorem quiet_deed {d : Deed} {h h' : Host} (hd : d.Joins h h') (hcompile : d.compiles = false)
    (horder : ∀ u command, d = .order u command → command.changesContainer = false) :
    h.Quiet h' := by
  obtain ⟨rfl, rfl, hjoin⟩ := hd
  cases d with
  | of thread x =>
    obtain ⟨_, _, hx⟩ := hjoin
    exact hx.quiet hcompile
  | order u command => exact (World.serves_order hjoin (horder u command rfl)).quiet
  | clock u time => exact .setClock _ _

/-- A command that changes no container and compiles nothing changes only the pools, the
clock and the trace of the host. -/
theorem quiet_perform (hp : w.perform depth command = some (reply, w'))
    (hcontainer : command.changesContainer = false)
    (hcompile : ∀ d ∈ w.deeds depth command, d.compiles = false) : w.host.Quiet w'.host := by
  obtain ⟨h, hpath, hend⟩ := deeds_hosts depth w command
  obtain rfl := hend reply w' hp
  refine hpath.keeps (P := fun h => w.host.Quiet h) (fun d hd g g' hjoin hq => ?_) (.refl _)
  refine hq.trans (quiet_deed hjoin (hcompile d hd) ?_)
  rintro u other rfl
  rw [order_of_mem_deeds hd]
  exact hcontainer

/-- Whatever is done, the frames that wait are clear. -/
theorem clean_perform (hp : w.perform depth command = some (reply, w'))
    (hcontainer : command.changesContainer = false) (hkeeps : command.keepsCalls keeper)
    (hcompile : ∀ d ∈ w.deeds depth command, d.compiles = false) (hc : w.host.IsClean) :
    w'.host.IsClean := by
  cases hactor : command.actor? with
  | none =>
    rw [perform_of_no_actor hactor depth 0] at hp
    have hserves := World.serves_order (w := w) hactor hcontainer
    rw [hostAfter_of_perform hp] at hserves
    exact hserves.isClean hc
  | some thread =>
    -- the thread could do the same alone
    have hown : command.concerns thread := by
      cases command with
      | act | stepCall => simpa [Command.concerns, Command.actor?] using hactor
      | _ => simp [Command.actor?] at hactor
    have hsolo : Mirrors keeper thread w (w.solo thread) := mirrors_solo hc
    obtain ⟨_, _, hmirrors⟩ := mirrors_own hsolo rfl hp hown hkeeps hcompile
    exact hmirrors.host.clean

theorem calls_onThread {α : Type} {thread : String} {work : Machine → Option (α × Machine)}
    {a : Option α} (h : w.onThread thread work = some (a, w')) : w'.calls = w.calls := by
  unfold World.onThread at h
  split at h
  · rw [← (Prod.mk.inj (Option.some.inj h)).2]
  · obtain ⟨_, _, heq⟩ := Option.map_eq_some_iff.mp h
    rw [← (Prod.mk.inj heq).2]

theorem calls_dropThread (thread : String) : (w.dropThread thread).calls = w.calls := by
  unfold World.dropThread
  split <;> rfl

/-- A call changes only when its keeper does something. -/
theorem calls_perform {call : String} (hp : w.perform depth command = some (reply, w'))
    (hother : command.concerns (keeper call) = false) (hkeeps : command.keepsCalls keeper) :
    w'.calls.get? call = w.calls.get? call := by
  have hne : ∀ thread other, (thread == keeper call) = false → (thread == keeper other) →
      other ≠ call := by
    rintro thread other hno hyes rfl
    simp [hno] at hyes
  cases command with
  | act thread action =>
    obtain ⟨⟨_, u⟩, hu, heq⟩ := Option.map_eq_some_iff.mp hp
    rw [← (Prod.mk.inj heq).2, calls_onThread hu]
  | stepCall thread other =>
    simp only [World.perform, World.stepCall] at hp
    split at hp
    · rw [← (Prod.mk.inj (Option.some.inj hp)).2]
    · obtain ⟨⟨stepped, u⟩, hu, heq⟩ := Option.map_eq_some_iff.mp hp
      cases stepped with
      | none => rw [← (Prod.mk.inj heq).2, calls_onThread hu]
      | some stepped =>
        rw [← (Prod.mk.inj heq).2, Table.get?_insert_of_ne _ _ (hne thread other hother hkeeps),
          calls_onThread hu]
  | makeCall thread code other arguments =>
    simp only [World.perform, Option.some.injEq] at hp
    split at hp
    · rw [← (Prod.mk.inj hp).2]
    · rw [← (Prod.mk.inj hp).2]
      unfold World.makeCall
      split
      · rfl
      · exact Table.get?_insert_of_ne _ _ (hne thread other hother hkeeps)
  | newThread thread target top container pool =>
    simp only [World.perform, Option.some.injEq] at hp
    split at hp
    · rw [← (Prod.mk.inj hp).2]
    · rw [← (Prod.mk.inj hp).2]
      exact congrArg (fun calls => calls.get? call) (calls_dropThread thread)
  | dropThread thread =>
    simp only [World.perform, Option.some.injEq, Prod.mk.injEq] at hp
    rw [← hp.2, calls_dropThread]
  | releaseFrame slot handle =>
    simp only [World.perform, World.releaseFrame, Option.some.injEq] at hp
    split at hp <;> rw [← (Prod.mk.inj hp).2]
  | editFrame slot edit =>
    simp only [World.perform, World.editFrame, Option.some.injEq] at hp
    split at hp <;> rw [← (Prod.mk.inj hp).2]
  | _ =>
    simp only [World.perform, Option.some.injEq] at hp
    exact congrArg (fun r => r.2.calls.get? call) hp.symm

/-- What is done besides does not matter to a thread. -/
theorem mirrors_other (h : Mirrors keeper name w v)
    (hp : w.perform depth command = some (reply, w'))
    (hcontainer : command.changesContainer = false) (hkeeps : command.keepsCalls keeper)
    (hother : command.concerns name = false)
    (hcompile : ∀ d ∈ w.deeds depth command, d.compiles = false) : Mirrors keeper name w' v := by
  have hclean := clean_perform hp hcontainer hkeeps hcompile h.host.clean
  have hkept : w'.threads.get? name = w.threads.get? name ∧ w'.targets = w.targets := by
    cases hactor : command.actor? with
    | none =>
      have hends : command.ends name = false := by
        cases command <;> first | rfl | exact hother
      exact threads_perform hactor hends hp
    | some thread =>
      have hne : thread ≠ name := by
        cases command with
        | act other action =>
          obtain rfl := Option.some.inj hactor
          simpa [Command.concerns] using hother
        | stepCall other call =>
          obtain rfl := Option.some.inj hactor
          simpa [Command.concerns] using hother
        | _ => simp [Command.actor?] at hactor
      rcases actor_cases depth hactor with ⟨_, hstill⟩ | ⟨_, _, _, _, _, _, hend⟩
      · rw [hstill reply w' hp]
        exact ⟨rfl, rfl⟩
      · -- another thread acts, so only its own entry changes
        obtain ⟨n, _, _, hthreads, htargets⟩ := hend reply w' hp
        rw [hthreads, Table.get?_insert_of_ne _ _ hne]
        exact ⟨rfl, htargets⟩
  have hcalls : ∀ call, keeper call = name → v.calls.get? call = w'.calls.get? call := by
    rintro call rfl
    rw [calls_perform hp hother hkeeps]
    exact h.calls call rfl
  obtain ⟨_, _, _, _, hquiet⟩ := quiet_perform hp hcontainer hcompile
  refine ⟨h.thread.trans hkept.1.symm, h.targets.trans hkept.2.symm, hcalls, ?_⟩
  rw [hquiet] at hclean ⊢
  exact ⟨h.host.config, h.host.containers, h.host.palette, h.host.sequencer, hclean,
    h.host.wasteful, h.host.empty⟩

/-! ## Runs -/

theorem run_cons {task : Task} {tasks : List Task} {replies : List Reply}
    (hrun : w.run depth (task :: tasks) = some (replies, w')) :
    ∃ reply u rest, (w.atTime task.time).perform depth task.command = some (reply, u) ∧
      u.run depth tasks = some (rest, w') ∧ replies = reply :: rest := by
  simp only [World.run, Option.bind_eq_bind, Option.bind_eq_some_iff, Option.pure_def,
    Option.some.injEq, Prod.mk.injEq] at hrun
  obtain ⟨⟨reply, u⟩, hp, ⟨rest, u'⟩, hrest, rfl, rfl⟩ := hrun
  exact ⟨reply, u, rest, hp, hrest, rfl⟩

theorem run_cons_eq {task : Task} {tasks : List Task} {rest : List Reply} {u : World}
    (hp : (w.atTime task.time).perform depth task.command = some (reply, u))
    (hrest : u.run depth tasks = some (rest, w')) :
    w.run depth (task :: tasks) = some (reply :: rest, w') := by
  simp only [World.run, hp, hrest, Option.bind_eq_bind, Option.bind_some, Option.pure_def]

theorem ownReplies_cons (task : Task) (tasks : List Task) (replies : List Reply) :
    World.ownReplies name (task :: tasks) (reply :: replies) =
      if task.command.concerns name then reply :: World.ownReplies name tasks replies
      else World.ownReplies name tasks replies := by
  unfold World.ownReplies
  rw [List.zip_cons_cons, List.filter_cons]
  split <;> rfl

/-- A frame that is taken from a pool is a new one. -/
theorem reply_createFrame {slot : String} {warpMode : Bool} {handle : Nat}
    (hp : w.perform depth (.createFrame slot warpMode handle) = some (reply, w'))
    (hc : w.host.IsClean) : reply = .answer (.frame (some (.fresh warpMode))) := by
  simp only [World.perform, World.createFrame, World.keepFrame, Option.some.injEq,
    Prod.mk.injEq] at hp
  rw [← hp.1, (hc.createFrame _ _).1]

/-- A thread in a run with others does the same alone. -/
theorem mirrors_run {tasks : List Task} {replies : List Reply} (h : Mirrors keeper name w v)
    (hcontainer : ∀ task ∈ tasks, task.command.changesContainer = false)
    (hkeeps : ∀ task ∈ tasks, task.command.keepsCalls keeper)
    (hcompile : ∀ d ∈ w.chronicle depth tasks, d.compiles = false)
    (hrun : w.run depth tasks = some (replies, w')) :
    (∃ v', v.run depth (tasks.filter fun task => task.command.concerns name) =
        some (World.ownReplies name tasks replies, v') ∧ Mirrors keeper name w' v') ∧
      ∀ r ∈ tasks.zip replies, ∀ slot warpMode handle,
        r.1.command = .createFrame slot warpMode handle →
          r.2 = .answer (.frame (some (.fresh warpMode))) := by
  induction tasks generalizing w v replies with
  | nil =>
    obtain ⟨rfl, rfl⟩ := Prod.mk.inj (Option.some.inj hrun)
    exact ⟨⟨v, rfl, h⟩, fun r hr => absurd hr List.not_mem_nil⟩
  | cons task tasks ih =>
    obtain ⟨reply, u, rest, hp, hrest, rfl⟩ := run_cons hrun
    have htime := mirrors_atTime h task.time
    have hdeeds : ∀ d ∈ (w.atTime task.time).deeds depth task.command, d.compiles = false := by
      intro d hd
      refine hcompile d ?_
      rw [World.chronicle]
      exact List.mem_append_left _ (List.mem_cons_of_mem _ hd)
    have hlater : ∀ d ∈ u.chronicle depth tasks, d.compiles = false := by
      intro d hd
      refine hcompile d ?_
      rw [World.chronicle, hp]
      exact List.mem_append_right _ hd
    have hcontainer' : ∀ task ∈ tasks, task.command.changesContainer = false :=
      fun x hx => hcontainer x (List.mem_cons_of_mem _ hx)
    have hkeeps' : ∀ task ∈ tasks, task.command.keepsCalls keeper :=
      fun x hx => hkeeps x (List.mem_cons_of_mem _ hx)
    -- the thread takes part in the task, or it does not notice it
    have hstep : (∃ v', v.run depth ((task :: tasks).filter fun x => x.command.concerns name) =
          some (World.ownReplies name (task :: tasks) (reply :: rest), v') ∧
            Mirrors keeper name w' v') ∧
        ∀ r ∈ tasks.zip rest, ∀ slot warpMode handle,
          r.1.command = .createFrame slot warpMode handle →
            r.2 = .answer (.frame (some (.fresh warpMode))) := by
      rw [ownReplies_cons, List.filter_cons]
      cases hown : task.command.concerns name with
      | true =>
        obtain ⟨v₁, hv, h₁⟩ :=
          mirrors_own htime rfl hp hown (hkeeps task List.mem_cons_self) hdeeds
        obtain ⟨⟨v', hrun', h'⟩, hfresh⟩ := ih h₁ hcontainer' hkeeps' hlater hrest
        exact ⟨⟨v', run_cons_eq hv hrun', h'⟩, hfresh⟩
      | false =>
        -- alone, the thread does not even see the clock go on
        have hclock : Mirrors keeper name (w.atTime task.time) v :=
          ⟨h.thread, h.targets, h.calls, h.host.setClock _ v.host.now⟩
        have hnext : Mirrors keeper name u v :=
          mirrors_other hclock hp (hcontainer task List.mem_cons_self)
            (hkeeps task List.mem_cons_self) hown hdeeds
        exact ih hnext hcontainer' hkeeps' hlater hrest
    refine ⟨hstep.1, fun r hr slot warpMode handle hcommand => ?_⟩
    rcases List.mem_cons.mp hr with rfl | hr
    · have hp' : (w.atTime task.time).perform depth (.createFrame slot warpMode handle) =
          some (reply, u) := hcommand ▸ hp
      exact reply_createFrame hp' htime.host.clean
    · exact hstep.2 r hr slot warpMode handle hcommand

end RecyclingLemmas

open RecyclingLemmas

namespace World

/-- In a run of threads and pools in which nothing is compiled and no call of a procedure
goes from one thread to another, a thread is told the same as if it carried out its own
commands alone, with a new frame for every level of its stack, and is the same thread in the
end. And whoever takes a frame from a pool gets a new one. -/
theorem recycling_unobservable {depth : Nat} {w w' : World} {tasks : List Task}
    {replies : List Reply} (keeper : String → String) (name : String)
    (hclean : w.host.IsClean)
    (hcontainer : ∀ task ∈ tasks, task.command.changesContainer = false)
    (hkeeps : ∀ task ∈ tasks, task.command.keepsCalls keeper)
    (hcompile : ∀ d ∈ w.chronicle depth tasks, d.compiles = false)
    (hrun : w.run depth tasks = some (replies, w')) :
    (∃ v, (w.solo name).run depth (tasks.filter fun task => task.command.concerns name) =
        some (ownReplies name tasks replies, v) ∧
      v.threads.get? name = w'.threads.get? name) ∧
    ∀ r ∈ tasks.zip replies, ∀ slot warpMode handle,
      r.1.command = .createFrame slot warpMode handle →
        r.2 = .answer (.frame (some (.fresh warpMode))) := by
  obtain ⟨⟨v, hsolo, hmirrors⟩, hfresh⟩ :=
    mirrors_run (mirrors_solo hclean) hcontainer hkeeps hcompile hrun
  exact ⟨⟨v, hsolo, hmirrors.thread⟩, hfresh⟩

end World

/-! ## Two threads with one pool -/

/-- A world in which a frame waits that another thread has used. -/
def exSharedPool : World where
  host := Host.setPool "pool" { free := [.fresh false] } {}
  targets := .ofList [("sprite", { id := "sprite", name := "Sprite", container := none })]
  handles := ["pool"]

/-- Two threads push and drop in turns. One of them leaves a mark in its frame. -/
def exTurns : List Task :=
  [⟨0, .newThread "a" "sprite" "hat" none "pool"⟩, ⟨0, .newThread "b" "sprite" "hat" none "pool"⟩,
    ⟨1, .act "a" (.push "x")⟩,
    ⟨2, .act "a" (.editFrame fun f => { f with warpMode := true, waitingReporter := true })⟩,
    ⟨3, .act "a" .pop⟩, ⟨4, .act "b" (.push "y")⟩, ⟨5, .act "b" .peekFrame⟩,
    ⟨6, .act "a" (.push "z")⟩, ⟨7, .act "b" .retire⟩, ⟨8, .createFrame "f" true 0⟩]

/-- The second thread gets the frame of the first one, and cannot tell it from a new one. -/
theorem recycling_unobservable_turns :
    ∃ replies w', exSharedPool.run 1 exTurns = some (replies, w') ∧
      ∃ v, (exSharedPool.solo "b").run 1 (exTurns.filter fun task => task.command.concerns "b") =
          some (World.ownReplies "b" exTurns replies, v) ∧
        v.threads.get? "b" = w'.threads.get? "b" := by
  have hclean : exSharedPool.host.IsClean :=
    Host.IsClean.setPool (h := {}) (fun _ _ hf => absurd hf List.not_mem_nil)
      (fun _ hf => List.mem_singleton.mp hf) "pool"
  have hsome : (exSharedPool.run 1 exTurns).isSome := by decide +kernel
  obtain ⟨⟨replies, w'⟩, hrun⟩ := Option.isSome_iff_exists.mp hsome
  exact ⟨replies, w', hrun,
    (World.recycling_unobservable (fun _ => "b") "b" hclean (by decide) (by decide)
      (by decide +kernel) hrun).1⟩

end BlockThreads
