import BlockThreads.Proofs.Effects
import BlockThreads.World

/-!
# What happens in the run of a world

A world has many threads, and its owner lets them act in any order. The chronicle of a
run lists everything that happens in it: the moments of all threads, in the order of the
run, and in between what the owner does besides. The history of one thread is what the
chronicle says of it.

Results:
1. `history_path`: the history of a thread leads from the thread at the start to the
   thread at the end. Whatever happens in between does not concern the thread.
2. `chronicle_path`: the chronicle leads from the host at the start to the host at the
   end.
3. `serves_order`: what a command changes of the host that no thread carries out.
-/

namespace BlockThreads

/-! ## Deeds -/

/-- Something that happens in a world. -/
inductive Deed where
  | of (thread : String) (moment : Moment)
  /-- A command that no thread carries out. -/
  | order (world : World) (command : Command)
  /-- The clock goes on to a time. -/
  | clock (world : World) (time : Nat)

namespace Deed

/-- The host when it happens. -/
def host : Deed → Host
  | .of _ x => x.machine.host
  | .order w _ => w.host
  | .clock w _ => w.host

def hostAfter : Deed → Host
  | .of _ x => x.after.host
  | .order w command => ((w.perform 0 command).map fun r => r.2.host).getD w.host
  | .clock w time => (w.atTime time).host

/-- What happens to one thread. -/
def momentOf? (name : String) : Deed → Option Moment
  | .of thread x => if thread = name then some x else none
  | .order _ _ => none
  | .clock _ _ => none

end Deed

/-- Whether a command ends the life of a thread. -/
def Command.ends (name : String) : Command → Bool
  | .newThread thread _ _ _ _ => thread == name
  | .dropThread thread => thread == name
  | _ => false

/-- The thread that carries out a command. -/
def Command.actor? : Command → Option String
  | .act thread _ => some thread
  | .stepCall thread _ => some thread
  | _ => none

namespace World

/-- What happens when a command is carried out. -/
def deeds (depth : Nat) (w : World) : Command → List Deed
  | .act thread action =>
    match w.threads.get? thread with
    | none => []
    | some t => (Machine.moments depth action ⟨t, w.host⟩).map (.of thread)
  | .stepCall thread call =>
    match w.calls.get? call, w.threads.get? thread with
    | some coroutine, some t =>
      (coroutine.moments (Program.execute depth) (Program.tell depth) false ⟨t, w.host⟩).map
        (.of thread)
    | _, _ => []
  | command => [.order w command]

def chronicle (depth : Nat) : World → List Task → List Deed
  | _, [] => []
  | w, task :: tasks =>
    .clock w task.time :: (w.atTime task.time).deeds depth task.command ++
      match (w.atTime task.time).perform depth task.command with
      | none => []
      | some (_, w) => w.chronicle depth tasks

/-- What happens to one thread in a run. -/
def history (depth : Nat) (name : String) (w : World) (tasks : List Task) : List Moment :=
  (w.chronicle depth tasks).filterMap (Deed.momentOf? name)

end World

/-! ## The history of a thread -/

/-- A moment joins two threads, each with the coroutines that are open. -/
def Moment.JoinsThreads (s : Thread × List Coroutine) (x : Moment)
    (t : Thread × List Coroutine) : Prop :=
  x.machine.thread = s.1 ∧ x.after.thread = t.1 ∧ x.Happens s.2 t.2

theorem Moment.Joins.threads {s t : Machine × List Coroutine} {x : Moment} (h : x.Joins s t) :
    x.JoinsThreads (s.1.thread, s.2) (t.1.thread, t.2) := by
  obtain ⟨hs, ht, hx⟩ := h
  exact ⟨congrArg Machine.thread hs, congrArg Machine.thread ht, hx⟩

/-- What every moment keeps of a thread holds before and after each of them, and in the end. -/
theorem Path.keeps_thread {P : Thread → Prop} {a b : Thread × List Coroutine}
    {moments : List Moment} (hpath : Path Moment.JoinsThreads a moments b)
    (hstep : ∀ x ∈ moments, ∀ s t, x.Happens s t → P x.machine.thread → P x.after.thread)
    (ha : P a.1) : (∀ x ∈ moments, P x.machine.thread ∧ P x.after.thread) ∧ P b.1 := by
  have hjoin : ∀ x ∈ moments, ∀ c d : Thread × List Coroutine, x.JoinsThreads c d →
      P c.1 → P x.machine.thread ∧ P x.after.thread ∧ P d.1 := by
    rintro x hx ⟨_, s⟩ ⟨_, t⟩ ⟨rfl, rfl, hhappens⟩ hc
    have hafter := hstep x hx s t hhappens hc
    exact ⟨hc, hafter, hafter⟩
  have hkeeps : ∀ x ∈ moments, ∀ c d : Thread × List Coroutine, x.JoinsThreads c d →
      P c.1 → P d.1 := fun x hx c d h hc => (hjoin x hx c d h hc).2.2
  refine ⟨fun x hx => ?_, hpath.keeps (P := fun c => P c.1) hkeeps ha⟩
  obtain ⟨c, d, hx', hc⟩ := hpath.keeps_before (P := fun c => P c.1) hkeeps ha x hx
  exact ⟨(hjoin x hx c d hx' hc).1, (hjoin x hx c d hx' hc).2.1⟩

namespace ChronicleLemmas

variable {depth : Nat} {w w' : World} {name thread : String} {t : Thread}

theorem filterMap_momentOf?_self (moments : List Moment) :
    (moments.map (Deed.of name)).filterMap (Deed.momentOf? name) = moments := by
  rw [List.filterMap_map]
  have hsome : Deed.momentOf? name ∘ Deed.of name = some := by
    funext x
    exact if_pos rfl
  rw [hsome, List.filterMap_some]

theorem filterMap_momentOf?_other (h : thread ≠ name) (moments : List Moment) :
    (moments.map (Deed.of thread)).filterMap (Deed.momentOf? name) = [] := by
  rw [List.filterMap_map, List.filterMap_eq_nil_iff]
  exact fun x _ => if_neg h

theorem threads_dropThread (h : thread ≠ name) :
    (w.dropThread thread).threads.get? name = w.threads.get? name ∧
      (w.dropThread thread).targets = w.targets := by
  unfold World.dropThread
  split
  · exact ⟨rfl, rfl⟩
  · exact ⟨by simp [Table.get?_erase, h], rfl⟩

/-- A command that no thread carries out leaves the targets alone, and every thread whose
life it does not end. -/
theorem threads_perform {command : Command} {reply : Reply}
    (hactor : command.actor? = none) (hends : command.ends name = false)
    (h : w.perform depth command = some (reply, w')) :
    w'.threads.get? name = w.threads.get? name ∧ w'.targets = w.targets := by
  cases command with
  | act thread action => simp [Command.actor?] at hactor
  | stepCall thread call => simp [Command.actor?] at hactor
  | newThread thread target top container pool =>
    have hne : thread ≠ name := by simpa [Command.ends] using hends
    simp only [World.perform, Option.some.injEq] at h
    split at h
    · rw [← (Prod.mk.inj h).2]
      exact ⟨rfl, rfl⟩
    · rw [← (Prod.mk.inj h).2]
      simp only [World.newThread, Table.get?_insert, if_neg hne]
      exact threads_dropThread hne
  | dropThread thread =>
    have hne : thread ≠ name := by simpa [Command.ends] using hends
    simp only [World.perform, Option.some.injEq, Prod.mk.injEq] at h
    rw [← h.2]
    exact threads_dropThread hne
  | makeCall thread code call arguments =>
    simp only [World.perform, Option.some.injEq] at h
    split at h
    · rw [← (Prod.mk.inj h).2]
      exact ⟨rfl, rfl⟩
    · rw [← (Prod.mk.inj h).2]
      unfold World.makeCall
      split <;> exact ⟨rfl, rfl⟩
  | releaseFrame slot handle =>
    simp only [World.perform, World.releaseFrame, Option.some.injEq] at h
    split at h <;> rw [← (Prod.mk.inj h).2] <;> exact ⟨rfl, rfl⟩
  | editFrame slot edit =>
    simp only [World.perform, World.editFrame, Option.some.injEq] at h
    split at h <;> rw [← (Prod.mk.inj h).2] <;> exact ⟨rfl, rfl⟩
  | _ =>
    simp only [World.perform, Option.some.injEq] at h
    exact ⟨congrArg (fun r => r.2.threads.get? name) h.symm,
      congrArg (fun r => r.2.targets) h.symm⟩

theorem path_threads {moments : List Moment} {m : Machine} {s : List Coroutine}
    {result : Option Machine} (h : Leads m moments result) :
    ∃ u, Path Moment.JoinsThreads (m.thread, s) moments u ∧
      ∀ n, result = some n → u = (n.thread, s) := by
  obtain ⟨u, hpath, hu⟩ := h s
  refine ⟨(u.1.thread, u.2), ?_, fun n hn => by rw [hu n hn]⟩
  simpa using hpath.map (fun u => (u.1.thread, u.2)) id fun _ _ _ hx => hx.threads

theorem onThread_eq {α : Type} {work : Machine → Option (α × Machine)}
    (ht : w.threads.get? thread = some t) :
    w.onThread thread work = (work ⟨t, w.host⟩).map fun r =>
      (some r.1, { w with host := r.2.host, threads := w.threads.insert thread r.2.thread }) := by
  simp only [World.onThread, ht]

/-- What it means that a thread carries out a command: nothing, if the command names something
that is not there; or moments of the thread, which lead to its machine in the end. -/
theorem actor_cases (depth : Nat) {command : Command} (hactor : command.actor? = some thread) :
    (w.deeds depth command = [] ∧
        ∀ reply w', w.perform depth command = some (reply, w') → w' = w) ∨
      ∃ t moments result, w.threads.get? thread = some t ∧
        w.deeds depth command = moments.map (Deed.of thread) ∧
        Leads ⟨t, w.host⟩ moments result ∧
        ∀ reply w', w.perform depth command = some (reply, w') → ∃ n, result = some n ∧
          w'.host = n.host ∧ w'.threads = w.threads.insert thread n.thread ∧
          w'.targets = w.targets := by
  cases command with
  | act thread action =>
    obtain rfl := Option.some.inj hactor
    cases ht : w.threads.get? thread with
    | none =>
      left
      simp only [World.deeds, World.perform, World.onThread, ht]
      refine ⟨trivial, fun reply w' h => ?_⟩
      simp only [Option.map_some, Option.some.injEq, Prod.mk.injEq] at h
      exact h.2.symm
    | some t =>
      refine .inr ⟨t, _, _, rfl, by simp only [World.deeds, ht]; rfl,
        Action.leads (Program.execute_fits depth) action ⟨t, w.host⟩, fun reply w' h => ?_⟩
      rw [World.perform_act ht] at h
      obtain ⟨⟨answer, n⟩, hn, heq⟩ := Option.map_eq_some_iff.mp h
      have hact : action.perform (Program.execute depth) ⟨t, w.host⟩ = some (answer, n) := hn
      rw [← (Prod.mk.inj heq).2]
      exact ⟨n, by rw [hact, Option.map_some], rfl, rfl, rfl⟩
  | stepCall thread call =>
    obtain rfl := Option.some.inj hactor
    cases hc : w.calls.get? call with
    | none =>
      left
      simp only [World.deeds, World.perform, hc]
      exact ⟨trivial, fun reply w' h => (Prod.mk.inj (Option.some.inj h)).2.symm⟩
    | some coroutine =>
      cases ht : w.threads.get? thread with
      | none =>
        left
        simp only [World.deeds, World.perform, World.stepCall, World.onThread, hc, ht]
        refine ⟨trivial, fun reply w' h => ?_⟩
        simp only [Option.map_some, Option.some.injEq, Prod.mk.injEq] at h
        exact h.2.symm
      | some t =>
        refine .inr ⟨t, _, _, rfl, by simp only [World.deeds, hc, ht],
          Coroutine.leads_call (Program.execute_fits depth) coroutine ⟨t, w.host⟩,
          fun reply w' h => ?_⟩
        simp only [World.perform, World.stepCall, hc, onThread_eq ht, Option.map_map] at h
        obtain ⟨⟨stepped, n⟩, hn, heq⟩ := Option.map_eq_some_iff.mp h
        rw [← (Prod.mk.inj heq).2]
        exact ⟨n, by rw [hn, Option.map_some], rfl, rfl, rfl⟩
  | _ => simp [Command.actor?] at hactor

/-- What a command that threads carry out means for one of them. -/
theorem deeds_path_of_moments {moments : List Moment} {result : Option Machine} {s : Thread}
    (hs : w.threads.get? thread = some s) (hlead : Leads ⟨s, w.host⟩ moments result)
    (ht : w.threads.get? name = some t) :
    ∃ u, Path Moment.JoinsThreads (t, [])
        ((moments.map (Deed.of thread)).filterMap (Deed.momentOf? name)) u ∧
      ∀ n, result = some n →
        ∃ t', (w.threads.insert thread n.thread).get? name = some t' ∧ u = (t', []) := by
  by_cases h : thread = name
  · subst h
    obtain rfl : s = t := Option.some.inj (hs.symm.trans ht)
    obtain ⟨u, hpath, hu⟩ := path_threads (s := []) hlead
    rw [filterMap_momentOf?_self]
    refine ⟨u, hpath, fun n hn => ⟨n.thread, ?_, hu n hn⟩⟩
    exact Table.get?_insert_self w.threads thread n.thread
  · -- the thread does not notice what another one does
    rw [filterMap_momentOf?_other h]
    refine ⟨(t, []), .nil, fun n _ => ⟨t, ?_, rfl⟩⟩
    rw [Table.get?_insert_of_ne w.threads n.thread h, ht]

/-- What happens to a thread while a command is carried out leads on from the thread. -/
theorem deeds_path (depth : Nat) {command : Command} (ht : w.threads.get? name = some t)
    (hends : command.ends name = false) :
    ∃ u, Path Moment.JoinsThreads (t, [])
        ((w.deeds depth command).filterMap (Deed.momentOf? name)) u ∧
      ∀ reply w', w.perform depth command = some (reply, w') →
        ∃ t', w'.threads.get? name = some t' ∧ u = (t', []) := by
  cases hactor : command.actor? with
  | none =>
    have hdeeds : (w.deeds depth command).filterMap (Deed.momentOf? name) = [] := by
      cases command <;> first | rfl | simp [Command.actor?] at hactor
    rw [hdeeds]
    refine ⟨(t, []), .nil, fun reply w' h => ⟨t, ?_, rfl⟩⟩
    rw [(threads_perform hactor hends h).1, ht]
  | some thread =>
    rcases actor_cases depth hactor with
      ⟨hdeeds, hstill⟩ | ⟨s, moments, result, hs, hdeeds, hlead, hend⟩
    · rw [hdeeds]
      exact ⟨(t, []), .nil, fun reply w' h => ⟨t, by rw [hstill reply w' h, ht], rfl⟩⟩
    · obtain ⟨u, hpath, hu⟩ := deeds_path_of_moments hs hlead ht
      rw [hdeeds]
      refine ⟨u, hpath, fun reply w' h => ?_⟩
      obtain ⟨n, hn, _, hthreads, _⟩ := hend reply w' h
      obtain ⟨t', ht', hu'⟩ := hu n hn
      exact ⟨t', by rw [hthreads, ht'], hu'⟩

end ChronicleLemmas

open ChronicleLemmas

namespace World

/-- The history of a thread, while nobody ends its life, leads on from the thread. If the
run comes to its end, it leads to the thread at the end, and no step stays open. -/
theorem history_path (depth : Nat) {w : World} {tasks : List Task} {name : String} {t : Thread}
    (ht : w.threads.get? name = some t) (hlife : ∀ task ∈ tasks, task.command.ends name = false) :
    ∃ u, Path Moment.JoinsThreads (t, []) (w.history depth name tasks) u ∧
      ∀ replies w', w.run depth tasks = some (replies, w') →
        ∃ t', w'.threads.get? name = some t' ∧ u = (t', []) := by
  induction tasks generalizing w t with
  | nil =>
    refine ⟨(t, []), .nil, fun replies w' h => ⟨t, ?_, rfl⟩⟩
    simp only [run, Option.some.injEq, Prod.mk.injEq] at h
    rw [← h.2, ht]
  | cons task tasks ih =>
    have ht' : (w.atTime task.time).threads.get? name = some t := ht
    obtain ⟨u, hpath, hu⟩ := deeds_path depth ht' (hlife task List.mem_cons_self)
    have hclock : (Deed.clock w task.time).momentOf? name = none := rfl
    simp only [history, chronicle, run, List.filterMap_append, List.filterMap_cons_none hclock]
    cases hp : (w.atTime task.time).perform depth task.command with
    | none =>
      -- the run gets nowhere behind this task
      refine ⟨u, by simpa using hpath, fun replies w' h => ?_⟩
      simp at h
    | some r =>
      obtain ⟨reply, v⟩ := r
      obtain ⟨s, hs, rfl⟩ := hu reply v hp
      obtain ⟨u', hpath', hu'⟩ := ih hs fun x hx => hlife x (List.mem_cons_of_mem _ hx)
      refine ⟨u', hpath.append hpath', fun replies w' h => ?_⟩
      simp only [Option.bind_eq_bind, Option.bind_some] at h
      obtain ⟨⟨replies', w''⟩, hrun, h⟩ := Option.bind_eq_some_iff.mp h
      obtain ⟨t', ht', hu''⟩ := hu' replies' w'' hrun
      exact ⟨t', by rw [← (Prod.mk.inj (Option.some.inj h)).2]; exact ht', hu''⟩

end World

/-! ## The history of a host -/

/-- What happens in a world joins two hosts. -/
def Deed.Joins (h : Host) (d : Deed) (h' : Host) : Prop :=
  d.host = h ∧ d.hostAfter = h' ∧
    match d with
    | .of _ x => ∃ s t, x.Happens s t
    | .order _ command => command.actor? = none
    | .clock _ _ => True

namespace ChronicleLemmas

/-- A command that no thread carries out is carried out whatever the depth. -/
theorem perform_of_no_actor {command : Command} (hactor : command.actor? = none)
    (depth depth' : Nat) (w : World) :
    w.perform depth command = w.perform depth' command := by
  cases command <;> first | rfl | simp [Command.actor?] at hactor

/-- What is done at a command is the command, unless a thread carries it out. -/
theorem order_of_mem_deeds {depth : Nat} {w u : World} {command other : Command}
    (hd : Deed.order u other ∈ w.deeds depth command) : other = command := by
  have hmoments : ∀ (thread : String) (moments : List Moment),
      Deed.order u other ∉ moments.map (Deed.of thread) := by
    intro thread moments hmem
    obtain ⟨_, _, heq⟩ := List.mem_map.mp hmem
    cases heq
  cases command with
  | act thread action =>
    rw [World.deeds] at hd
    split at hd
    · exact absurd hd List.not_mem_nil
    · exact absurd hd (hmoments _ _)
  | stepCall thread call =>
    rw [World.deeds] at hd
    split at hd
    · exact absurd hd (hmoments _ _)
    · exact absurd hd List.not_mem_nil
  | _ =>
    cases List.mem_singleton.mp hd
    rfl

theorem path_hosts {moments : List Moment} {m : Machine} {result : Option Machine}
    (name : String) (h : Leads m moments result) :
    ∃ h', Path Deed.Joins m.host (moments.map (Deed.of name)) h' ∧
      ∀ n, result = some n → h' = n.host := by
  obtain ⟨u, hpath, hu⟩ := h []
  refine ⟨u.1.host, ?_, fun n hn => by rw [hu n hn]⟩
  refine hpath.map (fun u => u.1.host) (Deed.of name) fun s x t hx => ?_
  exact ⟨congrArg Machine.host hx.1, congrArg Machine.host hx.2.1, s.2, t.2, hx.2.2⟩

/-- What happens while a command is carried out leads on from the host. -/
theorem deeds_hosts (depth : Nat) (w : World) (command : Command) :
    ∃ h, Path Deed.Joins w.host (w.deeds depth command) h ∧
      ∀ reply w', w.perform depth command = some (reply, w') → h = w'.host := by
  cases hactor : command.actor? with
  | none =>
    have hdeeds : w.deeds depth command = [.order w command] := by
      cases command <;> first | rfl | simp [Command.actor?] at hactor
    rw [hdeeds]
    refine ⟨_, .cons ⟨rfl, rfl, hactor⟩ .nil, fun reply w' h => ?_⟩
    rw [perform_of_no_actor hactor depth 0] at h
    simp only [Deed.hostAfter, h, Option.map_some, Option.getD_some]
  | some thread =>
    rcases actor_cases depth hactor with
      ⟨hdeeds, hstill⟩ | ⟨s, moments, result, _, hdeeds, hlead, hend⟩
    · rw [hdeeds]
      exact ⟨w.host, .nil, fun reply w' h => by rw [hstill reply w' h]⟩
    · obtain ⟨h', hpath, hh⟩ := path_hosts thread hlead
      rw [hdeeds]
      refine ⟨h', hpath, fun reply w' h => ?_⟩
      obtain ⟨n, hn, hhost, _, _⟩ := hend reply w' h
      rw [hhost, hh n hn]

end ChronicleLemmas

namespace World

/-- The chronicle of a run leads on from the host. If the run comes to its end, it leads to
the host at the end. -/
theorem chronicle_path (depth : Nat) (w : World) (tasks : List Task) :
    ∃ h, Path Deed.Joins w.host (w.chronicle depth tasks) h ∧
      ∀ replies w', w.run depth tasks = some (replies, w') → h = w'.host := by
  induction tasks generalizing w with
  | nil =>
    refine ⟨w.host, .nil, fun replies w' h => ?_⟩
    simp only [run, Option.some.injEq, Prod.mk.injEq] at h
    rw [← h.2]
  | cons task tasks ih =>
    obtain ⟨h, hpath, hh⟩ := deeds_hosts depth (w.atTime task.time) task.command
    have hclock : Path Deed.Joins w.host
        (.clock w task.time :: (w.atTime task.time).deeds depth task.command) h :=
      .cons ⟨rfl, rfl, trivial⟩ hpath
    simp only [chronicle, run]
    cases hp : (w.atTime task.time).perform depth task.command with
    | none =>
      refine ⟨h, by simpa using hclock, fun replies w' h => ?_⟩
      simp at h
    | some r =>
      obtain ⟨reply, v⟩ := r
      obtain rfl := hh reply v hp
      obtain ⟨h', hpath', hh'⟩ := ih v
      refine ⟨h', hclock.append hpath', fun replies w' h => ?_⟩
      simp only [Option.bind_eq_bind, Option.bind_some] at h
      obtain ⟨⟨replies', w''⟩, hrun, h⟩ := Option.bind_eq_some_iff.mp h
      rw [← (Prod.mk.inj (Option.some.inj h)).2]
      exact hh' replies' w'' hrun

end World

/-! ## Commands that no thread carries out -/

/-- Whether a command changes a container. -/
def Command.changesContainer : Command → Bool
  | .insertBlock _ _ _ => true
  | .remember _ _ _ => true
  | .forget _ => true
  | _ => false

namespace ChronicleLemmas

open Host

theorem serves_dropThread (name : String) (w : World) :
    w.host.Serves (w.dropThread name).host := by
  unfold World.dropThread
  split
  · exact .refl _
  · exact .releaseFrames _ _ _

theorem hostAfter_of_perform {w : World} {command : Command} {r : Reply × World}
    (h : w.perform 0 command = some r) : (Deed.order w command).hostAfter = r.2.host := by
  simp only [Deed.hostAfter, h, Option.map_some, Option.getD_some]

end ChronicleLemmas

/-- A command that no thread carries out has to do with frames, if it changes anything but a
container. -/
theorem World.serves_order {w : World} {command : Command} (hactor : command.actor? = none)
    (hcontainer : command.changesContainer = false) :
    w.host.Serves (Deed.order w command).hostAfter := by
  cases command with
  | act | stepCall => simp [Command.actor?] at hactor
  | insertBlock | remember | forget => simp [Command.changesContainer] at hcontainer
  | newThread thread target top container pool =>
    rw [hostAfter_of_perform rfl]
    split
    · exact .refl _
    · exact (serves_dropThread thread w).trans (.openPool _ _)
  | dropThread thread => exact serves_dropThread thread w
  | makeCall thread code call arguments =>
    rw [hostAfter_of_perform rfl]
    split
    · exact .refl _
    · unfold World.makeCall
      split
      · exact .refl _
      · exact .record _ rfl
  | poolSize pool => exact .openPool _ _
  | createFrame slot warpMode handle => exact .createFrame _ _ _
  | releaseFrame slot handle =>
    rw [hostAfter_of_perform rfl, World.releaseFrame]
    split
    · exact .refl _
    · exact .releaseFrames _ _ _
  | editFrame slot edit =>
    rw [hostAfter_of_perform rfl, World.editFrame]
    split <;> exact .refl _
  | nameOf | getBlock | nextOf | outcome | newPool | sharePool | newFrame => exact .refl _

end BlockThreads
