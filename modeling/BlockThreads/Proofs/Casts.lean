import BlockThreads.Proofs.Chronicle

/-!
# The threads of a world in the course of a run

A chronicle lists what happens to many threads in turn, and each moment of it shows only
the thread that it is about. To speak about all threads at some point of a run, what has
happened up to there is replayed: a `Cast` is a host with its threads, and each thing that
happens turns one cast into the next.

Results:
1. `chronicle_casts`: the chronicle of a run leads from cast to cast. Each thread finds
   itself as the cast has it, and the last cast is the world in the end.
2. `casts_up_to`: so does every part of the chronicle from the start on.
-/

namespace BlockThreads

/-- A host and its threads. -/
structure Cast where
  host : Host
  threads : Table String Thread

def World.cast (w : World) : Cast := ⟨w.host, w.threads⟩

/-- What becomes of the threads when something happens. -/
def Deed.effect : Deed → Cast → Cast
  | .of thread x, c => ⟨x.after.host, c.threads.insert thread x.after.thread⟩
  | .order w command, _ => ((w.perform 0 command).map fun r => r.2.cast).getD w.cast
  | .clock w time, _ => (w.atTime time).cast

/-- The threads after several things have happened. -/
def Cast.replay (c : Cast) (deeds : List Deed) : Cast := deeds.foldl (fun c d => d.effect c) c

/-- What happens in a world joins two casts. -/
def Deed.JoinsCasts (c : Cast) (d : Deed) (c' : Cast) : Prop :=
  d.effect c = c' ∧
    match d with
    | .of thread x =>
      x.machine.host = c.host ∧ c.threads.get? thread = some x.machine.thread ∧
        ∃ s t, x.Happens s t
    | .order w command => w.cast = c ∧ command.actor? = none
    | .clock w _ => w.cast = c

/-- What joins two casts joins their hosts. -/
theorem Deed.JoinsCasts.joins {c c' : Cast} {d : Deed} (hd : d.JoinsCasts c c') :
    d.Joins c.host c'.host := by
  obtain ⟨rfl, hjoin⟩ := hd
  cases d with
  | of thread x =>
    obtain ⟨hhost, _, hhappens⟩ := hjoin
    exact ⟨hhost, rfl, hhappens⟩
  | order w command =>
    obtain ⟨rfl, hactor⟩ := hjoin
    refine ⟨rfl, ?_, hactor⟩
    simp only [Deed.hostAfter, Deed.effect]
    cases w.perform 0 command <;> rfl
  | clock w time =>
    obtain rfl := hjoin
    exact ⟨rfl, rfl, trivial⟩

/-- Where a path leads is what a replay gives. -/
theorem Cast.replay_of_path {c c' : Cast} {deeds : List Deed}
    (hpath : Path Deed.JoinsCasts c deeds c') : c.replay deeds = c' := by
  induction hpath with
  | nil => rfl
  | @cons c _ _ d deeds hd _ ih =>
    have hstep : c.replay (d :: deeds) = (d.effect c).replay deeds := rfl
    rw [hstep, hd.1, ih]

namespace CastsLemmas

open ChronicleLemmas

/-- The moments of one thread lead from cast to cast. The other threads do not change. -/
theorem path_casts {moments : List Moment} {m : Machine} {result : Option Machine}
    {threads : Table String Thread} (name : String) (hm : threads.get? name = some m.thread)
    (h : Leads m moments result) :
    ∃ c, Path Deed.JoinsCasts ⟨m.host, threads⟩ (moments.map (Deed.of name)) c ∧
      ∀ n, result = some n → c = ⟨n.host, threads.insert name n.thread⟩ := by
  obtain ⟨u, hpath, hu⟩ := h []
  have hstep : ∀ s x t, Moment.Joins s x t →
      Deed.JoinsCasts ⟨s.1.host, threads.insert name s.1.thread⟩ (.of name x)
        ⟨t.1.host, threads.insert name t.1.thread⟩ := by
    rintro s x t ⟨hs, ht, hhappens⟩
    refine ⟨?_, congrArg Machine.host hs, ?_, s.2, t.2, hhappens⟩
    · simp only [Deed.effect, Table.insert_insert, ht]
    · simp only [Table.get?_insert_self, hs]
  have hcasts := hpath.map
    (fun u : Machine × List Coroutine => Cast.mk u.1.host (threads.insert name u.1.thread))
    (Deed.of name) hstep
  simp only [Table.insert_of_get? hm] at hcasts
  exact ⟨_, hcasts, fun n hn => by rw [hu n hn]⟩

/-- What happens while a command is carried out leads from cast to cast. -/
theorem deeds_casts (depth : Nat) (w : World) (command : Command) :
    ∃ c, Path Deed.JoinsCasts w.cast (w.deeds depth command) c ∧
      ∀ reply w', w.perform depth command = some (reply, w') → c = w'.cast := by
  cases hactor : command.actor? with
  | none =>
    have hdeeds : w.deeds depth command = [.order w command] := by
      cases command <;> first | rfl | cases hactor
    rw [hdeeds]
    refine ⟨_, .cons ⟨rfl, rfl, hactor⟩ .nil, fun reply w' h => ?_⟩
    rw [perform_of_no_actor hactor depth 0] at h
    simp only [Deed.effect, h, Option.map_some, Option.getD_some]
  | some thread =>
    rcases actor_cases depth hactor with
      ⟨hdeeds, hstill⟩ | ⟨s, moments, result, hs, hdeeds, hlead, hend⟩
    · rw [hdeeds]
      exact ⟨w.cast, .nil, fun reply w' h => by rw [hstill reply w' h]⟩
    · obtain ⟨c, hpath, hc⟩ := path_casts thread hs hlead
      rw [hdeeds]
      refine ⟨c, hpath, fun reply w' h => ?_⟩
      obtain ⟨n, hn, hhost, hthreads, _⟩ := hend reply w' h
      rw [hc n hn, World.cast, hhost, hthreads]

end CastsLemmas

open CastsLemmas

namespace World

theorem chronicle_path_casts (depth : Nat) (w : World) (tasks : List Task) :
    ∃ c, Path Deed.JoinsCasts w.cast (w.chronicle depth tasks) c ∧
      ∀ replies w', w.run depth tasks = some (replies, w') → c = w'.cast := by
  induction tasks generalizing w with
  | nil =>
    refine ⟨w.cast, .nil, fun replies w' h => ?_⟩
    simp only [run, Option.some.injEq, Prod.mk.injEq] at h
    rw [← h.2]
  | cons task tasks ih =>
    obtain ⟨c, hpath, hc⟩ := deeds_casts depth (w.atTime task.time) task.command
    have hclock : Path Deed.JoinsCasts w.cast
        (.clock w task.time :: (w.atTime task.time).deeds depth task.command) c :=
      .cons ⟨rfl, rfl⟩ hpath
    simp only [chronicle, run]
    cases hp : (w.atTime task.time).perform depth task.command with
    | none =>
      -- the run gets nowhere behind this task
      refine ⟨c, by simpa using hclock, fun replies w' h => ?_⟩
      simp at h
    | some r =>
      obtain ⟨reply, v⟩ := r
      obtain rfl := hc reply v hp
      obtain ⟨c', hpath', hc'⟩ := ih v
      refine ⟨c', hclock.append hpath', fun replies w' h => ?_⟩
      simp only [Option.bind_eq_bind, Option.bind_some] at h
      obtain ⟨⟨replies', w''⟩, hrun, h⟩ := Option.bind_eq_some_iff.mp h
      rw [← (Prod.mk.inj (Option.some.inj h)).2]
      exact hc' replies' w'' hrun

/-- The chronicle of a run leads from cast to cast. If the run comes to its end, the last
cast is the world at the end. -/
theorem chronicle_casts (depth : Nat) (w : World) (tasks : List Task) :
    Path Deed.JoinsCasts w.cast (w.chronicle depth tasks)
        (w.cast.replay (w.chronicle depth tasks)) ∧
      ∀ replies w', w.run depth tasks = some (replies, w') →
        w.cast.replay (w.chronicle depth tasks) = w'.cast := by
  obtain ⟨c, hpath, hc⟩ := chronicle_path_casts depth w tasks
  obtain rfl := Cast.replay_of_path hpath
  exact ⟨hpath, hc⟩

/-- What holds of the commands of a run holds of those that no thread carries out. -/
theorem order_chronicle {P : Command → Prop} (depth : Nat) (w : World) {tasks : List Task}
    (h : ∀ task ∈ tasks, P task.command) {u : World} {command : Command}
    (hd : .order u command ∈ w.chronicle depth tasks) : P command := by
  induction tasks generalizing w with
  | nil => exact absurd hd List.not_mem_nil
  | cons task tasks ih =>
    rw [chronicle] at hd
    rcases List.mem_append.mp hd with hd | hd
    · rcases List.mem_cons.mp hd with heq | hd
      · cases heq
      · rw [ChronicleLemmas.order_of_mem_deeds hd]
        exact h task List.mem_cons_self
    · split at hd
      · exact absurd hd List.not_mem_nil
      · exact ih _ (fun x hx => h x (List.mem_cons_of_mem _ hx)) hd

/-- Every part of the chronicle from the start on leads from cast to cast. -/
theorem casts_up_to {depth : Nat} {w : World} {tasks : List Task} {deeds : List Deed}
    (h : deeds <+: w.chronicle depth tasks) :
    Path Deed.JoinsCasts w.cast deeds (w.cast.replay deeds) := by
  obtain ⟨rest, hrest⟩ := h
  have hpath := (w.chronicle_casts depth tasks).1
  rw [← hrest] at hpath
  obtain ⟨c, hdeeds, _⟩ := hpath.split
  rwa [Cast.replay_of_path hdeeds]

end World

end BlockThreads
