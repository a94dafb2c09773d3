import BlockThreads.Execution.Depth

/-!
# What happens while an action is performed

An action may call foreign code, which performs actions in its turn. So an action is
more than a change of a machine: it takes the machine through many states, and foreign
code sees each of them. This module lists them. A `Move` is a change that calls no
foreign code, a `Moment` is a machine with the move that it makes, and the moments of
an action are all moves it leads to, its own and those of the foreign code it calls, in
the order in which they are made.

While coroutines of the thread's own script are being stepped, they are `open`: a step
that starts opens its coroutine, and the step that ends is the one opened last.

Results:
1. `Machine.moments_path`: the moments of an action lead from the machine it starts with
   to the one it ends with. Each of them is a move that can be made there, and no step
   stays open.
2. `Machine.resume_answer`: the caller who resumes a thread gets the answer of the last
   moment.
-/

namespace BlockThreads

/-! ## Paths -/

/-- A list of things that happen leads from one state to another, step by step. -/
inductive Path {σ μ : Type} (step : σ → μ → σ → Prop) : σ → List μ → σ → Prop
  | nil {s : σ} : Path step s [] s
  | cons {s t u : σ} {x : μ} {xs : List μ} :
      step s x t → Path step t xs u → Path step s (x :: xs) u

namespace Path

variable {σ τ μ ν : Type} {step : σ → μ → σ → Prop} {s t u : σ} {xs ys : List μ}

theorem append (h : Path step s xs t) (h' : Path step t ys u) : Path step s (xs ++ ys) u := by
  induction h with
  | nil => exact h'
  | cons hx _ ih => exact .cons hx (ih h')

theorem split (h : Path step s (xs ++ ys) u) : ∃ t, Path step s xs t ∧ Path step t ys u := by
  induction xs generalizing s with
  | nil => exact ⟨s, .nil, h⟩
  | cons x xs ih =>
    cases h with
    | cons hx h =>
      obtain ⟨t, hxs, hys⟩ := ih h
      exact ⟨t, .cons hx hxs, hys⟩

/-- What every step keeps, a path keeps. -/
theorem keeps {P : σ → Prop} (h : Path step s xs t)
    (hstep : ∀ x ∈ xs, ∀ s t, step s x t → P s → P t) (hs : P s) : P t := by
  induction h with
  | nil => exact hs
  | cons hx _ ih =>
    exact ih (fun y hy => hstep y (List.mem_cons_of_mem _ hy))
      (hstep _ List.mem_cons_self _ _ hx hs)

/-- What every step keeps holds before each thing that happens. -/
theorem keeps_before {P : σ → Prop} (h : Path step s xs t)
    (hstep : ∀ x ∈ xs, ∀ s t, step s x t → P s → P t) (hs : P s) :
    ∀ x ∈ xs, ∃ s t, step s x t ∧ P s := by
  induction h with
  | nil => exact fun _ hx => absurd hx List.not_mem_nil
  | @cons s t _ x xs hx _ ih =>
    have ht : P t := hstep x List.mem_cons_self _ _ hx hs
    rintro y hy
    rcases List.mem_cons.mp hy with rfl | hy
    · exact ⟨s, t, hx, hs⟩
    · exact ih (fun z hz => hstep z (List.mem_cons_of_mem _ hz)) ht y hy

/-- Everything that happens along a path is a step. -/
theorem step_of_mem (h : Path step s xs t) {x : μ} (hx : x ∈ xs) : ∃ s t, step s x t := by
  obtain ⟨s, t, hstep, _⟩ := h.keeps_before (P := fun _ => True) (fun _ _ _ _ _ _ => trivial)
    trivial x hx
  exact ⟨s, t, hstep⟩

/-- A path seen through maps of its states and of what happens. -/
theorem map {step' : τ → ν → τ → Prop} (f : σ → τ) (g : μ → ν) (h : Path step s xs t)
    (hstep : ∀ s x t, step s x t → step' (f s) (g x) (f t)) :
    Path step' (f s) (xs.map g) (f t) := by
  induction h with
  | nil => exact .nil
  | cons hx _ ih => exact .cons (hstep _ _ _ hx) ih

end Path

/-! ## Moves -/

/-- The runner that runs nothing. -/
def Runner.idle : Runner := fun _ _ _ => none

/-- Whether an action calls no foreign code. -/
def Action.isPlain : Action → Bool
  | .runProcedure _ _ => false
  | .resume => false
  | .callLegacy _ _ _ => false
  | .bindLegacy _ _ _ => false
  | _ => true

/-- Whether a use of a block utility calls no foreign code. -/
def Use.isPlain : Use → Bool
  | .onThread _ => false
  | .retire => false
  | _ => true

/-- A change of a machine that calls no foreign code. -/
inductive Move where
  | act (action : Action)
  | use (step : Use)
  /-- The thread is bound to a legacy block. -/
  | bind (block : String) (context : Option Context)
  | call (code : String) (procedure : Procedure) (arguments : List Value)
  /-- The thread is resumed, and there is nothing to step. -/
  | pass
  /-- A coroutine starts a step: that of the script of the thread, or of a procedure. -/
  | enter (coroutine : Coroutine) (attached : Bool)
  /-- The step is over. -/
  | leave (coroutine : Coroutine) (answers : List Answer) (step : Step) (attached : Bool)

/-- Whether the coroutine of the script starts a step. -/
def Move.stepsScript : Move → Bool
  | .enter _ true => true
  | _ => false

/-- What a move does to a machine. -/
def Move.apply : Move → Machine → Machine
  | .act action, m => ((action.perform Runner.idle m).map Prod.snd).getD m
  | .use step, m => ((step.perform Runner.idle none m).map fun r => r.2.2).getD m
  | .bind block context, m => m.bindBlock block context
  | .call code procedure arguments, m => m.record (.call code procedure.binding arguments)
  | .pass, m =>
    if m.state.status = .done ∨ m.state.status = .promiseWait then m else m.wake
  | .enter coroutine attached, m =>
    let m := if attached then m.wake.detach else m
    m.record (.enter coroutine.name coroutine.position m.state.status attached)
  | .leave coroutine answers step attached, m =>
    let m := m.record (.leave coroutine.name answers)
    if attached then (m.conclude step (coroutine.advance answers)).2 else m

/-- A machine and the move it makes. -/
structure Moment where
  machine : Machine
  move : Move

namespace Moment

/-- The machine when the move is made. -/
def after (x : Moment) : Machine := x.move.apply x.machine

/-- The answer to the caller who resumed the thread, when a resumption is over. -/
def resumed? (x : Moment) : Option Step :=
  match x.move with
  | .pass =>
    some (if x.machine.state.status = .promiseWait then .suspended .promiseWait
      else .completed none)
  | .leave coroutine answers step true =>
    some ((x.machine.record (.leave coroutine.name answers)).conclude step
      (coroutine.advance answers)).1
  | _ => none

/-- A moment can happen while some coroutines of the script are open, and leaves others
open. Only a thread that is neither done nor waiting has its coroutine stepped, and only
the one that is attached to it. -/
inductive Happens : List Coroutine → Moment → List Coroutine → Prop
  | act {m : Machine} {s : List Coroutine} {action : Action} :
      action.isPlain → Happens s ⟨m, .act action⟩ s
  | use {m : Machine} {s : List Coroutine} {step : Use} :
      step.isPlain → Happens s ⟨m, .use step⟩ s
  | bind {m : Machine} {s : List Coroutine} {block : String} {context : Option Context} :
      Happens s ⟨m, .bind block context⟩ s
  | call {m : Machine} {s : List Coroutine} {code : String} {procedure : Procedure}
      {arguments : List Value} : m.thread.procedure? code = some procedure →
      Happens s ⟨m, .call code procedure arguments⟩ s
  | pass {m : Machine} {s : List Coroutine} :
      m.state.status = .done ∨ m.state.status = .promiseWait ∨ m.thread.coroutine = none →
      Happens s ⟨m, .pass⟩ s
  | enterScript {m : Machine} {s : List Coroutine} {c : Coroutine} :
      m.thread.coroutine = some c → m.state.status ≠ .done → m.state.status ≠ .promiseWait →
      Happens s ⟨m, .enter c true⟩ (c :: s)
  | leaveScript {m : Machine} {s : List Coroutine} {c : Coroutine} {answers : List Answer}
      {step : Step} : Happens (c :: s) ⟨m, .leave c answers step true⟩ s
  | enterCall {m : Machine} {s : List Coroutine} {c : Coroutine} :
      Happens s ⟨m, .enter c false⟩ s
  | leaveCall {m : Machine} {s : List Coroutine} {c : Coroutine} {answers : List Answer}
      {step : Step} : Happens s ⟨m, .leave c answers step false⟩ s

/-- A moment joins two machines, each with the coroutines that are open. -/
def Joins (s : Machine × List Coroutine) (x : Moment) (t : Machine × List Coroutine) : Prop :=
  x.machine = s.1 ∧ x.after = t.1 ∧ x.Happens s.2 t.2

end Moment

/-! ## The moments of an action -/

/-- A way to tell what foreign code does with a thread at hand. -/
abbrev Teller : Type 1 := (α : Type) → Program α → Machine → List Moment

section Telling

variable (run : Runner) (tell : Teller)

/-- The moments of a step of a coroutine. -/
def Coroutine.moments (attached : Bool) (c : Coroutine) (m : Machine) : List Moment :=
  let entered := (Move.enter c attached).apply m
  ⟨m, .enter c attached⟩ :: tell Step c.program entered ++
    match run Step c.program entered with
    | none => []
    | some ((answers, step), m) => [⟨m, .leave c answers step attached⟩]

/-- The moments of a resumption. -/
def Machine.resumeMoments (m : Machine) : List Moment :=
  if m.state.status = .done ∨ m.state.status = .promiseWait then [⟨m, .pass⟩]
  else
    match m.thread.coroutine with
    | none => [⟨m, .pass⟩]
    | some coroutine => coroutine.moments run tell true m

/-- The moments of a call of a procedure. -/
def Machine.procedureMoments (code : String) (arguments : List Value) (m : Machine) :
    List Moment :=
  match m.thread.procedure? code with
  | none => []
  | some procedure =>
    ⟨m, .call code procedure arguments⟩ ::
      (procedure.call arguments).moments run tell false
        (m.record (.call code procedure.binding arguments))

/-- The moments of a sequencer that is asked to retire the thread. -/
def Machine.sequencerMoments (m : Machine) : List Moment :=
  match m.host.sequencer with
  | none => []
  | some sequencer => tell Unit sequencer.retire m

mutual

/-- The moments of an action. -/
def Action.moments : Action → Machine → List Moment
  | .runProcedure code arguments, m => m.procedureMoments run tell code arguments
  | .resume, m => m.resumeMoments run tell
  | .callLegacy block context errand, m =>
    ⟨m, .bind block context⟩ :: errand.moments none (m.bindBlock block context)
  | .bindLegacy block context errand, m =>
    ⟨m, .bind block context⟩ :: errand.moments none (m.bindBlock block context)
  | action, m => [⟨m, .act action⟩]

/-- The moments of a use of a block utility. -/
def Use.moments : Use → Machine → List Moment
  | .onThread action, m => action.moments m
  | .retire, m => m.sequencerMoments tell
  | step, m => [⟨m, .use step⟩]

/-- The moments of an errand. -/
def Errand.moments (branch : Option Branch) : Errand → Machine → List Moment
  | .finish, _ => []
  | .ask first next, m =>
    first.moments m ++
      match first.perform run branch m with
      | none => []
      | some (answer, branch, m) => (next answer).moments branch m

end

end Telling

/-- The moments of a program, given a way to perform an action and to tell its moments. -/
def Program.moments {α : Type} (act : Action → Machine → Option (Answer × Machine))
    (tell : Action → Machine → List Moment) : Program α → Machine → List Moment
  | .finish _, _ => []
  | .ask action next, m =>
    tell action m ++
      match act action m with
      | none => []
      | some (answer, m) => (next answer).moments act tell m

/-- Tells the moments of foreign code in which further foreign code is called, nested at
most `depth` deep together with this call. -/
def Program.tell : Nat → Teller
  | 0, _, _, _ => []
  | depth + 1, _, program, m =>
    program.moments (Action.perform (execute depth)) (Action.moments (execute depth) (tell depth)) m

/-- The moments of an action; foreign code may be nested `depth` deep. -/
def Machine.moments (depth : Nat) (action : Action) (m : Machine) : List Moment :=
  action.moments (Program.execute depth) (Program.tell depth) m

/-! ## Moments lead from machine to machine -/

/-- Moments lead on from a machine, whatever is open, and if there is a result they lead
to it and leave the same open. -/
def Leads (m : Machine) (moments : List Moment) (result : Option Machine) : Prop :=
  ∀ s, ∃ t, Path Moment.Joins (m, s) moments t ∧ ∀ r, result = some r → t = (r, s)

namespace MomentsLemmas

theorem leads_nil (m : Machine) : Leads m [] (some m) :=
  fun s => ⟨(m, s), .nil, fun _ hr => by rw [Option.some.inj hr]⟩

theorem leads_none {m : Machine} : Leads m [] none :=
  fun s => ⟨(m, s), .nil, fun _ hr => nomatch hr⟩

theorem leads_cons {m n : Machine} {move : Move} {moments : List Moment}
    {result : Option Machine} (hn : move.apply m = n) (h : ∀ s, Moment.Happens s ⟨m, move⟩ s)
    (hrest : Leads n moments result) : Leads m (⟨m, move⟩ :: moments) result := by
  intro s
  obtain ⟨t, hpath, ht⟩ := hrest s
  exact ⟨t, .cons (t := (n, s)) ⟨rfl, hn, h s⟩ hpath, ht⟩

/-- A single move that opens and closes nothing. -/
theorem leads_single {m n : Machine} {move : Move} (hn : move.apply m = n)
    (h : ∀ s, Moment.Happens s ⟨m, move⟩ s) : Leads m [⟨m, move⟩] (some n) :=
  leads_cons hn h (leads_nil n)

theorem leads_append {m n : Machine} {first rest : List Moment} {result : Option Machine}
    (h : Leads m first (some n)) (hrest : Leads n rest result) :
    Leads m (first ++ rest) result := by
  intro s
  obtain ⟨t, hpath, ht⟩ := h s
  obtain ⟨u, hpath', hu⟩ := hrest s
  rw [ht n rfl] at hpath
  exact ⟨u, hpath.append hpath', hu⟩

/-- A step of the script opens its coroutine while it lasts. -/
theorem leads_bracket {m n r : Machine} {c : Coroutine} {body : List Moment}
    {answers : List Answer} {step : Step} (hc : m.thread.coroutine = some c)
    (hd : m.state.status ≠ .done) (hp : m.state.status ≠ .promiseWait)
    (hbody : Leads ((Move.enter c true).apply m) body (some n))
    (hr : (Move.leave c answers step true).apply n = r) :
    Leads m (⟨m, .enter c true⟩ :: body ++ [⟨n, .leave c answers step true⟩]) (some r) := by
  intro s
  obtain ⟨t, hpath, ht⟩ := hbody (c :: s)
  rw [ht n rfl] at hpath
  have hlast : Path Moment.Joins (n, c :: s) [⟨n, .leave c answers step true⟩] (r, s) :=
    .cons (t := (r, s)) ⟨rfl, hr, .leaveScript⟩ .nil
  refine ⟨(r, s), .cons ⟨rfl, rfl, .enterScript hc hd hp⟩ (hpath.append hlast), ?_⟩
  intro r' hr'
  rw [Option.some.inj hr']

theorem leads_open {m : Machine} {c : Coroutine} {body : List Moment} {result : Option Machine}
    (hc : m.thread.coroutine = some c) (hd : m.state.status ≠ .done)
    (hp : m.state.status ≠ .promiseWait)
    (hbody : Leads ((Move.enter c true).apply m) body result) :
    Leads m (⟨m, .enter c true⟩ :: body) none := by
  intro s
  obtain ⟨t, hpath, _⟩ := hbody (c :: s)
  exact ⟨t, .cons ⟨rfl, rfl, .enterScript hc hd hp⟩ hpath, fun _ hr => nomatch hr⟩

end MomentsLemmas

open MomentsLemmas

/-- A way to run foreign code and a way to tell its moments fit together. -/
def Runner.Fits (run : Runner) (tell : Teller) : Prop :=
  ∀ (α : Type) (p : Program α) (m : Machine),
    Leads m (tell α p m) ((run α p m).map Prod.snd)

section Telling

variable {run : Runner} {tell : Teller}

theorem Action.perform_of_isPlain {action : Action} (h : action.isPlain) (run' : Runner)
    (m : Machine) : action.perform run m = action.perform run' m := by
  cases action <;> first | rfl | simp [Action.isPlain] at h

/-- An action that calls no foreign code is a single move. -/
theorem Action.leads_of_isPlain {action : Action} (h : action.isPlain) (m : Machine) :
    Leads m [⟨m, .act action⟩] ((action.perform run m).map Prod.snd) := by
  rw [Action.perform_of_isPlain h Runner.idle]
  have hsome : (action.perform Runner.idle m).isSome := by
    cases action <;> first | rfl | simp [Action.isPlain] at h
  obtain ⟨x, hx⟩ := Option.isSome_iff_exists.mp hsome
  rw [hx]
  -- whatever runs foreign code does not matter, so the move is the action
  refine leads_single ?_ fun s => .act h
  simp only [Move.apply, hx, Option.map_some, Option.getD_some]

/-- A use of a block utility that calls no foreign code is a single move. -/
theorem Use.leads_of_isPlain {step : Use} (h : step.isPlain) (branch : Option Branch)
    (m : Machine) :
    Leads m [⟨m, .use step⟩] ((step.perform run branch m).map fun r => r.2.2) := by
  have hsame : ((step.perform run branch m).map fun r => r.2.2) =
      some ((Move.use step).apply m) := by
    cases step <;> first | rfl | simp [Use.isPlain] at h
  rw [hsame]
  exact leads_single rfl fun s => .use h

theorem Coroutine.step_eq (attached : Bool) (c : Coroutine) (m : Machine) :
    c.step run attached m =
      (run Step c.program (m.record (.enter c.name c.position m.state.status attached))).map
        fun r => ((r.1.2, c.advance r.1.1), r.2.record (.leave c.name r.1.1)) := by
  simp only [Coroutine.step]
  cases run Step c.program (m.record (.enter c.name c.position m.state.status attached)) <;> rfl

theorem Coroutine.leads_call (h : run.Fits tell) (c : Coroutine) (m : Machine) :
    Leads m (c.moments run tell false m) ((c.step run false m).map Prod.snd) := by
  have hbody := h Step c.program ((Move.enter c false).apply m)
  have hstep : c.step run false m = (run Step c.program ((Move.enter c false).apply m)).map
      fun r => ((r.1.2, c.advance r.1.1), r.2.record (.leave c.name r.1.1)) :=
    c.step_eq false m
  rw [hstep, Coroutine.moments]
  cases hr : run Step c.program ((Move.enter c false).apply m) with
  | none =>
    rw [hr] at hbody
    simp only [List.append_nil]
    exact leads_cons rfl (fun s => .enterCall) hbody
  | some r =>
    obtain ⟨⟨answers, step⟩, n⟩ := r
    rw [hr] at hbody
    exact leads_cons rfl (fun s => .enterCall)
      (leads_append hbody (leads_single rfl fun s => .leaveCall))

/-- What a step of the script comes to. -/
theorem Machine.stepAttached_of_some {c : Coroutine} {m : Machine}
    (hc : m.thread.coroutine = some c) :
    m.wake.stepAttached (Coroutine.step run true) =
      (run Step c.program ((Move.enter c true).apply m)).map fun r =>
        (r.2.record (.leave c.name r.1.1)).conclude r.1.2 (c.advance r.1.1) := by
  have hc' : m.wake.thread.coroutine = some c := hc
  simp only [Machine.stepAttached, hc', Coroutine.step_eq, Option.map_map]
  rfl

theorem Machine.stepAttached_of_none {stepper : Stepper} {m : Machine}
    (hc : m.thread.coroutine = none) :
    m.wake.stepAttached stepper = some (.completed none, m.wake) := by
  have hc' : m.wake.thread.coroutine = none := hc
  simp only [Machine.stepAttached, hc']

theorem Coroutine.leads_script (h : run.Fits tell) {c : Coroutine} {m : Machine}
    (hc : m.thread.coroutine = some c) (hd : m.state.status ≠ .done)
    (hp : m.state.status ≠ .promiseWait) :
    Leads m (c.moments run tell true m)
      ((m.wake.stepAttached (Coroutine.step run true)).map Prod.snd) := by
  have hbody := h Step c.program ((Move.enter c true).apply m)
  rw [Machine.stepAttached_of_some hc, Coroutine.moments]
  cases hr : run Step c.program ((Move.enter c true).apply m) with
  | none =>
    -- the step gets nowhere, so it stays open
    rw [hr] at hbody
    simp only [List.append_nil]
    exact leads_open hc hd hp hbody
  | some r =>
    obtain ⟨⟨answers, step⟩, n⟩ := r
    rw [hr] at hbody
    exact leads_bracket hc hd hp hbody rfl

theorem Machine.leads_resume (h : run.Fits tell) (m : Machine) :
    Leads m (m.resumeMoments run tell)
      ((m.resume (Coroutine.step run true)).map Prod.snd) := by
  unfold Machine.resumeMoments
  split
  · next hs =>
    -- nothing is stepped: the thread stays as it is
    have hres : ((m.resume (Coroutine.step run true)).map Prod.snd) = some m := by
      rcases hs with hd | hp
      · rw [Machine.resume_done hd]; rfl
      · rw [Machine.resume_promiseWait hp]; rfl
    rw [hres]
    refine leads_single (if_pos hs) fun s => .pass ?_
    rcases hs with hd | hp
    · exact .inl hd
    · exact .inr (.inl hp)
  · next hs =>
    obtain ⟨hd, hp⟩ := not_or.mp hs
    rw [Machine.resume_of_ne hd hp]
    split
    · next hc =>
      rw [Machine.stepAttached_of_none hc]
      exact leads_single (if_neg hs) fun s => .pass (.inr (.inr hc))
    · next c hc => exact Coroutine.leads_script h hc hd hp

theorem Machine.leads_procedure (h : run.Fits tell) (code : String) (arguments : List Value)
    (m : Machine) :
    Leads m (m.procedureMoments run tell code arguments)
      ((m.runProcedure run code arguments).map Prod.snd) := by
  unfold Machine.procedureMoments Machine.runProcedure
  cases hp : m.thread.procedure? code with
  | none => exact leads_nil m
  | some procedure =>
    have hcall := Coroutine.leads_call h (procedure.call arguments)
      (m.record (.call code procedure.binding arguments))
    simp only [Option.map_map]
    exact leads_cons rfl (fun s => .call hp) hcall

theorem Machine.leads_sequencer (h : run.Fits tell) (m : Machine) :
    Leads m (m.sequencerMoments tell) ((m.askSequencer run).map Prod.snd) := by
  unfold Machine.sequencerMoments Machine.askSequencer
  cases m.host.sequencer with
  | none => exact leads_nil m
  | some sequencer =>
    simp only [Option.map_map]
    exact h Unit sequencer.retire m

theorem Errand.perform_ask (branch : Option Branch) (first : Use) (next : Answer → Errand)
    (m : Machine) :
    (Errand.ask first next).perform run branch m =
      (first.perform run branch m).bind fun r =>
        ((next r.1).perform run r.2.1 r.2.2).map fun q => (r.1 :: q.1, q.2) := by
  simp only [Errand.perform]
  cases first.perform run branch m with
  | none => rfl
  | some r =>
    obtain ⟨answer, branch', n⟩ := r
    cases hq : (next answer).perform run branch' n <;> simp [hq]

mutual

theorem Action.leads (h : run.Fits tell) (action : Action) (m : Machine) :
    Leads m (action.moments run tell m) ((action.perform run m).map Prod.snd) := by
  cases action with
  | runProcedure code arguments =>
    simp only [Action.moments, Action.perform, Option.map_map]
    exact Machine.leads_procedure h code arguments m
  | resume =>
    simp only [Action.moments, Action.perform, Option.map_map]
    exact Machine.leads_resume h m
  | callLegacy block context errand =>
    have hrest := Errand.leads h none errand (m.bindBlock block context)
    simp only [Action.moments, Action.perform]
    refine leads_cons rfl (fun s => .bind) ?_
    cases hr : errand.perform run none (m.bindBlock block context) <;> rw [hr] at hrest <;>
      exact hrest
  | bindLegacy block context errand =>
    have hrest := Errand.leads h none errand (m.bindBlock block context)
    simp only [Action.moments, Action.perform]
    refine leads_cons rfl (fun s => .bind) ?_
    cases hr : errand.perform run none (m.bindBlock block context) <;> rw [hr] at hrest <;>
      exact hrest
  | _ => exact Action.leads_of_isPlain rfl m

theorem Use.leads (h : run.Fits tell) (branch : Option Branch) (step : Use) (m : Machine) :
    Leads m (step.moments run tell m) ((step.perform run branch m).map fun r => r.2.2) := by
  cases step with
  | onThread action =>
    have hact := Action.leads h action m
    simp only [Use.moments, Use.perform]
    cases hr : action.perform run m <;> rw [hr] at hact <;> exact hact
  | retire =>
    simp only [Use.moments, Use.perform, Option.map_map]
    exact Machine.leads_sequencer h m
  | _ => exact Use.leads_of_isPlain rfl branch m

theorem Errand.leads (h : run.Fits tell) (branch : Option Branch) (errand : Errand)
    (m : Machine) :
    Leads m (errand.moments run tell branch m)
      ((errand.perform run branch m).map fun r => r.2.2) := by
  cases errand with
  | finish => exact leads_nil m
  | ask first next =>
    have hfirst := Use.leads h branch first m
    rw [Errand.perform_ask, Errand.moments]
    cases hr : first.perform run branch m with
    | none =>
      rw [hr] at hfirst
      simpa using hfirst
    | some r =>
      obtain ⟨answer, branch', n⟩ := r
      rw [hr] at hfirst
      have hrest := Errand.leads h branch' (next answer) n
      rw [Option.bind_some, Option.map_map]
      exact leads_append hfirst hrest

end

end Telling

/-! ## Nested calls -/

namespace Program

variable {α : Type}

theorem run_ask {σ : Type} (act : Action → σ → Option (Answer × σ)) (action : Action)
    (next : Answer → Program α) (s : σ) :
    (Program.ask action next).run act s =
      (act action s).bind fun r =>
        ((next r.1).run act r.2).map fun q => ((r.1 :: q.1.1, q.1.2), q.2) := by
  simp only [Program.run]
  cases act action s with
  | none => rfl
  | some r =>
    obtain ⟨answer, t⟩ := r
    cases hq : (next answer).run act t <;> simp [hq]

theorem leads {act : Action → Machine → Option (Answer × Machine)}
    {tell : Action → Machine → List Moment}
    (h : ∀ a m, Leads m (tell a m) ((act a m).map Prod.snd)) (p : Program α) (m : Machine) :
    Leads m (p.moments act tell m) ((p.run act m).map Prod.snd) := by
  induction p generalizing m with
  | finish result => exact leads_nil m
  | ask action next ih =>
    have hfirst := h action m
    rw [run_ask, moments]
    cases hr : act action m with
    | none =>
      rw [hr] at hfirst
      simpa using hfirst
    | some r =>
      obtain ⟨answer, n⟩ := r
      rw [hr] at hfirst
      rw [Option.bind_some, Option.map_map]
      exact leads_append hfirst (ih answer n)

theorem execute_fits (depth : Nat) : Runner.Fits (execute depth) (tell depth) := by
  induction depth with
  | zero => exact fun _ _ _ => leads_none
  | succ depth ih => exact fun _ p m => leads (fun a m => Action.leads ih a m) p m

end Program

namespace Machine

/-- The moments of an action lead on from the machine it starts with. If the action has
an answer, they lead to the machine it ends with, and no step stays open. -/
theorem moments_path (depth : Nat) (action : Action) (m : Machine) (s : List Coroutine) :
    ∃ t, Path Moment.Joins (m, s) (m.moments depth action) t ∧
      ∀ answer n, m.perform depth action = some (answer, n) → t = (n, s) := by
  obtain ⟨t, hpath, ht⟩ := Action.leads (Program.execute_fits depth) action m s
  refine ⟨t, hpath, fun answer n hn => ht n ?_⟩
  have hact : action.perform (Program.execute depth) m = some (answer, n) := hn
  rw [hact, Option.map_some]

/-- The caller who resumes a thread gets the answer of the last moment. -/
theorem resume_answer {depth : Nat} {m n : Machine} {answer : Answer}
    (h : m.perform depth .resume = some (answer, n)) :
    ∃ x step, (m.moments depth .resume).getLast? = some x ∧ x.resumed? = some step ∧
      answer = .step (some step) := by
  have hres : (m.resume (Coroutine.step (Program.execute depth) true)).map
      (fun r => (Answer.step (some r.1), r.2)) = some (answer, n) := h
  obtain ⟨⟨step, n'⟩, hr, heq⟩ := Option.map_eq_some_iff.mp hres
  obtain ⟨rfl, rfl⟩ := Prod.mk.inj heq
  have hmoments : m.moments depth .resume =
      m.resumeMoments (Program.execute depth) (Program.tell depth) := rfl
  rw [hmoments, resumeMoments]
  split
  · next hs =>
    refine ⟨⟨m, .pass⟩, step, rfl, ?_, rfl⟩
    rcases hs with hd | hp
    · rw [resume_done hd] at hr
      simp [Moment.resumed?, hd, (Prod.mk.inj (Option.some.inj hr)).1]
    · rw [resume_promiseWait hp] at hr
      simp [Moment.resumed?, hp, (Prod.mk.inj (Option.some.inj hr)).1]
  · next hs =>
    obtain ⟨hd, hp⟩ := not_or.mp hs
    rw [resume_of_ne hd hp] at hr
    split
    · next hc =>
      rw [stepAttached_of_none hc] at hr
      refine ⟨⟨m, .pass⟩, step, rfl, ?_, rfl⟩
      simp only [Moment.resumed?, if_neg hp, (Prod.mk.inj (Option.some.inj hr)).1]
    · next c hc =>
      rw [stepAttached_of_some hc] at hr
      obtain ⟨⟨⟨answers, inner⟩, k⟩, hrun, hk⟩ := Option.map_eq_some_iff.mp hr
      rw [Coroutine.moments]
      simp only [hrun]
      refine ⟨⟨k, .leave c answers inner true⟩, step, List.getLast?_concat, ?_, rfl⟩
      exact congrArg (fun r => some r.1) hk

end Machine

end BlockThreads
