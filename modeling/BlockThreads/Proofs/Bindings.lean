import BlockThreads.Proofs.Levels

/-!
# What a legacy block finds on its thread

To call a legacy block is to bind the thread to it: the base of the stack becomes the block
that stands for the call, and the thread carries the context that the caller hands over.
Only the branch that the block asks for is kept apart from the thread, with the utility. So
when a block, while it is bound, has another one called on its thread, the inner call takes
its place: nothing brings the outer block and its context back when the inner call is over.

This module says exactly what a block finds. The uses that it makes of its utility are its
`turns`. In some of them it works on the thread itself, in the others it lets foreign code
do so. What it finds is what was bound last, with all edits since, whoever made them; and
this is its own binding exactly as long as the foreign code leaves what it found.

Results:
1. `Moment.Happens.context`, `Moment.Happens.base`: what one move does to the context in sight
   and to the base of the stack.
2. `turns_path`: the turns of a block lead from the machine it is bound on to the one it ends
   with.
3. `last_binding_counts`: the branch is the block's own; its context and base are its own
   exactly as long as each foreign turn leaves them; and after an inner call they are those
   of the inner call.
-/

namespace BlockThreads

/-- The block at the base of the stack. -/
def Machine.base (m : Machine) : Option String := m.state.stack.getLast?.join

/-- What a use of a utility makes of the context in sight. -/
def Use.onContext (now : Nat) : Use → Context → Context
  | .setValue name value, c => { c with values := c.values.insert name value }
  | .unsetValue name, c => { c with values := c.values.erase name }
  | .startTimer, c => { c with timer := some (c.timer.getD ⟨now⟩) }
  | .editContext edit, c => edit c
  | .clearContext, _ => {}
  | _, c => c

namespace Move

/-- What a move makes of the context in sight. -/
def onContext (now : Nat) : Move → Context → Context
  | .bind _ context, c => context.getD c
  | .use step, c => step.onContext now c
  | .act .takeContext, _ => {}
  | _, c => c

/-- What a move makes of the base of the stack, unless it works on the stack. -/
def onBase : Move → Option String → Option String
  | .bind block _, _ => some block
  | _, base => base

/-- Whether a move goes on in the script of the thread, deeper into it or out of it. -/
def worksOnStack : Move → Bool
  | .act (.push _) => true
  | .act (.pushAll _) => true
  | .act (.enter _) => true
  | .act (.reuse _) => true
  | .act .pop => true
  | .act .next => true
  | .act .stop => true
  | .act .retire => true
  | .act .kill => true
  | _ => false

end Move

namespace Moment

/-- What several moments make of the context in sight. -/
def contextAfter (moments : List Moment) (c : Context) : Context :=
  moments.foldl (fun c x => x.move.onContext x.machine.host.now c) c

/-- What several moments make of the base of the stack. -/
def baseAfter (moments : List Moment) (base : Option String) : Option String :=
  moments.foldl (fun base x => x.move.onBase base) base

end Moment

namespace BindingsLemmas

variable {m n : Machine}

/-! ## Contexts -/

theorem context_of_state (h : n.state.legacyContext = m.state.legacyContext) :
    n.context = m.context := by
  rw [Machine.context, h, Machine.context]

theorem legacyContext_of_restacks (h : m.Restacks n) :
    n.state.legacyContext = m.state.legacyContext := by
  obtain ⟨_, _, _, _, rfl⟩ := h
  rfl

theorem legacyContext_compile (compiler : String) (m : Machine) :
    (m.compile compiler).state.legacyContext = m.state.legacyContext := by
  obtain ⟨_, _, _, _, _, _, _, h⟩ := Machine.compile_thread compiler m
  exact congrArg (fun t => t.legacyContext) h

theorem legacyContext_conclude (step : Step) (c : Coroutine) (m : Machine) :
    (m.conclude step c).2.state.legacyContext = m.state.legacyContext := by
  obtain ⟨_, _, _, h⟩ := Machine.conclude_machine step c m
  rw [h]
  rfl

/-- No action but one touches the context. -/
theorem legacyContext_act {action : Action} (hplain : action.isPlain)
    (htake : action ≠ .takeContext) (m : Machine) :
    ((Move.act action).apply m).state.legacyContext = m.state.legacyContext := by
  by_cases hstack : action.movesStack
  · exact legacyContext_of_restacks (Action.restacks hstack m)
  · cases action with
    | stop =>
      show m.stopScript.state.legacyContext = _
      rcases m.stopScript_cases with h | ⟨k, h, heq⟩
      · exact legacyContext_of_restacks h
      · have hsame := legacyContext_of_restacks h
        rw [heq]
        exact hsame
    | settle value =>
      show (m.state.settle value).legacyContext = _
      unfold ThreadState.settle
      split <;> rfl
    | compile compiler => exact legacyContext_compile compiler m
    | retire | kill | report | startWarpTimer | clearWarpTimer | sleep | setStatus | setKilled
    | setStackClick | setGlow => rfl
    | takeContext => exact absurd rfl htake
    | runProcedure | resume | callLegacy | bindLegacy => cases hplain
    | _ => exact absurd rfl hstack

/-! ## Bases -/

theorem base_of_stack (h : n.state.stack = m.state.stack) : n.base = m.base := by
  rw [Machine.base, h, Machine.base]

theorem getLast?_replaceLast (id : String) (entry : Option String)
    (rest : List (Option String)) :
    (ThreadState.replaceLast id (entry :: rest)).getLast? = some (some id) := by
  induction rest generalizing entry with
  | nil => rfl
  | cons next rest ih =>
    have hne : ThreadState.replaceLast id (next :: rest) ≠ [] := by
      intro hnil
      have hlast := ih next
      rw [hnil] at hlast
      cases hlast
    show (entry :: ThreadState.replaceLast id (next :: rest)).getLast? = _
    rw [List.getLast?_cons_of_ne_nil hne, ih next]

/-- The base of the stack becomes the block that is bound. -/
theorem base_bindBlock (block : String) (context : Option Context) (m : Machine) :
    (m.bindBlock block context).base = some block := by
  have hstack : (m.bindBlock block context).state.stack = (m.replaceBase block).state.stack := rfl
  rw [Machine.base, hstack]
  cases hm : m.state.stack with
  | nil =>
    have hbase : m.replaceBase block = m.push block := by rw [Machine.replaceBase, hm]; rfl
    rw [hbase, Machine.stack_push, hm]
    rfl
  | cons entry rest =>
    have hne : ¬ m.state.stack.isEmpty := by
      rw [hm]
      exact Bool.false_ne_true
    have hbase : (m.replaceBase block).state.stack =
        ThreadState.replaceLast block m.state.stack := by
      rw [Machine.replaceBase, if_neg hne]
      rfl
    rw [hbase, hm, getLast?_replaceLast]
    rfl

theorem stack_attempt {change : ThreadState → Except Misuse ThreadState}
    (h : ∀ s, change m.state = .ok s → s.stack = m.state.stack) :
    (m.attempt change).2.state.stack = m.state.stack := by
  unfold Machine.attempt
  split
  · next s hs => exact h s hs
  · rfl

theorem stack_act {action : Action} (hplain : action.isPlain)
    (hstack : (Move.act action).worksOnStack = false) (m : Machine) :
    ((Move.act action).apply m).state.stack = m.state.stack := by
  cases action with
  | initParams =>
    refine stack_attempt fun s hs => ?_
    unfold ThreadState.initParams at hs
    split at hs
    · cases hs
    · cases hs
      rfl
  | pushParam name value =>
    refine stack_attempt fun s hs => ?_
    unfold ThreadState.pushParam at hs
    split at hs
    · cases hs
    · split at hs
      · cases hs
      · cases hs
        rfl
  | settle value =>
    show (m.state.settle value).stack = _
    unfold ThreadState.settle
    split <;> rfl
  | compile compiler => exact (LevelsLemmas.levels_compile compiler m).1
  | push | pushAll | enter | reuse | pop | next | stop | retire | kill => cases hstack
  | runProcedure | resume | callLegacy | bindLegacy => cases hplain
  | _ => rfl

end BindingsLemmas

open BindingsLemmas

/-! ## What a move does -/

/-- What one move does to the context in sight. -/
theorem Moment.Happens.context {x : Moment} {s t : List Coroutine} (hx : x.Happens s t) :
    x.after.context = x.move.onContext x.machine.host.now x.machine.context := by
  cases hx with
  | @act m _ action hplain =>
    by_cases htake : action = .takeContext
    · subst htake
      rfl
    · have hsame := context_of_state (legacyContext_act hplain htake m)
      cases action <;> first | exact hsame | exact absurd rfl htake
  | @use m _ step hplain =>
    cases step with
    | onThread | retire => cases hplain
    | _ => rfl
  | bind => rfl
  | call | enterScript | enterCall | leaveCall => rfl
  | @pass m _ _ =>
    simp only [Moment.after, Move.apply]
    split <;> rfl
  | @leaveScript m _ c answers step =>
    exact context_of_state (legacyContext_conclude step (c.advance answers)
      (m.record (.leave c.name answers)))

/-- What one move does to the base of the stack, unless it works on the stack. -/
theorem Moment.Happens.base {x : Moment} {s t : List Coroutine} (hx : x.Happens s t)
    (hstack : x.move.worksOnStack = false) : x.after.base = x.move.onBase x.machine.base := by
  cases hx with
  | @act m _ action hplain => exact base_of_stack (stack_act hplain hstack m)
  | @use m _ step hplain =>
    cases step with
    | onThread | retire => cases hplain
    | _ => rfl
  | @bind m _ block context => exact base_bindBlock block context m
  | call | enterScript | enterCall | leaveCall => rfl
  | @pass m _ _ =>
    simp only [Moment.after, Move.apply]
    split <;> rfl
  | @leaveScript m _ c answers step =>
    exact base_of_stack (LevelsLemmas.levels_conclude step (c.advance answers)
      (m.record (.leave c.name answers))).1

namespace BindingsLemmas

variable {moments : List Moment} {a b : Machine × List Coroutine}

/-- The context in sight is the one that was bound last, with all edits since. -/
theorem context_path (hpath : Path Moment.Joins a moments b) :
    b.1.context = Moment.contextAfter moments a.1.context := by
  induction hpath with
  | nil => rfl
  | @cons s t _ x xs hx _ ih =>
    obtain ⟨hs, ht, hhappens⟩ := hx
    rw [ih, ← ht, hhappens.context, ← hs]
    rfl

/-- The base of the stack is the block that was bound last, unless somebody works on the
stack. -/
theorem base_path (hpath : Path Moment.Joins a moments b)
    (hstack : ∀ x ∈ moments, x.move.worksOnStack = false) :
    b.1.base = Moment.baseAfter moments a.1.base := by
  induction hpath with
  | nil => rfl
  | @cons s t _ x xs hx _ ih =>
    obtain ⟨hs, ht, hhappens⟩ := hx
    rw [ih fun y hy => hstack y (List.mem_cons_of_mem _ hy), ← ht,
      hhappens.base (hstack x List.mem_cons_self), hs]
    rfl

end BindingsLemmas

/-! ## Turns -/

/-- A use that a legacy block makes of its utility, with the thread before and after. -/
structure Turn where
  use : Use
  before : Machine
  after : Machine

/-- The uses that a legacy block makes of its utility, as far as it gets. -/
def Errand.turns (run : Runner) (branch : Option Branch) : Errand → Machine → List Turn
  | .finish, _ => []
  | .ask first next, m =>
    match first.perform run branch m with
    | none => []
    | some (answer, branch, n) => ⟨first, m, n⟩ :: (next answer).turns run branch n

namespace Turn

/-- The move that a block makes itself; none, if it lets foreign code work on the thread. -/
def ownMove? (t : Turn) : Option Move :=
  match t.use with
  | .onThread action => if action.isPlain then some (.act action) else none
  | .retire => none
  | step => some (.use step)

/-- What a turn makes of the context, if only what the block does itself counts. -/
def onContext (c : Context) (t : Turn) : Context :=
  t.ownMove?.elim c fun move => move.onContext t.before.host.now c

/-- The branch that a turn asks for. -/
def branch? (t : Turn) : Option Branch :=
  match t.use with
  | .startBranch number isLoop => some ⟨number, isLoop⟩
  | _ => none

/-- A turn joins two machines, each with the branch that was asked for last. -/
def Joins (run : Runner) (s : Machine × Option Branch) (t : Turn) (u : Machine × Option Branch) :
    Prop :=
  t.before = s.1 ∧ t.after = u.1 ∧
    ∃ answer, t.use.perform run s.2 s.1 = some (answer, u.2, u.1)

end Turn

namespace BindingsLemmas

open MomentsLemmas

variable {run : Runner} {tell : Teller} {m : Machine} {branch : Option Branch} {t : Turn}
  {turns : List Turn} {a b : Machine × Option Branch}

/-- The turns of a block lead from the machine it is bound on to the one it ends with. -/
theorem turns_path (run : Runner) (branch : Option Branch) (errand : Errand) (m : Machine) :
    ∃ u, Path (Turn.Joins run) (m, branch) (errand.turns run branch m) u ∧
      ∀ answers branch' n, errand.perform run branch m = some (answers, branch', n) →
        u = (n, branch') := by
  match errand with
  | .finish =>
    refine ⟨(m, branch), .nil, fun answers branch' n h => ?_⟩
    obtain ⟨_, rfl, rfl⟩ := Option.some.inj h
    rfl
  | .ask first next =>
    rw [Errand.turns, Errand.perform_ask]
    cases hfirst : first.perform run branch m with
    | none => exact ⟨(m, branch), .nil, fun _ _ _ h => nomatch h⟩
    | some r =>
      obtain ⟨answer, branch', n⟩ := r
      obtain ⟨u, hpath, hu⟩ := turns_path run branch' (next answer) n
      refine ⟨u, .cons (t := (n, branch')) ⟨rfl, rfl, answer, hfirst⟩ hpath, ?_⟩
      intro answers branch'' k h
      obtain ⟨⟨answers', rest⟩, hrest, heq⟩ := Option.map_eq_some_iff.mp h
      obtain ⟨_, rfl⟩ := Prod.mk.inj heq
      exact hu answers' branch'' k hrest

/-! ## Branches -/

/-- Only the block itself asks for a branch. -/
theorem branch_use {step : Use} {answer : Answer} {branch' : Option Branch} {n : Machine}
    (h : step.perform run branch m = some (answer, branch', n)) :
    branch' = (Turn.branch? ⟨step, m, n⟩).or branch := by
  cases step with
  | onThread action =>
    simp only [Use.perform] at h
    cases haction : action.perform run m with
    | none => simp [haction] at h
    | some r =>
      rw [haction] at h
      obtain ⟨_, rfl, _⟩ := Option.some.inj h
      rfl
  | retire =>
    obtain ⟨_, _, heq⟩ := Option.map_eq_some_iff.mp h
    rw [← (Prod.mk.inj (Prod.mk.inj heq).2).1]
    rfl
  | _ =>
    obtain ⟨_, rfl, _⟩ := Option.some.inj h
    rfl

/-- Of several answers the last one counts, and the first one if there is no other. -/
theorem getLast?_filterMap_cons {α β : Type} (f : α → Option β) (first : α) (rest : List α) :
    ((first :: rest).filterMap f).getLast? = (rest.filterMap f).getLast?.or (f first) := by
  cases hfirst : f first with
  | none => rw [List.filterMap_cons_none hfirst, Option.or_none]
  | some answer =>
    rw [List.filterMap_cons_some hfirst, List.getLast?_cons]
    cases (rest.filterMap f).getLast? <;> rfl

theorem branch_path (hpath : Path (Turn.Joins run) a turns b) :
    b.2 = (turns.filterMap Turn.branch?).getLast?.or a.2 := by
  induction hpath with
  | nil => rfl
  | @cons s u _ t turns ht _ ih =>
    obtain ⟨hs, hu, answer, hperform⟩ := ht
    rw [← hs, ← hu] at hperform
    have hbranch : u.2 = t.branch?.or s.2 := branch_use hperform
    rw [ih, hbranch, getLast?_filterMap_cons, Option.or_assoc]

/-! ## Own turns and foreign turns -/

theorem moments_turn (hfits : run.Fits tell) {s u : Machine × Option Branch}
    (ht : t.Joins run s u) :
    Path Moment.Joins (t.before, []) (t.use.moments run tell t.before) (t.after, []) := by
  obtain ⟨hs, hu, answer, hperform⟩ := ht
  obtain ⟨v, hpath, hv⟩ := Use.leads hfits s.2 t.use s.1 []
  rw [hv u.1 (by rw [hperform]; rfl)] at hpath
  rw [hs, hu]
  exact hpath

/-- A turn in which the block works on the thread itself is a single move. -/
theorem moments_of_own {move : Move} (hown : t.ownMove? = some move) :
    t.use.moments run tell t.before = [⟨t.before, move⟩] := by
  obtain ⟨step, m, n⟩ := t
  cases step with
  | onThread action =>
    simp only [Turn.ownMove?] at hown
    split at hown
    · next hplain =>
      obtain rfl := Option.some.inj hown
      cases action <;> first | rfl | cases hplain
    · cases hown
  | retire => cases hown
  | _ =>
    obtain rfl := Option.some.inj hown
    rfl

/-- A turn in which the block works on the thread itself does to the context what it does. -/
theorem context_of_own (hfits : run.Fits tell) {s u : Machine × Option Branch}
    (ht : t.Joins run s u) {move : Move} (hown : t.ownMove? = some move) :
    t.after.context = t.onContext t.before.context := by
  have hpath := moments_turn hfits ht
  rw [moments_of_own hown] at hpath
  rw [context_path hpath, Turn.onContext, hown]
  rfl

theorem onContext_of_foreign (hforeign : t.ownMove? = none) (c : Context) :
    t.onContext c = c := by
  rw [Turn.onContext, hforeign]
  rfl

theorem onBase_of_own {move : Move} (hown : t.ownMove? = some move) (base : Option String) :
    move.onBase base = base := by
  obtain ⟨step, m, n⟩ := t
  cases move with
  | bind block context =>
    cases step with
    | onThread action =>
      simp only [Turn.ownMove?] at hown
      split at hown <;> cases hown
    | _ => cases hown
  | _ => rfl

theorem base_of_own (hfits : run.Fits tell) {s u : Machine × Option Branch}
    (ht : t.Joins run s u) {move : Move} (hown : t.ownMove? = some move)
    (hstack : move.worksOnStack = false) : t.after.base = t.before.base := by
  have hpath := moments_turn hfits ht
  rw [moments_of_own hown] at hpath
  have hbase := base_path hpath fun x hx => by rw [List.mem_singleton.mp hx]; exact hstack
  rw [hbase]
  exact onBase_of_own hown t.before.base

/-- A block finds its own context at all times exactly as long as each foreign turn leaves
the context that it finds. -/
theorem context_iff (hfits : run.Fits tell) (hpath : Path (Turn.Joins run) a turns b) :
    (∀ earlier t later, turns = earlier ++ t :: later →
        t.after.context = (earlier ++ [t]).foldl Turn.onContext a.1.context) ↔
      ∀ t ∈ turns, t.ownMove? = none → t.after.context = t.before.context := by
  induction hpath with
  | nil =>
    refine ⟨fun _ t ht => absurd ht List.not_mem_nil, fun _ earlier t later heq => ?_⟩
    cases earlier <;> cases heq
  | @cons s u _ t turns ht _ ih =>
    have hstart : t.before.context = s.1.context := congrArg Machine.context ht.1
    have hend : t.after.context = u.1.context := congrArg Machine.context ht.2.1
    rw [List.forall_mem_cons, ← ih]
    constructor
    · intro hall
      have hfirst : t.after.context = t.onContext s.1.context := hall [] t turns rfl
      refine ⟨fun hforeign => ?_, fun earlier t' later heq => ?_⟩
      · rw [hfirst, onContext_of_foreign hforeign, hstart]
      · -- the rest starts with what the first turn leaves
        have hlater := hall (t :: earlier) t' later (by rw [heq]; rfl)
        rw [hlater, ← hend, hfirst]
        rfl
    · rintro ⟨hkept, hrest⟩ earlier t' later heq
      have hfirst : t.after.context = t.onContext s.1.context := by
        cases hown : t.ownMove? with
        | none => rw [hkept hown, hstart, onContext_of_foreign hown]
        | some move => rw [context_of_own hfits ht hown, hstart]
      cases earlier with
      | nil =>
        obtain ⟨rfl, rfl⟩ := List.cons.inj heq
        exact hfirst
      | cons first earlier =>
        obtain ⟨rfl, htail⟩ := List.cons.inj heq
        rw [hrest earlier t' later htail, ← hend, hfirst]
        rfl

/-- A block finds its own block at the base exactly as long as each foreign turn leaves the
base that it finds. -/
theorem base_iff (hfits : run.Fits tell) (hpath : Path (Turn.Joins run) a turns b)
    (hstack : ∀ t ∈ turns, ∀ move, t.ownMove? = some move → move.worksOnStack = false) :
    (∀ t ∈ turns, t.after.base = a.1.base) ↔
      ∀ t ∈ turns, t.ownMove? = none → t.after.base = t.before.base := by
  induction hpath with
  | nil =>
    constructor
    · intro _ t ht
      exact absurd ht List.not_mem_nil
    · intro _ t ht
      exact absurd ht List.not_mem_nil
  | @cons s u _ t turns ht _ ih =>
    have hstart : t.before.base = s.1.base := congrArg Machine.base ht.1
    have hend : t.after.base = u.1.base := congrArg Machine.base ht.2.1
    rw [List.forall_mem_cons, List.forall_mem_cons,
      ← ih fun t' ht' => hstack t' (List.mem_cons_of_mem _ ht')]
    have hfirst : t.after.base = s.1.base ↔ (t.ownMove? = none → t.after.base = t.before.base) := by
      rw [hstart]
      refine ⟨fun h _ => h, fun h => ?_⟩
      cases hown : t.ownMove? with
      | none => exact h hown
      | some move =>
        have hcalm := hstack t List.mem_cons_self move hown
        rw [base_of_own hfits ht hown hcalm, hstart]
    constructor
    · rintro ⟨hhead, htail⟩
      refine ⟨hfirst.mp hhead, fun t' ht' => ?_⟩
      rw [htail t' ht', ← hend, hhead]
    · rintro ⟨hhead, htail⟩
      have hkept := hfirst.mpr hhead
      refine ⟨hkept, fun t' ht' => ?_⟩
      rw [htail t' ht', ← hend, hkept]

end BindingsLemmas

namespace Machine

/-- The turns of a legacy block that is called. -/
def legacyTurns (depth : Nat) (block : String) (context : Option Context) (errand : Errand)
    (m : Machine) : List Turn :=
  errand.turns (Program.execute depth) none (m.bindBlock block context)

/-- What happens to the thread while a legacy block is bound. -/
def legacyMoments (depth : Nat) (block : String) (context : Option Context) (errand : Errand)
    (m : Machine) : List Moment :=
  errand.moments (Program.execute depth) (Program.tell depth) none (m.bindBlock block context)

/-- A legacy block is called on a thread. It starts with its own block at the base and the
context that its caller supplies, and the branch that the caller gets is the last one that
the block itself asked for, whatever else happened. The context in sight is its own, with its
own edits, after all of its turns, exactly if each foreign turn leaves the context that it
finds; and if the block itself does not work on the stack, its own block is at the base after
all of its turns exactly if each foreign turn leaves the base. But a turn in which it calls
another block on its thread leaves what that one was bound to: its context with all edits
since, and at the base its block, unless somebody has worked on the stack or bound the
thread once more. -/
theorem last_binding_counts (depth : Nat) (m : Machine) (block : String)
    (context : Option Context) (errand : Errand) :
    ((m.bindBlock block context).base = some block ∧
      (m.bindBlock block context).context = context.getD m.context) ∧
    (∀ answers branch n,
      m.perform depth (.callLegacy block context errand) = some (.called answers branch, n) →
        branch = ((m.legacyTurns depth block context errand).filterMap Turn.branch?).getLast?) ∧
    ((∀ earlier t later, m.legacyTurns depth block context errand = earlier ++ t :: later →
        t.after.context = (earlier ++ [t]).foldl Turn.onContext (context.getD m.context)) ↔
      ∀ t ∈ m.legacyTurns depth block context errand, t.ownMove? = none →
        t.after.context = t.before.context) ∧
    ((∀ t ∈ m.legacyTurns depth block context errand, ∀ move, t.ownMove? = some move →
        move.worksOnStack = false) →
      ((∀ t ∈ m.legacyTurns depth block context errand, t.after.base = some block) ↔
        ∀ t ∈ m.legacyTurns depth block context errand, t.ownMove? = none →
          t.after.base = t.before.base)) ∧
    ∀ t ∈ m.legacyTurns depth block context errand, ∀ inner supplied nested,
      t.use = .onThread (.callLegacy inner supplied nested) →
        t.after.context = Moment.contextAfter
            (t.before.legacyMoments depth inner supplied nested)
            (supplied.getD t.before.context) ∧
          ((∀ x ∈ t.before.legacyMoments depth inner supplied nested,
              x.move.worksOnStack = false) →
            t.after.base = Moment.baseAfter (t.before.legacyMoments depth inner supplied nested)
              (some inner)) := by
  have hfits := Program.execute_fits depth
  have hbase := base_bindBlock block context m
  obtain ⟨u, hpath, hend⟩ :=
    turns_path (Program.execute depth) none errand (m.bindBlock block context)
  refine ⟨⟨hbase, rfl⟩, fun answers branch n hcall => ?_, context_iff hfits hpath,
    fun hstack => ?_, fun t ht inner supplied nested huse => ?_⟩
  · have hbranch := branch_path hpath
    simp only [perform, Action.perform, Option.bind_eq_bind, Option.bind_eq_some_iff,
      Option.pure_def, Option.some.injEq, Prod.mk.injEq, Answer.called.injEq] at hcall
    obtain ⟨⟨answers', branch', n'⟩, hperform, ⟨rfl, rfl⟩, rfl⟩ := hcall
    rw [hend answers' branch' n' hperform, Option.or_none] at hbranch
    exact hbranch
  · have hiff := base_iff hfits hpath hstack
    rw [hbase] at hiff
    exact hiff
  · obtain ⟨s, v, hjoin⟩ := hpath.step_of_mem ht
    have hmoments := moments_turn hfits hjoin
    have hnested : t.use.moments (Program.execute depth) (Program.tell depth) t.before =
        ⟨t.before, .bind inner supplied⟩ ::
          t.before.legacyMoments depth inner supplied nested := by
      rw [huse]
      rfl
    rw [hnested] at hmoments
    refine ⟨context_path hmoments, fun hstack => ?_⟩
    refine base_path hmoments fun x hx => ?_
    rcases List.mem_cons.mp hx with rfl | hx
    · rfl
    · exact hstack x hx

end Machine

/-! ## A call inside a call -/

/-- A thread with one level on its stack. -/
def exOneLevel : Machine where
  thread :=
    { top := "hat"
      target := { id := "sprite", name := "Sprite", container := none }
      container := none
      pool := "pool"
      stack := [some "hat"]
      frames := [{}] }
  host := {}

/-- A context with one value. -/
def exContext (name : String) : Context := { values := .ofList [(name, .bool true)] }

/-- A block asks for a branch, calls another block and looks at its context. -/
def exCallsInner (inner : String) (context : Option Context) : Errand :=
  .ofUses [.startBranch 1 false,
    .onThread (.callLegacy inner context (.ofUses [.startBranch 2 true])), .context]

/-- What holds of the three turns of such a block holds of all of them. -/
theorem forall_turns_exCallsInner {inner : String} {context : Option Context}
    {P : Turn → Prop} {first second third : Turn}
    (hturns : exOneLevel.legacyTurns 0 "outer" (some (exContext "x"))
      (exCallsInner inner context) = [first, second, third])
    (h : P first ∧ P second ∧ P third) :
    ∀ t ∈ exOneLevel.legacyTurns 0 "outer" (some (exContext "x")) (exCallsInner inner context),
      P t := by
  rw [hturns]
  intro t ht
  rcases List.mem_cons.mp ht with rfl | ht
  · exact h.1
  · rcases List.mem_cons.mp ht with rfl | ht
    · exact h.2.1
    · rw [List.mem_singleton.mp ht]
      exact h.2.2

/-- A block that calls its like on the context in sight finds its own binding afterwards. -/
theorem last_binding_counts_alike :
    (∀ earlier t later, exOneLevel.legacyTurns 0 "outer" (some (exContext "x"))
        (exCallsInner "outer" none) = earlier ++ t :: later →
      t.after.context = (earlier ++ [t]).foldl Turn.onContext (exContext "x")) ∧
    ∀ t ∈ exOneLevel.legacyTurns 0 "outer" (some (exContext "x")) (exCallsInner "outer" none),
      t.after.base = some "outer" := by
  obtain ⟨_, _, hcontext, hbase, _⟩ := exOneLevel.last_binding_counts 0 "outer"
    (some (exContext "x")) (exCallsInner "outer" none)
  refine ⟨hcontext.mpr ?_, (hbase ?_).mpr ?_⟩
  · exact forall_turns_exCallsInner rfl ⟨fun _ => rfl, fun _ => rfl, fun _ => rfl⟩
  · refine forall_turns_exCallsInner rfl ⟨fun move h => ?_, fun move h => ?_, fun move h => ?_⟩
    · rw [← Option.some.inj h]
      rfl
    · cases h
    · rw [← Option.some.inj h]
      rfl
  · exact forall_turns_exCallsInner rfl ⟨fun _ => rfl, fun _ => rfl, fun _ => rfl⟩

/-- A block that calls another one with a context of its own finds that block and that
context afterwards, although the branch that its caller gets is its own. -/
theorem inner_call_rebinds :
    ∃ before t after answers n,
      exOneLevel.legacyTurns 0 "outer" (some (exContext "x"))
        (exCallsInner "inner" (some (exContext "y"))) = [before, t, after] ∧
      exOneLevel.perform 0 (.callLegacy "outer" (some (exContext "x"))
        (exCallsInner "inner" (some (exContext "y")))) =
          some (.called answers (some ⟨1, false⟩), n) ∧
      t.before.base = some "outer" ∧ t.after.base = some "inner" ∧
      (t.before.context.values.get? "x").isSome ∧ t.after.context.values.get? "x" = none :=
  ⟨_, _, _, _, _, rfl, rfl, rfl, rfl, rfl, rfl⟩

end BlockThreads
