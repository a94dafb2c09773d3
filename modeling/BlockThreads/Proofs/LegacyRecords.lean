import Mathlib.Data.List.Forall2
import BlockThreads.Proofs.Bindings

/-!
# What a legacy block does to the record of its caller

The caller of a legacy block owns a record, the context that the block keeps between two runs of
itself, and hands it over for the length of a call. Most blocks stay within it: they look at the
context and change it, ask for a branch, and give way. They may also try one of the entry points
that compiled code does not offer, and are refused.

Of such a call nothing is left on the thread but the record, the status, and the block at the
base of the stack that stands for the call. So the call can be split. If the block is left after
some of its uses, its caller takes the record back, and calls it again with that record for the
rest of them, then the thread is what it would have been after one call. This is how a block goes
on after it has given way.

Results:
1. `perform_within`: what a use within the record answers, and what it does to the record.
2. `call_eq`: what a call makes of the thread, by the uses that the block makes.
3. `acts_through_record`: the refused uses can be left out, the call can be split anywhere, and
   nothing else on the thread is touched.
-/

namespace BlockThreads

/-! ## Uses within the record -/

namespace Use

/-- Whether a use stays within the record: it concerns the context, the branch or the status, or
it is refused. -/
def isWithin : Use → Bool
  | .clearContext => false
  | .onThread _ => false
  | .startedBranch => false
  | .retire => false
  | _ => true

/-- The entry point that a use tries in vain. -/
def refusal? : Use → Option EntryPoint
  | .startProcedure _ => some .startProcedure
  | .initParams => some .initParams
  | .pushParam _ _ => some .pushParam
  | .getParam _ => some .getParam
  | _ => none

/-- The branch that a use asks for. -/
def branch? : Use → Option Branch
  | .startBranch number isLoop => some ⟨number, isLoop⟩
  | _ => none

/-- The status in which a use leaves the thread, if it gives way. -/
def status? : Use → Option Status
  | .yield => some .yielded
  | .yieldTick => some .yieldedTick
  | _ => none

/-- What a use answers when the context is in sight. -/
def answerTo (c : Context) : Use → Answer
  | .context => .context (some c)
  | .setValue name _ => .value (c.values.get? name)
  | .unsetValue name => .value (c.values.get? name)
  | .startTimer => .flag c.timer.isNone
  | .startProcedure _ => .refused .startProcedure
  | .initParams => .refused .initParams
  | .pushParam _ _ => .refused .pushParam
  | .getParam _ => .refused .getParam
  | _ => .done

end Use

/-- Whatever it is answered, an errand makes no use but those within the record. -/
inductive Errand.StaysWithin : Errand → Prop
  | finish : StaysWithin .finish
  | ask {first : Use} {next : Answer → Errand} :
      first.isWithin → (∀ answer, (next answer).StaysWithin) → StaysWithin (.ask first next)

/-! ## Several uses -/

/-- The branch that was asked for last. -/
def lastBranch (uses : List Use) : Option Branch := (uses.filterMap Use.branch?).getLast?

/-- The status in which several uses leave a thread. -/
def statusAfter (uses : List Use) (status : Status) : Status :=
  (uses.filterMap Use.status?).getLast?.getD status

/-- The context after the edits of several uses, in order. -/
def recordAfter (now : Nat) (uses : List Use) (c : Context) : Context :=
  uses.foldl (fun c use => use.onContext now c) c

/-- What several uses answer, when the context is in sight. -/
def answersTo (now : Nat) : List Use → Context → List Answer
  | [], _ => []
  | use :: uses, c => use.answerTo c :: answersTo now uses (use.onContext now c)

/-- The uses that are not refused. -/
def accepted (uses : List Use) : List Use := uses.filter fun use => use.refusal?.isNone

namespace Machine

/-- The uses that a legacy block makes of its utility when it is called. -/
def legacyUses (depth : Nat) (block : String) (context : Context) (errand : Errand)
    (m : Machine) : List Use :=
  (m.legacyTurns depth block (some context) errand).map Turn.use

/-- A thread with this status, which carries this context. -/
def withRecord (status : Status) (context : Context) (m : Machine) : Machine :=
  m.editState fun s => { s with status, legacyContext := some context }

/-- What comes of a legacy call in which the block makes these uses of its utility: answers, and
a thread that is what it was but for the record. -/
structure ActsThrough (m : Machine) (depth : Nat) (block : String) (context : Context)
    (errand : Errand) (uses : List Use) (answers : List Answer) (n : Machine) : Prop where
  /-- The caller gets the branch that was asked for last in this very call. -/
  returns : m.perform depth (.callLegacy block (some context) errand) =
    some (.called answers (lastBranch uses), n)
  /-- Each refused use is answered by its own name. -/
  refuses : List.Forall₂ (fun use answer => ∀ entry, use.refusal? = some entry →
    answer = .refused entry) uses answers
  thread : n.thread = { m.thread with
    stack := m.state.stack.dropLast ++ [some block]
    frames := if m.state.stack = [] then [.fresh false] else m.state.frames
    status := statusAfter uses m.state.status
    legacyContext := some (recordAfter m.host.now uses context) }
  host : n.host = if m.state.stack = [] then (m.createFrame false).2.host else m.host
  /-- Without the refused uses the call comes to the same. -/
  without_refused : m.perform depth (.callLegacy block (some context) (.ofUses (accepted uses))) =
    some (.called (((uses.zip answers).filter fun p => p.1.refusal?.isNone).map Prod.snd)
      (lastBranch uses), n)
  /-- The call can be split: the record is taken back and handed over again. -/
  in_two_calls : ∀ earlier later, uses = earlier ++ later → ∃ first second record between taken,
    m.perform depth (.callLegacy block (some context) (.ofUses earlier)) =
        some (.called first (lastBranch earlier), between) ∧
      between.perform depth .takeContext = some (.context (some record), taken) ∧
      taken.perform depth (.callLegacy block (some record) (.ofUses later)) =
        some (.called second (lastBranch later), n) ∧
      first ++ second = answers

end Machine

namespace LegacyRecordsLemmas

open BindingsLemmas Machine

variable {m n : Machine} {use : Use} {uses : List Use} {errand : Errand} {run : Runner}
  {branch : Option Branch} {status : Status} {c : Context} {block : String} {now : Nat}

theorem thread_withRecord (status : Status) (c : Context) (m : Machine) :
    (m.withRecord status c).thread = { m.thread with status, legacyContext := some c } :=
  rfl

/-! ## One use -/

/-- What a use within the record answers, and what it does to the record. -/
theorem perform_within (h : use.isWithin) :
    use.perform run branch (m.withRecord status c) =
      some (use.answerTo c, use.branch?.or branch,
        m.withRecord (use.status?.getD status) (use.onContext m.host.now c)) := by
  cases use with
  | clearContext | onThread | startedBranch | retire => cases h
  | _ => rfl

/-- A refused use does nothing but say so. -/
theorem does_nothing {entry : EntryPoint} (h : use.refusal? = some entry) :
    (∀ c, use.answerTo c = .refused entry) ∧ (∀ now c, use.onContext now c = c) ∧
      use.branch? = none ∧ use.status? = none := by
  cases use with
  | startProcedure | initParams | pushParam | getParam =>
    obtain rfl := Option.some.inj h
    exact ⟨fun _ => rfl, fun _ _ => rfl, rfl, rfl⟩
  | _ => cases h

/-! ## Several uses -/

theorem lastBranch_cons (use : Use) (uses : List Use) :
    lastBranch (use :: uses) = (lastBranch uses).or use.branch? :=
  getLast?_filterMap_cons Use.branch? use uses

theorem statusAfter_cons (use : Use) (uses : List Use) (status : Status) :
    statusAfter (use :: uses) status = statusAfter uses (use.status?.getD status) := by
  rw [statusAfter, getLast?_filterMap_cons, Option.getD_or]
  rfl

theorem statusAfter_append (earlier later : List Use) (status : Status) :
    statusAfter (earlier ++ later) status = statusAfter later (statusAfter earlier status) := by
  induction earlier generalizing status with
  | nil => rfl
  | cons use earlier ih => rw [List.cons_append, statusAfter_cons, statusAfter_cons, ih]

theorem recordAfter_append (earlier later : List Use) (c : Context) :
    recordAfter now (earlier ++ later) c = recordAfter now later (recordAfter now earlier c) :=
  List.foldl_append

theorem answersTo_append (earlier later : List Use) (c : Context) :
    answersTo now (earlier ++ later) c =
      answersTo now earlier c ++ answersTo now later (recordAfter now earlier c) := by
  induction earlier generalizing c with
  | nil => rfl
  | cons use earlier ih => exact congrArg (use.answerTo c :: ·) (ih (use.onContext now c))

theorem refuses_answersTo (uses : List Use) (c : Context) :
    List.Forall₂ (fun use answer => ∀ entry, use.refusal? = some entry → answer = .refused entry)
      uses (answersTo now uses c) := by
  induction uses generalizing c with
  | nil => exact .nil
  | cons use uses ih => exact .cons (fun _ h => (does_nothing h).1 c) (ih _)

/-! ## Without the refused uses -/

theorem accepted_cons (use : Use) (uses : List Use) :
    accepted (use :: uses) =
      if use.refusal?.isNone then use :: accepted uses else accepted uses :=
  List.filter_cons

theorem filterMap_accepted {α : Type} {f : Use → Option α}
    (hf : ∀ use entry, use.refusal? = some entry → f use = none) (uses : List Use) :
    (accepted uses).filterMap f = uses.filterMap f := by
  rw [accepted, List.filterMap_filter]
  refine congrArg (fun f => uses.filterMap f) (funext fun use => ?_)
  cases hrefusal : use.refusal? with
  | none => rfl
  | some entry => exact (hf use entry hrefusal).symm

theorem lastBranch_accepted (uses : List Use) : lastBranch (accepted uses) = lastBranch uses := by
  rw [lastBranch, filterMap_accepted fun _ _ h => (does_nothing h).2.2.1]
  rfl

theorem statusAfter_accepted (uses : List Use) (status : Status) :
    statusAfter (accepted uses) status = statusAfter uses status := by
  rw [statusAfter, filterMap_accepted fun _ _ h => (does_nothing h).2.2.2]
  rfl

/-- Without the refused uses there are the same edits. -/
theorem recordAfter_accepted (uses : List Use) (c : Context) :
    recordAfter now (accepted uses) c = recordAfter now uses c := by
  induction uses generalizing c with
  | nil => rfl
  | cons use uses ih =>
    rw [accepted_cons]
    cases hrefusal : use.refusal? with
    | none => exact ih (use.onContext now c)
    | some entry =>
      have hcons : recordAfter now (use :: uses) c = recordAfter now uses (use.onContext now c) :=
        rfl
      rw [hcons, (does_nothing hrefusal).2.1]
      exact ih c

/-- Without the refused uses there are the same answers to the others. -/
theorem answersTo_accepted (uses : List Use) (c : Context) :
    answersTo now (accepted uses) c =
      ((uses.zip (answersTo now uses c)).filter fun p => p.1.refusal?.isNone).map Prod.snd := by
  induction uses generalizing c with
  | nil => rfl
  | cons use uses ih =>
    rw [accepted_cons, answersTo, List.zip_cons_cons, List.filter_cons]
    cases hrefusal : use.refusal? with
    | none => exact congrArg (use.answerTo c :: ·) (ih (use.onContext now c))
    | some entry =>
      rw [(does_nothing hrefusal).2.1]
      exact ih c

/-! ## Errands within the record -/

theorem staysWithin_ofUses (h : ∀ use ∈ uses, use.isWithin) :
    (Errand.ofUses uses).StaysWithin := by
  induction uses with
  | nil => exact .finish
  | cons use uses ih =>
    exact .ask (h use List.mem_cons_self) fun _ =>
      ih fun other hother => h other (List.mem_cons_of_mem _ hother)

/-- The uses that are made one by one are those that are made. -/
theorem turns_ofUses (h : ∀ use ∈ uses, use.isWithin) :
    ((Errand.ofUses uses).turns run branch (m.withRecord status c)).map Turn.use = uses := by
  induction uses generalizing branch status c with
  | nil => rfl
  | cons use uses ih =>
    rw [Errand.ofUses, Errand.turns, perform_within (h use List.mem_cons_self)]
    exact congrArg (use :: ·) (ih fun other hother => h other (List.mem_cons_of_mem _ hother))

/-- An errand within the record does what its uses do. -/
theorem perform_errand (h : errand.StaysWithin)
    (huses : (errand.turns run branch (m.withRecord status c)).map Turn.use = uses) :
    (∀ use ∈ uses, use.isWithin) ∧
      errand.perform run branch (m.withRecord status c) =
        some (answersTo m.host.now uses c, (lastBranch uses).or branch,
          m.withRecord (statusAfter uses status) (recordAfter m.host.now uses c)) := by
  induction h generalizing branch status c uses with
  | finish =>
    obtain rfl : [] = uses := huses
    exact ⟨fun _ hmem => absurd hmem List.not_mem_nil, rfl⟩
  | @ask first next hfirst _ ih =>
    rw [Errand.turns, perform_within hfirst] at huses
    obtain ⟨rest, rfl⟩ : ∃ rest, first :: rest = uses := ⟨_, huses⟩
    have hrest := (List.cons.inj huses).2
    obtain ⟨hwithin, hperform⟩ := ih (first.answerTo c) hrest
    refine ⟨List.forall_mem_cons.mpr ⟨hfirst, hwithin⟩, ?_⟩
    rw [Errand.perform_ask, perform_within hfirst, lastBranch_cons, Option.or_assoc,
      statusAfter_cons]
    exact congrArg (Option.map _) hperform

/-! ## Calls -/

theorem replaceLast_eq {entries : List (Option String)} (h : entries ≠ []) (id : String) :
    ThreadState.replaceLast id entries = entries.dropLast ++ [some id] := by
  induction entries with
  | nil => exact absurd rfl h
  | cons entry rest ih =>
    cases rest with
    | nil => rfl
    | cons next rest => exact congrArg (entry :: ·) (ih (List.cons_ne_nil _ _))

/-- The first block of a thread gets a frame that is not in warp mode. -/
theorem push_of_empty (hstack : m.state.stack = []) (hframes : m.state.frames = [])
    (block : String) : m.push block =
      { thread := { m.thread with stack := [some block], frames := [(m.createFrame false).1] }
        host := (m.createFrame false).2.host } := by
  have hroom : m.state.frames.length < (some block :: m.state.stack).length := by
    rw [hframes, hstack]
    exact Nat.one_pos
  have hpush : m.push block =
      (m.editState fun s => { s with stack := some block :: s.stack }).pushFrame := if_pos hroom
  have hcalm : (m.editState fun s => { s with stack := some block :: s.stack }).state.isWarpMode =
      false := by
    show m.state.frames.head?.any Frame.warpMode = false
    rw [hframes]
    rfl
  rw [hpush, pushFrame, hcalm]
  show (⟨{ m.thread with
    stack := some block :: m.state.stack
    frames := (m.createFrame false).1 :: m.state.frames }, _⟩ : Machine) = _
  rw [hstack, hframes]
  rfl

theorem replaceBase_of_ne_nil (hstack : m.state.stack ≠ []) (block : String) :
    m.replaceBase block =
      m.editState fun s => { s with stack := m.state.stack.dropLast ++ [some block] } := by
  rw [← replaceLast_eq hstack]
  exact if_neg fun hempty => hstack (List.isEmpty_iff.mp hempty)

theorem replaceBase_of_nil (h : m.state.IsAligned) (hstack : m.state.stack = []) (block : String) :
    m.replaceBase block =
      { thread := { m.thread with stack := [some block], frames := [(m.createFrame false).1] }
        host := (m.createFrame false).2.host } := by
  rw [← push_of_empty hstack (h.stack_eq_nil_iff.mp hstack)]
  exact if_pos (List.isEmpty_iff.mpr hstack)

/-- What binding makes of the thread. -/
theorem thread_replaceBase (h : m.state.IsAligned)
    (hpool : (m.host.pool m.thread.pool).IsPristine) (block : String) :
    (m.replaceBase block).thread = { m.thread with
      stack := m.state.stack.dropLast ++ [some block]
      frames := if m.state.stack = [] then [.fresh false] else m.state.frames } := by
  by_cases hstack : m.state.stack = []
  · have hfresh : (m.createFrame false).1 = .fresh false := (hpool.create false).1
    rw [replaceBase_of_nil h hstack, if_pos hstack, hstack, hfresh]
    rfl
  · rw [replaceBase_of_ne_nil hstack, if_neg hstack]
    rfl

/-- What binding makes of the host. -/
theorem host_replaceBase (h : m.state.IsAligned) (block : String) :
    (m.replaceBase block).host =
      if m.state.stack = [] then (m.createFrame false).2.host else m.host := by
  by_cases hstack : m.state.stack = []
  · rw [replaceBase_of_nil h hstack, if_pos hstack]
  · rw [replaceBase_of_ne_nil hstack, if_neg hstack]
    rfl

/-- Binding takes no time. -/
theorem now_replaceBase (h : m.state.IsAligned) (block : String) :
    (m.replaceBase block).host.now = m.host.now := by
  rw [host_replaceBase h]
  split
  · show (m.host.createFrame m.thread.pool false).2.now = m.host.now
    unfold Host.createFrame
    dsimp only
    split <;> rfl
  · rfl

/-- A thread that is bound to the same block once more gets another record, and nothing else
changes. -/
theorem bindBlock_again {rest : List (Option String)}
    (hstack : m.state.stack = rest ++ [some block]) (status : Status) (taken : Option Context)
    (c : Context) :
    (m.editState fun s => { s with status, legacyContext := taken }).bindBlock block (some c) =
      m.withRecord status c := by
  have hne : m.state.stack ≠ [] := by
    rw [hstack]
    exact List.append_ne_nil_of_right_ne_nil _ (List.cons_ne_nil _ _)
  have hsame : m.state.stack.dropLast ++ [some block] = m.state.stack := by
    rw [hstack, List.dropLast_concat]
  have hbase := replaceBase_of_ne_nil
    (m := m.editState fun s => { s with status, legacyContext := taken }) hne block
  rw [bindBlock, hbase]
  show (m.editState fun s => { s with
    stack := m.state.stack.dropLast ++ [some block], status, legacyContext := some c }) = _
  rw [hsame]
  rfl

/-- A call of a block that stays within its record, by the machine that is bound to it. -/
theorem call_eq (h : errand.StaysWithin)
    (hbound : m.bindBlock block (some c) = n.withRecord status c) (depth : Nat)
    (huses : m.legacyUses depth block c errand = uses) :
    (∀ use ∈ uses, use.isWithin) ∧
      m.perform depth (.callLegacy block (some c) errand) =
        some (.called (answersTo n.host.now uses c) (lastBranch uses),
          n.withRecord (statusAfter uses status) (recordAfter n.host.now uses c)) := by
  rw [legacyUses, legacyTurns, hbound] at huses
  obtain ⟨hwithin, hperform⟩ := perform_errand h huses
  refine ⟨hwithin, ?_⟩
  rw [Machine.perform, Action.perform, hbound, hperform, Option.or_none]
  rfl

theorem legacyUses_ofUses (hbound : m.bindBlock block (some c) = n.withRecord status c)
    (depth : Nat) (h : ∀ use ∈ uses, use.isWithin) :
    m.legacyUses depth block c (.ofUses uses) = uses := by
  rw [legacyUses, legacyTurns, hbound]
  exact turns_ofUses h

end LegacyRecordsLemmas

namespace Machine

open LegacyRecordsLemmas

/-- A legacy block acts through the record of its caller, if it stays within it. Its thread has a
frame for each of its blocks and takes its frames from a pool whose frames are clear, as every
thread in a run does (`isAligned_history`, `clean_history`). The call returns, with the branch
that was asked for last in this very call. On the thread the block at the base is the one that
stands for the call, and an empty stack gets one level for it; the status is that of the last
use that gave way, and the context is the one that was handed over with all edits in order.
Nothing else changes. Without the refused uses the call comes to the same; and a call with some
of the uses, and then a call to the same block with the rest of them and with the record that the
first one has left, come to the same together. -/
theorem acts_through_record {m : Machine} {errand : Errand} (depth : Nat) (block : String)
    (context : Context) (haligned : m.state.IsAligned)
    (hpool : (m.host.pool m.thread.pool).IsPristine) (herrand : errand.StaysWithin) :
    ∃ answers n, m.ActsThrough depth block context errand
      (m.legacyUses depth block context errand) answers n := by
  have hthread := thread_replaceBase haligned hpool block
  have hhost := host_replaceBase haligned block
  have hnow := now_replaceBase haligned block
  have hstack : (m.replaceBase block).state.stack = m.state.stack.dropLast ++ [some block] :=
    congrArg (fun t : Thread => t.stack) hthread
  have hstatus : (m.replaceBase block).state.status = m.state.status := by
    show (m.replaceBase block).thread.status = m.thread.status
    rw [hthread]
  have hbound : m.bindBlock block (some context) =
      (m.replaceBase block).withRecord m.state.status context := by
    rw [← hstatus]
    rfl
  generalize m.replaceBase block = base at hthread hhost hnow hstack hbound
  generalize huses : m.legacyUses depth block context errand = uses
  obtain ⟨hwithin, hcall⟩ := call_eq herrand hbound depth huses
  rw [hnow] at hcall
  refine ⟨_, _, hcall, refuses_answersTo uses context, ?_, hhost, ?_, ?_⟩
  · rw [thread_withRecord, hthread]
  · have haccepted : ∀ use ∈ accepted uses, use.isWithin :=
      fun use hmem => hwithin use (List.mem_of_mem_filter hmem)
    have hagain := (call_eq (staysWithin_ofUses haccepted) hbound depth
      (legacyUses_ofUses hbound depth haccepted)).2
    rw [hnow, answersTo_accepted, lastBranch_accepted, statusAfter_accepted,
      recordAfter_accepted] at hagain
    exact hagain
  · rintro earlier later rfl
    have hearlier := fun use hmem => hwithin use (List.mem_append_left later hmem)
    have hlater := fun use hmem => hwithin use (List.mem_append_right earlier hmem)
    have hfirst := (call_eq (staysWithin_ofUses hearlier) hbound depth
      (legacyUses_ofUses hbound depth hearlier)).2
    -- the record is taken back, and the block is still at the base
    have hrebound := bindBlock_again hstack (statusAfter earlier m.state.status) none
      (recordAfter m.host.now earlier context)
    have hsecond := (call_eq (staysWithin_ofUses hlater) hrebound depth
      (legacyUses_ofUses hrebound depth hlater)).2
    rw [hnow] at hfirst hsecond
    rw [answersTo_append, statusAfter_append, recordAfter_append]
    exact ⟨_, _, _, _, _, hfirst, rfl, hsecond, rfl⟩

end Machine

/-! ## A block that gives way -/

/-- A block that changes its context, tries to introduce parameters, and if that is refused asks
for a branch, gives way and changes its context again. -/
def exGivesWay : Errand :=
  .ask (.editContext fun c => { c with timer := none }) fun _ =>
    .ask .initParams fun answer =>
      match answer with
      | .refused _ => .ofUses [.startBranch 1 false, .yield, .setValue "y" .null]
      | _ => .finish

/-- The call leaves the thread with the yield, the block that stands for it and both changes of
the record; and it can be made in two calls, one until the block gives way and one for the
rest. -/
theorem acts_through_record_given_way :
    exGivesWay.StaysWithin ∧ ∃ answers between taken n first second record,
      exOneLevel.perform 0 (.callLegacy "wait" (some (exContext "x")) exGivesWay) =
        some (.called answers (some ⟨1, false⟩), n) ∧
      n.thread.status = .yielded ∧ n.thread.stack = [some "wait"] ∧
      exOneLevel.perform 0 (.callLegacy "wait" (some (exContext "x")) (.ofUses
        [.editContext fun c => { c with timer := none }, .initParams, .startBranch 1 false,
          .yield])) = some (.called first (some ⟨1, false⟩), between) ∧
      between.perform 0 .takeContext = some (.context (some record), taken) ∧
      taken.perform 0 (.callLegacy "wait" (some record) (.ofUses [.setValue "y" .null])) =
        some (.called second none, n) := by
  have hwithin : exGivesWay.StaysWithin := by
    refine .ask rfl fun _ => .ask rfl fun answer => ?_
    cases answer with
    | refused entry => exact LegacyRecordsLemmas.staysWithin_ofUses (by decide)
    | _ => exact .finish
  have hempty : ({} : Pool).IsPristine := fun _ hframe => absurd hframe List.not_mem_nil
  obtain ⟨answers, n, hacts⟩ := Machine.acts_through_record (m := exOneLevel) 0 "wait"
    (exContext "x") rfl hempty hwithin
  obtain ⟨first, second, record, between, taken, hfirst, htaken, hsecond, _⟩ :=
    hacts.in_two_calls [_, _, _, _] [_] rfl
  refine ⟨hwithin, answers, between, taken, n, first, second, record, hacts.returns, ?_, ?_,
    hfirst, htaken, hsecond⟩
  · rw [hacts.thread]
    rfl
  · rw [hacts.thread]
    rfl

end BlockThreads
