import BlockThreads.Execution

/-!
# Depth does not matter

Foreign code may be nested to any depth, and the library follows it down to a depth
that it is given. This module shows that the depth is only a limit: an answer that is
reached within some depth is reached within every greater one, and it is the same.

Results:
1. `Machine.perform_of_le`: an action that has an answer keeps it when the depth grows.
2. `Machine.perform_unique`: no two depths give different answers.
-/

namespace BlockThreads

/-! ## More foreign code -/

/-- One way to run foreign code gets at least as far as another. -/
def Runner.LE (r s : Runner) : Prop :=
  ∀ (α : Type) (p : Program α) (m : Machine) x, r α p m = some x → s α p m = some x

theorem Program.run_mono {α σ : Type} {act act' : Action → σ → Option (Answer × σ)}
    (h : ∀ a s x, act a s = some x → act' a s = some x) (p : Program α) {s : σ}
    {x : (List Answer × α) × σ} (hx : p.run act s = some x) : p.run act' s = some x := by
  induction p generalizing s x with
  | finish result => exact hx
  | ask action next ih =>
    simp only [Program.run, Option.bind_eq_bind, Option.bind_eq_some_iff] at hx ⊢
    obtain ⟨first, hfirst, rest, hrest, hx⟩ := hx
    exact ⟨first, h _ _ _ hfirst, rest, ih _ hrest, hx⟩

variable {r s : Runner}

theorem Coroutine.step_mono (h : r.LE s) (attached : Bool) (c : Coroutine) {m : Machine}
    {x : (Step × Coroutine) × Machine} (hx : c.step r attached m = some x) :
    c.step s attached m = some x := by
  simp only [Coroutine.step, Option.bind_eq_bind, Option.bind_eq_some_iff] at hx ⊢
  obtain ⟨ran, hran, hx⟩ := hx
  exact ⟨ran, h _ _ _ _ hran, hx⟩

theorem Machine.runProcedure_mono (h : r.LE s) {code : String} {arguments : List Value}
    {m : Machine} {x : Option Step × Machine} (hx : m.runProcedure r code arguments = some x) :
    m.runProcedure s code arguments = some x := by
  unfold Machine.runProcedure at hx ⊢
  split
  · rename_i hp
    rwa [hp] at hx
  · rename_i procedure hp
    simp only [hp, Option.map_eq_some_iff] at hx ⊢
    obtain ⟨stepped, hs, hx⟩ := hx
    exact ⟨stepped, Coroutine.step_mono h _ _ hs, hx⟩

theorem Machine.stepAttached_mono {stepper stepper' : Stepper}
    (h : ∀ c m x, stepper c m = some x → stepper' c m = some x) {m : Machine}
    {x : Step × Machine} (hx : m.stepAttached stepper = some x) :
    m.stepAttached stepper' = some x := by
  unfold Machine.stepAttached at hx ⊢
  split
  · rename_i hc
    rwa [hc] at hx
  · rename_i coroutine hc
    simp only [hc, Option.map_eq_some_iff] at hx ⊢
    obtain ⟨stepped, hs, hx⟩ := hx
    exact ⟨stepped, h _ _ _ hs, hx⟩

theorem Machine.resume_mono {stepper stepper' : Stepper}
    (h : ∀ c m x, stepper c m = some x → stepper' c m = some x) {m : Machine}
    {x : Step × Machine} (hx : m.resume stepper = some x) : m.resume stepper' = some x := by
  by_cases hd : m.state.status = .done
  · rwa [Machine.resume_done hd] at hx ⊢
  · by_cases hp : m.state.status = .promiseWait
    · rwa [Machine.resume_promiseWait hp] at hx ⊢
    · rw [Machine.resume_of_ne hd hp] at hx ⊢
      exact Machine.stepAttached_mono h hx

theorem Machine.askSequencer_mono (h : r.LE s) {m : Machine} {x : Bool × Machine}
    (hx : m.askSequencer r = some x) : m.askSequencer s = some x := by
  unfold Machine.askSequencer at hx ⊢
  split
  · rename_i hs
    rwa [hs] at hx
  · rename_i sequencer hs
    simp only [hs, Option.map_eq_some_iff] at hx ⊢
    obtain ⟨ran, hran, hx⟩ := hx
    exact ⟨ran, h _ _ _ _ hran, hx⟩

mutual

theorem Action.perform_mono (h : r.LE s) (a : Action) {m : Machine} {x : Answer × Machine}
    (hx : a.perform r m = some x) : a.perform s m = some x := by
  cases a with
  | runProcedure code arguments =>
    simp only [Action.perform, Option.map_eq_some_iff] at hx ⊢
    obtain ⟨ran, hran, hx⟩ := hx
    exact ⟨ran, Machine.runProcedure_mono h hran, hx⟩
  | resume =>
    simp only [Action.perform, Option.map_eq_some_iff] at hx ⊢
    obtain ⟨ran, hran, hx⟩ := hx
    exact ⟨ran, Machine.resume_mono (fun c _ _ => Coroutine.step_mono h true c) hran, hx⟩
  | callLegacy block context errand =>
    simp only [Action.perform, Option.bind_eq_bind, Option.bind_eq_some_iff] at hx ⊢
    obtain ⟨ran, hran, hx⟩ := hx
    exact ⟨ran, Errand.perform_mono h errand hran, hx⟩
  | bindLegacy block context errand =>
    simp only [Action.perform, Option.bind_eq_bind, Option.bind_eq_some_iff] at hx ⊢
    obtain ⟨ran, hran, hx⟩ := hx
    exact ⟨ran, Errand.perform_mono h errand hran, hx⟩
  | _ => exact hx

theorem Use.perform_mono (h : r.LE s) (u : Use) {branch : Option Branch} {m : Machine}
    {x : Answer × Option Branch × Machine} (hx : u.perform r branch m = some x) :
    u.perform s branch m = some x := by
  cases u with
  | onThread action =>
    simp only [Use.perform, Option.bind_eq_bind, Option.bind_eq_some_iff] at hx ⊢
    obtain ⟨ran, hran, hx⟩ := hx
    exact ⟨ran, Action.perform_mono h action hran, hx⟩
  | retire =>
    simp only [Use.perform, Option.map_eq_some_iff] at hx ⊢
    obtain ⟨ran, hran, hx⟩ := hx
    exact ⟨ran, Machine.askSequencer_mono h hran, hx⟩
  | _ => exact hx

theorem Errand.perform_mono (h : r.LE s) (e : Errand) {branch : Option Branch} {m : Machine}
    {x : List Answer × Option Branch × Machine} (hx : e.perform r branch m = some x) :
    e.perform s branch m = some x := by
  cases e with
  | finish => exact hx
  | ask first next =>
    simp only [Errand.perform, Option.bind_eq_bind, Option.bind_eq_some_iff] at hx ⊢
    obtain ⟨ran, hran, others, hothers, hx⟩ := hx
    exact ⟨ran, Use.perform_mono h first hran, others, Errand.perform_mono h _ hothers, hx⟩

end

/-! ## Greater depths -/

theorem Program.execute_le_succ (depth : Nat) :
    Runner.LE (execute depth) (execute (depth + 1)) := by
  induction depth with
  | zero =>
    intro α p m x hx
    simp [execute] at hx
  | succ depth ih =>
    intro α p m x hx
    exact Program.run_mono (fun a _ _ => Action.perform_mono ih a) p hx

theorem Program.execute_mono {depth depth' : Nat} (h : depth ≤ depth') :
    Runner.LE (execute depth) (execute depth') := by
  induction h with
  | refl => exact fun _ _ _ _ hx => hx
  | step _ ih => exact fun α p m x hx => execute_le_succ _ α p m x (ih α p m x hx)

/-- An action that has an answer keeps it when the depth grows. -/
theorem Machine.perform_of_le {depth depth' : Nat} (h : depth ≤ depth') {a : Action}
    {m : Machine} {x : Answer × Machine} (hx : m.perform depth a = some x) :
    m.perform depth' a = some x :=
  Action.perform_mono (Program.execute_mono h) a hx

/-- No two depths give different answers. -/
theorem Machine.perform_unique {depth depth' : Nat} {a : Action} {m : Machine}
    {x y : Answer × Machine} (hx : m.perform depth a = some x)
    (hy : m.perform depth' a = some y) : x = y := by
  have hx' := perform_of_le (Nat.le_max_left depth depth') hx
  rw [perform_of_le (Nat.le_max_right depth depth') hy] at hx'
  exact (Option.some.inj hx').symm

end BlockThreads
