import BlockThreads.Proofs.Procedures
import BlockThreads.Proofs.ScriptHomes

/-!
# Whose wish it is that a script does not glow

A script asks to glow when it is attached to its thread, unless a container forbids this to the
scripts that come from it. But a thread does not always run a script from its own container. If
that has no block for the script to start from, the script comes from the palette, is compiled
for the palette, and is remembered there.

What is asked all the same is the own container of the thread. So a palette that forbids its
scripts to glow is not heard by a thread of another container, and a container that forbids it
silences scripts of the palette, too. Where the two agree, nobody can tell the difference.

Results:
1. `glow_of_attached`: what the glow of a thread is when a script has been attached to it.
2. `glows_by_own_container`: the own container of the thread decides; and the container that the
   script comes from is obeyed exactly if it wishes the same, or there is nothing to change.
3. `palette_not_heard`: a script from a palette that forbids glowing glows.
-/

namespace BlockThreads

namespace Moment

/-- What the thread asks of the screen afterwards is the wish of a container: it asks what it
asked before if the container forbids its scripts to glow, and otherwise the script asks to glow,
with the block it starts from. -/
def GlowsBy (place : ContainerId) (x : Moment) : Prop :=
  if (x.machine.host.container place).forceNoGlow then
    x.after.state.glow = x.machine.state.glow ∧
      x.after.state.blockGlow = x.machine.state.blockGlow
  else x.after.state.glow = true ∧ x.after.state.blockGlow = some x.machine.thread.top

/-- The script of the thread glows already. -/
def glowsAlready (x : Moment) : Prop :=
  x.machine.state.glow = true ∧ x.machine.state.blockGlow = some x.machine.thread.top

end Moment

namespace GlowHomesLemmas

open FirstRequestsLemmas ProceduresLemmas

variable {m : Machine} {x : Moment} {script : Script} {place : ContainerId}

/-- A container that forbids it keeps what the thread asks of the screen. -/
theorem attach_forbidden (hforbid : (m.host.container m.thread.container).forceNoGlow = true) :
    (m.attach script).state.glow = m.state.glow ∧
      (m.attach script).state.blockGlow = m.state.blockGlow := by
  have hquiet : ((m.bindProcedures script).startScript script).requestGlow =
      (m.bindProcedures script).startScript script := if_pos hforbid
  rw [Machine.attach, hquiet]
  exact ⟨rfl, rfl⟩

/-- Otherwise the script asks to glow. -/
theorem attach_allowed (hallow : (m.host.container m.thread.container).forceNoGlow = false) :
    (m.attach script).state.glow = true ∧
      (m.attach script).state.blockGlow = some m.thread.top := by
  have hloud : ((m.bindProcedures script).startScript script).requestGlow =
      ((m.bindProcedures script).startScript script).editState
        fun s => { s with blockGlow := some m.thread.top, glow := true } :=
    if_neg (Bool.eq_false_iff.mp hallow)
  rw [Machine.attach, hloud]
  exact ⟨rfl, rfl⟩

/-- The container of the thread decides about the glow of the script that is attached. -/
theorem glow_of_attached (h : x.attached? = some script) :
    x.GlowsBy x.machine.thread.container := by
  obtain ⟨m, compiler, rfl, huntried, hout⟩ := attached_iff.mp h
  have hafter : (⟨m, .act (.compile compiler)⟩ : Moment).after.state =
      (m.tried.attach script).state :=
    congrArg Thread.toThreadState (compile_ok huntried hout)
  unfold Moment.GlowsBy
  rw [hafter]
  split
  · next hforbid => exact attach_forbidden (m := m.tried) hforbid
  · next hallow => exact attach_allowed (m := m.tried) (Bool.eq_false_iff.mpr hallow)

/-- If one container is obeyed, another one is exactly if it wishes the same, or if it makes no
difference since the script glows already. -/
theorem glowsBy_iff (h : x.GlowsBy place) (other : ContainerId) :
    x.GlowsBy other ↔
      (x.machine.host.container other).forceNoGlow =
        (x.machine.host.container place).forceNoGlow ∨ x.glowsAlready := by
  unfold Moment.GlowsBy Moment.glowsAlready at *
  cases hplace : (x.machine.host.container place).forceNoGlow <;>
    cases hother : (x.machine.host.container other).forceNoGlow <;>
    simp only [hplace, if_true, if_false, Bool.false_eq_true, Bool.true_eq_false, true_or,
      false_or, iff_true] at h ⊢
  · exact h
  · rw [h.1, h.2, eq_comm, eq_comm (a := some _)]
  · rw [h.1, h.2]
  · exact h

end GlowHomesLemmas

open GlowHomesLemmas

/-- Whenever a script is attached to a thread, compiled just now or remembered, the own container
of the thread decides about its glow. The container that the script comes from, the one it is
remembered in, is obeyed exactly if its wish is that of the own container, or if the script glows
already. -/
theorem Moment.glows_by_own_container {x : Moment} {script : Script}
    (h : x.attached? = some script) :
    x.GlowsBy x.machine.thread.container ∧
      (x.GlowsBy x.place ↔
        (x.machine.host.container x.place).forceNoGlow =
          (x.machine.host.container x.machine.thread.container).forceNoGlow ∨
        x.glowsAlready) :=
  ⟨glow_of_attached h, glowsBy_iff (glow_of_attached h) x.place⟩

/-! ## A script of the palette -/

/-- A thread that has no block of its own is compiled. Its container and the palette, which has
the script, each say whether their scripts may glow. -/
def exFromPalette (ownForbids paletteForbids : Bool) : Moment where
  machine :=
    { thread :=
        { top := "hat"
          target := { id := "sprite", name := "Sprite", container := some "main" }
          container := some "main"
          pool := "pool" }
      host :=
        { containers := .ofList
            [(some "main", { forceNoGlow := ownForbids }),
              (some "palette",
                { blocks := .ofList [("hat", { opcode := "event_whenflagclicked" })]
                  forceNoGlow := paletteForbids })]
          palette := some "palette"
          compilers := .ofList [("c", .scripted [.ok {}])] } }
  move := .act (.compile "c")

/-- Where both containers forbid it, the script does not glow, and the palette is obeyed. -/
theorem glows_by_own_container_agreed :
    (exFromPalette true true).place = some "palette" ∧
      (exFromPalette true true).GlowsBy (some "main") ∧
      (exFromPalette true true).GlowsBy (some "palette") := by
  obtain ⟨hown, hplace⟩ := Moment.glows_by_own_container (x := exFromPalette true true) rfl
  exact ⟨rfl, hown, hplace.mpr (.inl rfl)⟩

/-- A script at home in a palette that forbids its scripts to glow, and compiled for it, glows. -/
theorem palette_not_heard :
    (exFromPalette false true).attached?.isSome ∧
      (exFromPalette false true).home? = some (some "palette") ∧
      (exFromPalette false true).place = some "palette" ∧
      ((exFromPalette false true).machine.host.container (some "palette")).forceNoGlow = true ∧
      (exFromPalette false true).machine.state.glow = false ∧
      (exFromPalette false true).after.state.glow = true ∧
      ¬ (exFromPalette false true).GlowsBy (some "palette") := by
  refine ⟨rfl, rfl, rfl, rfl, rfl, rfl, fun h => ?_⟩
  have hdark : (exFromPalette false true).after.state.glow =
      (exFromPalette false true).machine.state.glow := h.1
  cases hdark

end BlockThreads
