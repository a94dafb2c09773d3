import BlockThreads.Frame

/-!
# Pools of frames

Threads give frames back that they do not need any longer, and take them again when
they go deeper. A `Pool` holds the frames that wait in between, the one given back
last on top. Frames are cleared when they come in, and whoever takes one says which
warp mode it has.

Results:
1. `create_of_empty`, `create_release`: where a frame comes from.
2. `IsPristine.create`, `IsPristine.release`: a pool whose frames are clear stays so,
   and what is taken from it is a new frame.
-/

namespace BlockThreads

/-- Frames that wait to be used again. -/
structure Pool where
  free : List Frame := []

namespace Pool

instance : Inhabited Pool := ⟨{}⟩

def size (p : Pool) : Nat := p.free.length

def isEmpty (p : Pool) : Bool := p.size == 0

/-- Takes a frame, a new one if none waits. -/
def create (warpMode : Bool) (p : Pool) : Frame × Pool :=
  match p.free with
  | [] => (.fresh warpMode, p)
  | frame :: free => ({ frame with warpMode }, { p with free })

def release (frame : Frame) (p : Pool) : Pool := { p with free := frame.reset :: p.free }

def releaseAll (frames : List Frame) (p : Pool) : Pool := frames.foldl (fun p f => p.release f) p

/-! ## Laws -/

/-- Every frame that waits is clear. -/
def IsPristine (p : Pool) : Prop := ∀ frame ∈ p.free, frame = .fresh false

theorem create_of_empty {p : Pool} (warpMode : Bool) (h : p.free = []) :
    p.create warpMode = (.fresh warpMode, p) := by
  simp [create, h]

theorem create_release (warpMode : Bool) (frame : Frame) (p : Pool) :
    (p.release frame).create warpMode = (.fresh warpMode, p) := rfl

theorem IsPristine.create {p : Pool} (h : p.IsPristine) (warpMode : Bool) :
    (p.create warpMode).1 = .fresh warpMode ∧ (p.create warpMode).2.IsPristine := by
  unfold Pool.create
  split
  · exact ⟨rfl, h⟩
  · rename_i frame free hf
    rw [IsPristine, hf] at h
    refine ⟨?_, fun f hm => h f (List.mem_cons_of_mem _ hm)⟩
    rw [h frame List.mem_cons_self]
    rfl

theorem IsPristine.release {p : Pool} (h : p.IsPristine) (frame : Frame) :
    (p.release frame).IsPristine := by
  intro f hm
  rcases List.mem_cons.mp hm with rfl | hm
  · rfl
  · exact h f hm

theorem IsPristine.releaseAll {p : Pool} (h : p.IsPristine) (frames : List Frame) :
    (p.releaseAll frames).IsPristine := by
  induction frames generalizing p with
  | nil => exact h
  | cons frame frames ih => exact ih (h.release frame)

@[simp]
theorem size_release (frame : Frame) (p : Pool) : (p.release frame).size = p.size + 1 := rfl

@[simp]
theorem size_releaseAll (frames : List Frame) (p : Pool) :
    (p.releaseAll frames).size = p.size + frames.length := by
  induction frames generalizing p with
  | nil => rfl
  | cons frame frames ih =>
    have hstep : p.releaseAll (frame :: frames) = (p.release frame).releaseAll frames := rfl
    rw [hstep, ih, size_release, List.length_cons]
    omega

end Pool

end BlockThreads
