import BlockThreads.Block
import BlockThreads.Script

/-!
# Containers

A `Container` holds a graph of blocks, by their ids, and remembers for each script in
it what its compilation has led to: a compiled script, or the error that will not go
away by itself. When the graph changes, nothing of this is true any longer, so every
insertion forgets all outcomes.

Results:
1. `block?_insert`, `outcome?_insert`: the effect of an insertion.
2. `outcome?_remember`, `block?_remember`: the effect of remembering an outcome.
-/

namespace BlockThreads

open Json

/-- A graph of blocks and what is known of its scripts. -/
structure Container where
  blocks : Table String Block := .empty
  outcomes : Table String Outcome := .empty
  /-- Scripts from here do not ask to glow when they are compiled. -/
  forceNoGlow : Bool := false

namespace Container

def empty : Container := {}

instance : Inhabited Container := ⟨empty⟩

def block? (c : Container) (id : String) : Option Block := c.blocks.get? id

/-- The block that runs after another one at the same level. -/
def nextOf (c : Container) (id : String) : Option String := (c.block? id).bind Block.next

/-- What is remembered of the script that starts from a block. -/
def outcome? (c : Container) (top : String) : Option Outcome := c.outcomes.get? top

/-- Remembers an outcome, in place of an earlier one. -/
def remember (top : String) (outcome : Outcome) (c : Container) : Container :=
  { c with outcomes := c.outcomes.insert top outcome }

def forget (c : Container) : Container := { c with outcomes := .empty }

/-- Puts a block into the graph, in place of an earlier one with the same id. -/
def insert (id : String) (block : Block) (c : Container) : Container :=
  { c with blocks := c.blocks.insert id block }.forget

/-! ## Reading -/

/-- Binds an id to the block that a draft holds. -/
def readEntry (blocks : Table String Block) (id : String) (value : Draft) :
    Except Fault (Table String Block) :=
  (Block.read value).map fun block => blocks.insert id block

/-- Reads a container from a block map, an object from ids to blocks. The map is read as a
whole, and then a container is made around it. -/
def read : Draft → Except Fault Container
  | .object members ending =>
    (readObject readEntry .empty members ending).map fun blocks => { blocks }
  | d => d.refuse .map

def ofText (text : String) : Except Fault Container := readText read text

/-! ## Laws -/

@[simp]
theorem block?_empty (id : String) : empty.block? id = none := rfl

@[simp]
theorem outcome?_empty (top : String) : empty.outcome? top = none := rfl

theorem block?_insert (c : Container) (id other : String) (block : Block) :
    (c.insert id block).block? other = if id = other then some block else c.block? other :=
  Table.get?_insert c.blocks id other block

@[simp]
theorem outcome?_insert (c : Container) (id top : String) (block : Block) :
    (c.insert id block).outcome? top = none := rfl

@[simp]
theorem block?_remember (c : Container) (top id : String) (outcome : Outcome) :
    (c.remember top outcome).block? id = c.block? id := rfl

theorem outcome?_remember (c : Container) (top other : String) (outcome : Outcome) :
    (c.remember top outcome).outcome? other =
      if top = other then some outcome else c.outcome? other :=
  Table.get?_insert c.outcomes top other outcome

@[simp]
theorem block?_forget (c : Container) (id : String) : c.forget.block? id = c.block? id := rfl

@[simp]
theorem outcome?_forget (c : Container) (top : String) : c.forget.outcome? top = none := rfl

end Container

end BlockThreads
