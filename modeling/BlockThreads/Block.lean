import BlockThreads.Json.Reader

/-!
# Blocks

A `Block` is one node of a script: an opcode and the block that comes next. Blocks
that call a procedure carry the code of the procedure in their mutation.

A record is read from an object, where its fields may come in any order, each at most
once, between fields that nobody asks for; or from a list of its fields in their
declared order, which may stop early. A field with a default may be left out.

Results:
1. `proccode_eq_some_iff`: exactly the calls with a mutation have a procedure code.
-/

namespace BlockThreads

open Json

/-- What a block that calls a procedure says about it. -/
structure Mutation where
  proccode : String := ""
  deriving DecidableEq, Repr

/-- One node of a script. -/
structure Block where
  opcode : String
  next : Option String := none
  topLevel : Bool := false
  mutation : Option Mutation := none
  deriving DecidableEq, Repr

/-! ## Reading a mutation -/

namespace Mutation

structure Partial where
  proccode : Option String := none

def Partial.finish (p : Partial) : Mutation := { proccode := p.proccode.getD "" }

def Partial.step (p : Partial) (key : String) (value : Draft) : Except Fault Partial :=
  match key with
  | "proccode" => (fill "proccode" p.proccode Draft.readString value).map fun v => { proccode := v }
  | _ => value.skip.map fun _ => p

def ofItems (items : Items) : Except Fault Mutation := do
  let (proccode, items) ← items.next Draft.readString
  items.finish
  return Partial.finish { proccode }

def read : Draft → Except Fault Mutation
  | .object members ending => (readObject Partial.step {} members ending).map Partial.finish
  | .list items ending => ofItems ⟨items, ending⟩
  | d => d.refuse (.record .mutation)

def ofText (text : String) : Except Fault Mutation := readText read text

end Mutation

/-! ## Reading a block -/

namespace Block

structure Partial where
  opcode : Option String := none
  next : Option (Option String) := none
  topLevel : Option Bool := none
  mutation : Option (Option Mutation) := none

/-- The block with these fields, given its opcode. -/
def Partial.toBlock (p : Partial) (opcode : String) : Block where
  opcode := opcode
  next := p.next.getD none
  topLevel := p.topLevel.getD false
  mutation := p.mutation.getD none

/-- The block with these fields. It has to have an opcode. -/
def Partial.finish (p : Partial) : Except Fault Block :=
  match p.opcode with
  | some opcode => .ok (p.toBlock opcode)
  | none => mismatched (.missingField "opcode")

def Partial.step (p : Partial) (key : String) (value : Draft) : Except Fault Partial :=
  match key with
  | "opcode" =>
    (fill "opcode" p.opcode Draft.readString value).map fun v => { p with opcode := v }
  | "next" =>
    (fill "next" p.next (Draft.readOptional Draft.readString) value).map
      fun v => { p with next := v }
  | "topLevel" =>
    (fill "topLevel" p.topLevel Draft.readBool value).map fun v => { p with topLevel := v }
  | "mutation" =>
    (fill "mutation" p.mutation (Draft.readOptional Mutation.read) value).map
      fun v => { p with mutation := v }
  | _ => value.skip.map fun _ => p

def ofItems (items : Items) : Except Fault Block := do
  let (opcode, items) ← items.next Draft.readString
  match opcode with
  | none => mismatched .emptyBlock
  | some opcode =>
    let (next, items) ← items.next (Draft.readOptional Draft.readString)
    let (topLevel, items) ← items.next Draft.readBool
    let (mutation, items) ← items.next (Draft.readOptional Mutation.read)
    items.finish
    return Partial.toBlock { next, topLevel, mutation } opcode

def read : Draft → Except Fault Block
  | .object members ending => (readObject Partial.step {} members ending).bind Partial.finish
  | .list items ending => ofItems ⟨items, ending⟩
  | d => d.refuse (.record .block)

def ofText (text : String) : Except Fault Block := readText read text

/-! ## Procedure calls -/

/-- The opcode of blocks that call a procedure. -/
def callOpcode : String := "procedures_call"

def isCall (b : Block) : Bool := b.opcode == callOpcode

/-- The code of the procedure that a block calls. -/
def proccode (b : Block) : Option String :=
  if b.isCall then b.mutation.map Mutation.proccode else none

/-- Exactly the calls with a mutation have a procedure code. -/
theorem proccode_eq_some_iff {b : Block} {code : String} :
    b.proccode = some code ↔ b.opcode = callOpcode ∧ b.mutation = some ⟨code⟩ := by
  obtain ⟨opcode, next, topLevel, mutation⟩ := b
  by_cases h : opcode = callOpcode
  · cases mutation with
    | none => simp [proccode, isCall, h]
    | some m =>
      obtain ⟨own⟩ := m
      simp [proccode, isCall, h]
  · simp [proccode, isCall, h]

end Block

end BlockThreads
