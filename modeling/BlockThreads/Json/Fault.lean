import BlockThreads.Json.Draft
import BlockThreads.Text.Quoted

/-!
# Why a text is refused

A reader refuses a text either because it breaks (`Fault.flaw`) or because it is JSON
of the wrong kind (`Fault.mismatch`). Mismatches are causes; their wording is in
`Mismatch.message` alone.

Results:
1. `Document.read_eq_ok_iff`: a text is accepted exactly when its draft is and
   nothing but blanks follows.
-/

namespace BlockThreads.Json

/-- What a reader found instead of what it wanted. -/
inductive Found where
  | null
  | bool (value : Bool)
  | integer (value : Int)
  | float
  | text (content : String)
  | list
  | object
  deriving DecidableEq, Repr

inductive Record where
  | block
  | mutation
  | config
  deriving DecidableEq, Repr

/-- What a reader wanted. -/
inductive Expected where
  | text
  | boolean
  /-- A whole number below `2^64`. -/
  | count
  | map
  | record (r : Record)
  deriving DecidableEq, Repr

/-- Why JSON is not of the kind that a reader wants. -/
inductive Mismatch where
  /-- A record ends without a field that it must have. -/
  | missingField (name : String)
  /-- A field of a record comes a second time. -/
  | duplicateField (name : String)
  | wrongType (found : Found) (expected : Expected)
  | wrongValue (found : Found) (expected : Expected)
  /-- A block is written as a list without items. -/
  | emptyBlock
  /-- A value holds an object. -/
  | notAValue
  deriving DecidableEq, Repr

/-- Why a text is refused. -/
inductive Fault where
  | flaw (flaw : Flaw)
  | mismatch (mismatch : Mismatch)
  deriving DecidableEq, Repr

/-! ## Wording -/

/-- The name of a thing found. Of a fraction only the kind is told. -/
def Found.message : Found → String
  | .null => "null"
  | .bool b => "boolean `" ++ (if b then "true" else "false") ++ "`"
  | .integer i => "integer `" ++ toString i ++ "`"
  | .float => "floating point"
  | .text s => "string " ++ Text.quoted s
  | .list => "sequence"
  | .object => "map"

def Record.message : Record → String
  | .block => "struct Block"
  | .mutation => "struct Mutation"
  | .config => "struct Config"

def Expected.message : Expected → String
  | .text => "a string"
  | .boolean => "a boolean"
  | .count => "u64"
  | .map => "a map"
  | .record r => r.message

def Mismatch.message : Mismatch → String
  | .missingField name => "missing field `" ++ name ++ "`"
  | .duplicateField name => "duplicate field `" ++ name ++ "`"
  | .wrongType found expected =>
    "invalid type: " ++ found.message ++ ", expected " ++ expected.message
  | .wrongValue found expected =>
    "invalid value: " ++ found.message ++ ", expected " ++ expected.message
  | .emptyBlock => "invalid length 0, expected struct Block with 4 elements"
  | .notAValue => "data did not match any variant of untagged enum Value"

/-! ## Reading a whole text -/

def flawed {α : Type} (flaw : Flaw) : Except Fault α := .error (.flaw flaw)

def mismatched {α : Type} (mismatch : Mismatch) : Except Fault α := .error (.mismatch mismatch)

/-- Reads a document with a reader of drafts. Whether something follows the value is
looked at last. -/
def Document.read {α : Type} (reader : Draft → Except Fault α) (d : Document) : Except Fault α :=
  match reader d.draft with
  | .error fault => .error fault
  | .ok a => if d.trailing then flawed .malformed else .ok a

/-- A text is accepted exactly when its draft is and nothing but blanks follows. -/
theorem Document.read_eq_ok_iff {α : Type} {reader : Draft → Except Fault α} {d : Document}
    {a : α} : d.read reader = .ok a ↔ reader d.draft = .ok a ∧ d.trailing = false := by
  unfold Document.read
  cases reader d.draft with
  | error fault => simp
  | ok b => cases d.trailing <;> simp [flawed]

/-- Reads a text with a reader of drafts. -/
def readText {α : Type} (reader : Draft → Except Fault α) (text : String) : Except Fault α :=
  (Document.ofText text).read reader

end BlockThreads.Json
