import BlockThreads.Json.Reader

/-!
# Values

What blocks report, what procedures take and what is remembered between two runs of
a block is a `Value`. A null value is a value: where there may be none, an
`Option Value` says so.

A value is read from JSON without objects. A reference to something outside a script
is never read: it is handed in. Lists and objects may be nested 127 deep.

Two values are equal if they have the same shape and equal leaves. Numbers compare as
doubles do, so the number that is none differs from itself and the two zeros agree.
-/

namespace BlockThreads

open Json

/-- What blocks compute with. -/
inductive Value where
  | null
  | bool (value : Bool)
  | number (value : Float)
  | text (content : String)
  | list (items : List Value)
  /-- The name of something outside the script. -/
  | reference (id : String)
  deriving Inhabited

namespace Value

/-! ## Equality -/

mutual

/-- Whether two values are equal; numbers compare as doubles do. -/
def equal : Value → Value → Bool
  | .null, .null => true
  | .bool a, .bool b => a == b
  | .number x, .number y => x == y
  | .text s, .text t => s == t
  | .list xs, .list ys => equalItems xs ys
  | .reference a, .reference b => a == b
  | _, _ => false

/-- Whether two lists of values are equal, item by item. -/
def equalItems : List Value → List Value → Bool
  | [], [] => true
  | x :: xs, y :: ys => equal x y && equalItems xs ys
  | _, _ => false

end

instance : BEq Value := ⟨equal⟩

/-! ## Reading -/

/-- The double of a number that is read. -/
def ofNumber : Number → Value
  | .integer (.ofNat n) => .number (UInt64.ofNat n).toFloat
  | .integer (.negSucc n) => .number (-(UInt64.ofNat (n + 1)).toFloat)
  | .float x => .number x

mutual

/-- Reads a draft to its end, with at most `levels` containers inside each other.
The answer is nothing if an object occurs in it: then there is no such value, but
the rest of the draft is still looked at. -/
def outline (levels : Nat) : Draft → Except Flaw (Option Value)
  | .broken why => .error why.read
  | .null => .ok (some .null)
  | .bool b => .ok (some (.bool b))
  | .number n =>
    match n.value with
    | none => .error .malformed
    | some x => .ok (some (ofNumber x))
  | .text none => .error .malformed
  | .text (some s) => .ok (some (.text s))
  | .list items ending =>
    match levels with
    | 0 => .error .malformed
    | levels + 1 => (outlineItems levels ending items).map fun found => found.map .list
  | .object members ending =>
    match levels with
    | 0 => .error .malformed
    | levels + 1 => (outlineMembers levels ending members).map fun _ => none

/-- Reads the rest of the items of a list. -/
def outlineItems (levels : Nat) (ending : Ending) : List Draft → Except Flaw (Option (List Value))
  | [] =>
    match ending with
    | .closed => .ok (some [])
    | .broken why => .error why.read
  | item :: items => do
    let first ← outline levels item
    let others ← outlineItems levels ending items
    return first.bind fun first => others.map fun others => first :: others

/-- Reads the rest of the members of an object. -/
def outlineMembers (levels : Nat) (ending : Ending) :
    List (Option String × Draft) → Except Flaw Unit
  | [] =>
    match ending with
    | .closed => .ok ()
    | .broken why => .error why.read
  | (none, _) :: _ => .error .malformed
  | (some _, value) :: members => do
    let _ ← outline levels value
    outlineMembers levels ending members

end

/-- How deep containers may be nested. -/
def maxLevels : Nat := 127

def read (d : Draft) : Except Fault Value :=
  match outline maxLevels d with
  | .error flaw => flawed flaw
  | .ok none => mismatched .notAValue
  | .ok (some v) => .ok v

def ofText (text : String) : Except Fault Value := readText read text

end Value

end BlockThreads
