import BlockThreads.Json.Fault

/-!
# Readers

The parts that readers of drafts are made of: readers of texts, booleans and counts,
the members of an object in their order, and the items of a list one by one.

A reader that meets the wrong kind of value says what it found. It reads a scalar to
its end before it says so, and of a container only the opening bracket.

Results:
1. `readMembers_append`: members are read in order, the first refusal decides.
-/

namespace BlockThreads.Json

namespace Draft

/-! ## Scalars -/

/-- What stands here, for a message. A number without a value and a text without
content are flaws of the text. -/
def found : Draft → Except Flaw Found
  | .broken why => .error why.read
  | .null => .ok .null
  | .bool b => .ok (.bool b)
  | .number n =>
    match n.value with
    | none => .error .malformed
    | some (.integer i) => .ok (.integer i)
    | some (.float _) => .ok .float
  | .text (some s) => .ok (.text s)
  | .text none => .error .malformed
  | .list _ _ => .ok .list
  | .object _ _ => .ok .object

def refuse {α : Type} (expected : Expected) (d : Draft) : Except Fault α :=
  match d.found with
  | .error flaw => flawed flaw
  | .ok found => mismatched (.wrongType found expected)

def readString : Draft → Except Fault String
  | .text (some s) => .ok s
  | d => d.refuse .text

def readBool : Draft → Except Fault Bool
  | .bool b => .ok b
  | d => d.refuse .boolean

/-- Reads a whole number below `2^64`. -/
def readCount : Draft → Except Fault Nat
  | .number n =>
    match n.value with
    | some (.integer (.ofNat k)) => .ok k
    | some (.integer i) => mismatched (.wrongValue (.integer i) .count)
    | _ => (Draft.number n).refuse .count
  | d => d.refuse .count

/-- Reads `null` as nothing and all else with `reader`. -/
def readOptional {α : Type} (reader : Draft → Except Fault α) : Draft → Except Fault (Option α)
  | .null => .ok none
  | d => (reader d).map some

/-- Passes over a value that nobody asks for. -/
def skip (d : Draft) : Except Fault Unit :=
  match d.skipped? with
  | some flaw => flawed flaw
  | none => .ok ()

end Draft

/-! ## Members of an object -/

/-- Passes over the end of a container. -/
def Ending.finish : Ending → Except Fault Unit
  | .closed => .ok ()
  | .broken why => flawed why.read

/-- Reads the members of an object in their order, each with `step`. -/
def readMembers {σ : Type} (step : σ → String → Draft → Except Fault σ) (state : σ) :
    List (Option String × Draft) → Except Fault σ
  | [] => .ok state
  | (none, _) :: _ => flawed .malformed
  | (some key, value) :: members =>
    match step state key value with
    | .error fault => .error fault
    | .ok state => readMembers step state members

/-- Reads the members of an object and its end. -/
def readObject {σ : Type} (step : σ → String → Draft → Except Fault σ) (state : σ)
    (members : List (Option String × Draft)) (ending : Ending) : Except Fault σ := do
  let state ← readMembers step state members
  ending.finish
  return state

/-- Members are read in order, the first refusal decides. -/
theorem readMembers_append {σ : Type} (step : σ → String → Draft → Except Fault σ) (state : σ)
    (front back : List (Option String × Draft)) :
    readMembers step state (front ++ back) =
      (readMembers step state front).bind fun state => readMembers step state back := by
  induction front generalizing state with
  | nil => rfl
  | cons member front ih =>
    obtain ⟨key, value⟩ := member
    cases key with
    | none => rfl
    | some key =>
      simp only [List.cons_append, readMembers]
      cases step state key value with
      | error fault => rfl
      | ok next => exact ih next

/-- Fills a field that may be given once. Giving it again is noticed at its key,
before the value is looked at. -/
def fill {α : Type} (name : String) (field : Option α) (reader : Draft → Except Fault α)
    (value : Draft) : Except Fault (Option α) :=
  match field with
  | some _ => mismatched (.duplicateField name)
  | none => (reader value).map some

/-! ## Items of a list -/

/-- The items of a list that have not been read, and how the list ends. -/
structure Items where
  rest : List Draft
  ending : Ending

namespace Items

/-- Reads the next item with `reader`; nothing, if the list ends before it. -/
def next {α : Type} (reader : Draft → Except Fault α) (items : Items) :
    Except Fault (Option α × Items) :=
  match items.rest with
  | [] => items.ending.finish.map fun _ => (none, items)
  | item :: rest => (reader item).map fun a => (some a, { items with rest })

/-- Refuses items that are left over. -/
def finish (items : Items) : Except Fault Unit :=
  match items.rest with
  | [] => items.ending.finish
  | _ :: _ => flawed .malformed

end Items

end BlockThreads.Json
