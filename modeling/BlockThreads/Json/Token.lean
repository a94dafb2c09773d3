import BlockThreads.Json.Literal
import BlockThreads.Json.Numeral

/-!
# Tokens

`Token.scan` cuts a text into JSON tokens and leaves out the blanks between them.
Cutting does not fail: where no token can be cut, the list ends with one that says
how the text breaks there. Two kinds of broken token are kept apart, because an
object key is looked for by its quote: a literal that breaks is a broken key, and
everything else is simply not a key.

Results:
1. `scan_nil`: no token is found in an empty text.
2. `scan_blank`: blanks do not count.
-/

namespace BlockThreads.Json

/-- A token. The content of a literal is missing if it has an unpaired unit. -/
inductive Token where
  | openList
  | closeList
  | openObject
  | closeObject
  | comma
  | colon
  | null
  | bool (value : Bool)
  | number (numeral : Numeral)
  | text (content : Option String)
  /-- A literal that breaks. -/
  | brokenText (why : Break)
  /-- Anything else that breaks. -/
  | broken (why : Break)
  deriving DecidableEq, Repr

namespace Token

/-- Space, tabulator, line feed and carriage return stand between tokens. -/
def isBlank (c : Char) : Bool := c == ' ' || c == '\t' || c == '\n' || c == '\r'

def ofMark? : Char → Option Token
  | '[' => some .openList
  | ']' => some .closeList
  | '{' => some .openObject
  | '}' => some .closeObject
  | ',' => some .comma
  | ':' => some .colon
  | _ => none

/-- The word that starts with a letter, less that letter, and its token. -/
def ofWord? : Char → Option (List Char × Token)
  | 'n' => some (['u', 'l', 'l'], .null)
  | 't' => some (['r', 'u', 'e'], .bool true)
  | 'f' => some (['a', 'l', 's', 'e'], .bool false)
  | _ => none

/-- Takes the characters of a word off the front of a text. -/
def scanWord : List Char → List Char → Except Break (List Char)
  | [], cs => .ok cs
  | _ :: _, [] => .error .truncated
  | w :: ws, c :: cs => if w = c then scanWord ws cs else .error .malformed

theorem scanWord_length_le {ws cs rest : List Char} (h : scanWord ws cs = .ok rest) :
    rest.length ≤ cs.length := by
  fun_induction scanWord ws cs <;> simp_all
  omega

def scan (cs : List Char) : List Token :=
  match cs with
  | [] => []
  | c :: rest =>
    if isBlank c then scan rest
    else
      match ofMark? c with
      | some token => token :: scan rest
      | none =>
        match ofWord? c with
        | some (word, token) =>
          match _h : scanWord word rest with
          | .ok rest => token :: scan rest
          | .error why => [.broken why]
        | none =>
          if c = '"' then
            match _h : Literal.scan rest with
            | .ok (content, rest) => .text content :: scan rest
            | .error why => [.brokenText why]
          else
            match _h : Numeral.scan (c :: rest) with
            | .ok (numeral, rest) => .number numeral :: scan rest
            | .error why => [.broken why]
termination_by cs.length
decreasing_by
  · simp
  · simp
  · have := scanWord_length_le (by assumption)
    simp only [List.length_cons]
    omega
  · have := Literal.scan_length_lt (by assumption)
    simp only [List.length_cons]
    omega
  · exact Numeral.scan_length_lt (by assumption)

@[simp]
theorem scan_nil : scan [] = [] := by
  rw [scan]

/-- Blanks do not count. -/
theorem scan_blank {c : Char} (cs : List Char) (h : isBlank c) : scan (c :: cs) = scan cs := by
  rw [scan]
  simp [h]

end Token

end BlockThreads.Json
