import BlockThreads.Json.Break

/-!
# Text literals

The scanner of quoted texts. It works on the characters after the opening quote
and stops behind the closing one.

A literal may spell a character outside the basic plane as two escaped units, a
high one and a low one. A unit without its partner spells no character. Whoever
reads such a literal refuses it; whoever skips it goes on. So the content of a
literal is `none` from the first unpaired unit on, and the scanner continues.

Results:
1. `scan_length_lt`: scanning always takes something off the text.
-/

namespace BlockThreads.Json.Literal

/-! ## Escapes -/

def hexDigit? (c : Char) : Option Nat :=
  let n := c.toNat
  if 48 ≤ n ∧ n < 58 then some (n - 48)
  else if 65 ≤ n ∧ n < 71 then some (n - 55)
  else if 97 ≤ n ∧ n < 103 then some (n - 87)
  else none

def byteCount (cs : List Char) : Nat := cs.foldl (fun n c => n + c.utf8Size) 0

/-- The unit that the next four hexadecimal digits spell. A text with fewer than
four bytes left has ended too early, whatever these bytes are. -/
def scanUnit (cs : List Char) : Except Break Nat :=
  if byteCount (cs.take 4) < 4 then .error .truncated
  else
    match (cs.take 4).mapM hexDigit? with
    | some ds => .ok (ds.foldl (fun n d => n * 16 + d) 0)
    | none => .error .malformed

/-- A unit that is the first of a pair. -/
def isHigh (unit : Nat) : Bool := 0xD800 ≤ unit && unit < 0xDC00

/-- A unit that is the second of a pair. -/
def isLow (unit : Nat) : Bool := 0xDC00 ≤ unit && unit < 0xE000

/-- The character that a pair of units spells. -/
def joinUnits (high low : Nat) : Char :=
  Char.ofNat (0x10000 + (high - 0xD800) * 0x400 + (low - 0xDC00))

/-- What follows a high unit. -/
inductive Partner where
  /-- An escaped low unit. -/
  | low (unit : Nat)
  /-- Something else. -/
  | missing
  /-- A place where the text breaks. -/
  | broken (why : Break)

def partner : List Char → Partner
  | [] => .broken .truncated
  | ['\\'] => .broken .truncated
  | '\\' :: 'u' :: cs =>
    match scanUnit cs with
    | .error why => .broken why
    | .ok unit => if isLow unit then .low unit else .missing
  | _ => .missing

/-- The characters with an escape of one letter. -/
def escaped? : Char → Option Char
  | '"' => some '"'
  | '\\' => some '\\'
  | '/' => some '/'
  | 'b' => some '\x08'
  | 'f' => some '\x0c'
  | 'n' => some '\n'
  | 'r' => some '\r'
  | 't' => some '\t'
  | _ => none

/-! ## Scanning -/

/-- The verdict on a break: a reader has given up at the first unpaired unit. -/
def verdict (content : Option (List Char)) (why : Break) : Break :=
  match content with
  | some _ => why
  | none => { why with read := .malformed }

/-- Scans on, with the characters found so far, last first. Answers the content of
the literal and the text behind its closing quote. -/
def scanOn (content : Option (List Char)) (cs : List Char) :
    Except Break (Option String × List Char) :=
  match cs with
  | [] => .error (verdict content .truncated)
  | '"' :: rest => .ok (content.map fun cs => String.ofList cs.reverse, rest)
  | ['\\'] => .error (verdict content .truncated)
  | '\\' :: 'u' :: rest =>
    match scanUnit rest with
    | .error why => .error (verdict content why)
    | .ok unit =>
      if isHigh unit then
        match partner (rest.drop 4) with
        | .low low => scanOn (content.map (joinUnits unit low :: ·)) (rest.drop 10)
        | .missing => scanOn none (rest.drop 4)
        | .broken why => .error (verdict content why)
      else if isLow unit then scanOn none (rest.drop 4)
      else scanOn (content.map (Char.ofNat unit :: ·)) (rest.drop 4)
  | '\\' :: c :: rest =>
    match escaped? c with
    | some d => scanOn (content.map (d :: ·)) rest
    | none => .error .malformed
  | c :: rest =>
    if c.toNat < 32 then .error .malformed else scanOn (content.map (c :: ·)) rest
termination_by cs.length
decreasing_by all_goals simp only [List.length_cons, List.length_drop]; omega

/-- Scans a literal whose opening quote has been taken. -/
def scan (cs : List Char) : Except Break (Option String × List Char) := scanOn (some []) cs

/-! ## Scanning makes progress -/

theorem scanOn_length_lt {content : Option (List Char)} {cs rest : List Char}
    {found : Option String} (h : scanOn content cs = .ok (found, rest)) :
    rest.length < cs.length := by
  fun_induction scanOn content cs <;> simp_all <;> omega

/-- Scanning always takes something off the text. -/
theorem scan_length_lt {cs rest : List Char} {found : Option String}
    (h : scan cs = .ok (found, rest)) : rest.length < cs.length :=
  scanOn_length_lt h

end BlockThreads.Json.Literal
