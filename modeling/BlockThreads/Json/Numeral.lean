import BlockThreads.Json.Break

/-!
# Numerals

A `Numeral` is the spelling of a JSON number, digit by digit. `Numeral.scan` takes
one off the front of a text and `Numeral.value` gives its value.

A numeral without fraction and exponent is an integer if it lies between `-2^63`
and `2^64 - 1`; every other numeral, `-0` included, is a double. Doubles are
computed in one way that every reader can repeat: the digits are collected in a
whole number below `2^64`, digits that do not fit are dropped, and the result is
multiplied or divided by a power of ten. What is too large for a double has no
value, and what is too small is zero.

Results:
1. `scan_length_lt`: scanning always takes something off the text.
-/

namespace BlockThreads.Json

abbrev Digit := Fin 10

def digit? (c : Char) : Option Digit :=
  if h : 48 ≤ c.toNat ∧ c.toNat < 58 then some ⟨c.toNat - 48, by omega⟩ else none

/-- The digits at the front of a text, and the rest of it. -/
def takeDigits : List Char → List Digit × List Char
  | [] => ([], [])
  | c :: cs =>
    match digit? c with
    | some d => (d :: (takeDigits cs).1, (takeDigits cs).2)
    | none => ([], c :: cs)

theorem takeDigits_length_le (cs : List Char) : (takeDigits cs).2.length ≤ cs.length := by
  induction cs with
  | nil => simp [takeDigits]
  | cons c cs ih =>
    unfold takeDigits
    split
    · exact Nat.le_succ_of_le ih
    · exact Nat.le_refl _

/-- The exponent of a numeral: its sign and its digits. -/
structure Exponent where
  negative : Bool
  digits : List Digit
  deriving DecidableEq, Repr

/-- The spelling of a number. An empty `fraction` means that there is none. -/
structure Numeral where
  negative : Bool
  whole : List Digit
  fraction : List Digit
  exponent : Option Exponent
  deriving DecidableEq, Repr

/-- A number as a reader gets it. -/
inductive Number where
  | integer (value : Int)
  | float (value : Float)

namespace Numeral

/-! ## Scanning -/

/-- The whole part: a zero alone, or digits that do not start with a zero. -/
def scanWhole (cs : List Char) : Except Break (List Digit × List Char) :=
  match takeDigits cs with
  | ([], rest) => .error (.noDigit rest)
  | ([d], rest) => .ok ([d], rest)
  | (d :: ds, rest) => if d = 0 then .error .malformed else .ok (d :: ds, rest)

/-- The fraction, if a point follows: at least one digit. -/
def scanFraction : List Char → Except Break (List Digit × List Char)
  | '.' :: cs =>
    match takeDigits cs with
    | ([], rest) => .error (.noDigit rest)
    | (ds, rest) => .ok (ds, rest)
  | cs => .ok ([], cs)

/-- The sign of an exponent, by default positive. -/
def scanSign : List Char → Bool × List Char
  | '+' :: cs => (false, cs)
  | '-' :: cs => (true, cs)
  | cs => (false, cs)

/-- The digits of an exponent whose letter has been taken. -/
def scanExponentDigits (cs : List Char) : Except Break (Option Exponent × List Char) :=
  match takeDigits (scanSign cs).2 with
  | ([], rest) => .error (.noDigit rest)
  | (ds, rest) => .ok (some ⟨(scanSign cs).1, ds⟩, rest)

/-- The exponent, if the letter for one follows. -/
def scanExponent : List Char → Except Break (Option Exponent × List Char)
  | 'e' :: cs => scanExponentDigits cs
  | 'E' :: cs => scanExponentDigits cs
  | cs => .ok (none, cs)

/-- Takes an unsigned numeral off the front of a text. -/
def scanUnsigned (negative : Bool) (cs : List Char) : Except Break (Numeral × List Char) := do
  let (whole, cs) ← scanWhole cs
  let (fraction, cs) ← scanFraction cs
  let (exponent, cs) ← scanExponent cs
  return (⟨negative, whole, fraction, exponent⟩, cs)

def scan : List Char → Except Break (Numeral × List Char)
  | '-' :: cs => scanUnsigned true cs
  | cs => scanUnsigned false cs

/-! ## Values -/

/-- What the digits collected so far must stay below. -/
def capacity : Nat := UInt64.size

/-- Appends digits to a whole number while it stays below `capacity`. Answers the
number and how many digits did not fit: the first that does not, and all after it. -/
def collect (n : Nat) : List Digit → Nat × Nat
  | [] => (n, 0)
  | d :: ds => if n * 10 + d.val < capacity then collect (n * 10 + d.val) ds else (n, ds.length + 1)

def natOfDigits (ds : List Digit) : Nat := ds.foldl (fun n d => n * 10 + d.val) 0

/-- The power of ten with exponent `n`, as a double. -/
def powerOfTen (n : Nat) : Float := Float.ofScientific 1 false n

/-- Divides by the power of ten with exponent `n`. Doubles have no power of ten
above 308, so larger exponents are worked off in parts, until nothing is left. -/
def divideByPower (x : Float) (n : Nat) : Float :=
  if n ≤ 308 then x / powerOfTen n
  else if x == 0 then x
  else divideByPower (x / powerOfTen 308) (n - 308)
termination_by n

/-- Multiplies by a power of ten; `none` if the result is too large for a double. -/
def multiplyByPower (x : Float) (n : Nat) : Option Float :=
  if n ≤ 308 then
    let y := x * powerOfTen n
    if y.isInf then none else some y
  else if x == 0 then some x
  else none

/-- The double `significand * 10 ^ exponent`. -/
def scale (significand : Nat) (exponent : Int) : Option Float :=
  let x := (UInt64.ofNat significand).toFloat
  if exponent < 0 then some (divideByPower x exponent.natAbs)
  else multiplyByPower x exponent.natAbs

/-- The signed exponent that a numeral spells, zero if it spells none. -/
def exponentValue : Option Exponent → Int
  | none => 0
  | some e => if e.negative then -(natOfDigits e.digits : Int) else natOfDigits e.digits

/-- The size of a numeral as a double. -/
def magnitude (n : Numeral) : Option Float :=
  let (front, dropped) := collect 0 n.whole
  let (significand, unused) := collect front n.fraction
  let taken := n.fraction.length - unused
  scale significand (exponentValue n.exponent + dropped - taken)

/-- The value of a numeral that is spelled as a whole number and small enough. -/
def integer? (n : Numeral) : Option Int :=
  if n.fraction ≠ [] ∨ n.exponent ≠ none then none
  else
    let size := natOfDigits n.whole
    if n.negative then
      if 0 < size ∧ size ≤ capacity / 2 then some (-(size : Int)) else none
    else if size < capacity then some size
    else none

/-- The value of a numeral; `none` if it is too large. -/
def value (n : Numeral) : Option Number :=
  match n.integer? with
  | some i => some (.integer i)
  | none => n.magnitude.map fun x => .float (if n.negative then -x else x)

/-! ## Scanning makes progress -/

theorem takeDigits_length_lt {cs rest : List Char} {d : Digit} {ds : List Digit}
    (h : takeDigits cs = (d :: ds, rest)) : rest.length < cs.length := by
  cases cs with
  | nil => simp [takeDigits] at h
  | cons c cs =>
    unfold takeDigits at h
    split at h
    · simp only [Prod.mk.injEq] at h
      obtain ⟨_, rfl⟩ := h
      exact Nat.lt_succ_of_le (takeDigits_length_le cs)
    · simp at h

theorem scanWhole_length_lt {cs rest : List Char} {ds : List Digit}
    (h : scanWhole cs = .ok (ds, rest)) : rest.length < cs.length := by
  unfold scanWhole at h
  split at h
  · simp at h
  · rename_i ht
    simp only [Except.ok.injEq, Prod.mk.injEq] at h
    obtain ⟨_, rfl⟩ := h
    exact takeDigits_length_lt ht
  · rename_i ht
    split at h
    · simp at h
    · simp only [Except.ok.injEq, Prod.mk.injEq] at h
      obtain ⟨_, rfl⟩ := h
      exact takeDigits_length_lt ht

theorem scanFraction_length_le {cs rest : List Char} {ds : List Digit}
    (h : scanFraction cs = .ok (ds, rest)) : rest.length ≤ cs.length := by
  unfold scanFraction at h
  split at h
  · split at h
    · simp at h
    · rename_i tail _ _ _ _ ht
      simp only [Except.ok.injEq, Prod.mk.injEq] at h
      obtain ⟨_, rfl⟩ := h
      have hle := takeDigits_length_le tail
      rw [ht] at hle
      exact Nat.le_succ_of_le hle
  · simp only [Except.ok.injEq, Prod.mk.injEq] at h
    obtain ⟨_, rfl⟩ := h
    exact Nat.le_refl _

theorem scanSign_length_le (cs : List Char) : (scanSign cs).2.length ≤ cs.length := by
  unfold scanSign
  split <;> simp

theorem scanExponentDigits_length_le {cs rest : List Char} {e : Option Exponent}
    (h : scanExponentDigits cs = .ok (e, rest)) : rest.length ≤ cs.length := by
  unfold scanExponentDigits at h
  split at h
  · simp at h
  · rename_i ht
    simp only [Except.ok.injEq, Prod.mk.injEq] at h
    obtain ⟨_, rfl⟩ := h
    have hle := takeDigits_length_le (scanSign cs).2
    rw [ht] at hle
    exact Nat.le_trans hle (scanSign_length_le cs)

theorem scanExponent_length_le {cs rest : List Char} {e : Option Exponent}
    (h : scanExponent cs = .ok (e, rest)) : rest.length ≤ cs.length := by
  unfold scanExponent at h
  split at h
  · exact Nat.le_succ_of_le (scanExponentDigits_length_le h)
  · exact Nat.le_succ_of_le (scanExponentDigits_length_le h)
  · simp only [Except.ok.injEq, Prod.mk.injEq] at h
    obtain ⟨_, rfl⟩ := h
    exact Nat.le_refl _

theorem scanUnsigned_length_lt {negative : Bool} {cs rest : List Char} {n : Numeral}
    (h : scanUnsigned negative cs = .ok (n, rest)) : rest.length < cs.length := by
  unfold scanUnsigned at h
  cases hw : scanWhole cs with
  | error b => simp [hw, bind, Except.bind] at h
  | ok w =>
    obtain ⟨whole, afterWhole⟩ := w
    cases hf : scanFraction afterWhole with
    | error b => simp [hw, hf, bind, Except.bind] at h
    | ok f =>
      obtain ⟨fraction, afterFraction⟩ := f
      cases he : scanExponent afterFraction with
      | error b => simp [hw, hf, he, bind, Except.bind] at h
      | ok e =>
        obtain ⟨exponent, afterExponent⟩ := e
        simp only [hw, hf, he, bind, Except.bind, pure, Except.pure, Except.ok.injEq,
          Prod.mk.injEq] at h
        obtain ⟨_, rfl⟩ := h
        have h₁ := scanWhole_length_lt hw
        have h₂ := scanFraction_length_le hf
        have h₃ := scanExponent_length_le he
        omega

/-- Scanning always takes something off the text. -/
theorem scan_length_lt {cs rest : List Char} {n : Numeral}
    (h : scan cs = .ok (n, rest)) : rest.length < cs.length := by
  unfold scan at h
  split at h
  · exact Nat.lt_succ_of_lt (scanUnsigned_length_lt h)
  · exact scanUnsigned_length_lt h

end Numeral

end BlockThreads.Json
