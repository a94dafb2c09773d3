import BlockThreads.Json.Numeral

/-!
# How numbers are spelled

A number is spelled by its sign, the digits of its whole part, its fraction and its exponent.
The sign of a positive exponent may be left out, and its letter may be large or small; all
else has one spelling. This module says so without a word about scanning, and shows that
scanning finds exactly the numbers that are spelled.

Results:
1. `scan_of_spelled`: a number that is spelled at the front of a text is scanned, unless the
   text goes on with something that a number can go on with.
2. `spelled_of_scan`: a number that is scanned is spelled at the front of the text.
-/

namespace BlockThreads.Json

/-! ## Digits -/

def digitChar (d : Digit) : Char := Char.ofNat (48 + d.val)

def digitChars (ds : List Digit) : List Char := ds.map digitChar

/-- The text does not go on with a digit. -/
def NoDigit (cs : List Char) : Prop := ∀ c ∈ cs.head?, digit? c = none

theorem digit?_digitChar (d : Digit) : digit? (digitChar d) = some d := by
  revert d
  decide

theorem digitChar_of_digit? {c : Char} {d : Digit} (h : digit? c = some d) : digitChar d = c := by
  unfold digit? at h
  split at h
  · next hc =>
    cases h
    have hcode : 48 + (c.toNat - 48) = c.toNat := by omega
    rw [digitChar, hcode, Char.ofNat_toNat]
  · cases h

theorem takeDigits_digitChars (ds : List Digit) {rest : List Char} (h : NoDigit rest) :
    takeDigits (digitChars ds ++ rest) = (ds, rest) := by
  induction ds with
  | nil =>
    cases rest with
    | nil => rfl
    | cons c cs =>
      have hc : digit? c = none := h c rfl
      simp only [digitChars, List.map_nil, List.nil_append, takeDigits, hc]
  | cons d ds ih =>
    show takeDigits (digitChar d :: (digitChars ds ++ rest)) = _
    simp only [takeDigits, digit?_digitChar, ih]

theorem eq_of_takeDigits {cs rest : List Char} {ds : List Digit}
    (h : takeDigits cs = (ds, rest)) : cs = digitChars ds ++ rest := by
  induction cs generalizing ds rest with
  | nil =>
    cases h
    rfl
  | cons c cs ih =>
    unfold takeDigits at h
    split at h
    · next d hd =>
      cases h
      show _ = digitChar d :: (digitChars _ ++ _)
      rw [← ih rfl, digitChar_of_digit? hd]
    · cases h
      rfl

/-! ## Numerals -/

namespace Numeral

/-- The digits of a whole part: one at least, and a zero in front only if it is alone. -/
structure IsWhole (ds : List Digit) : Prop where
  ne_nil : ds ≠ []
  zero_alone : ds.head? = some 0 → ds.length = 1

/-- The fraction with its point, if there is one. -/
def fractionChars : List Digit → List Char
  | [] => []
  | d :: ds => '.' :: digitChars (d :: ds)

/-- The signs of an exponent. A positive one may go without. -/
inductive SignSpelled : Bool → List Char → Prop
  | bare : SignSpelled false []
  | plus : SignSpelled false ['+']
  | minus : SignSpelled true ['-']

/-- The spellings of an exponent, if there is one. -/
inductive ExponentSpelled : Option Exponent → List Char → Prop
  | none : ExponentSpelled none []
  | some {letter : Char} {sign : List Char} {negative : Bool} {digits : List Digit} :
      letter = 'e' ∨ letter = 'E' → SignSpelled negative sign → digits ≠ [] →
      ExponentSpelled (some ⟨negative, digits⟩) (letter :: (sign ++ digitChars digits))

/-- The spellings of a number. -/
inductive Spelled : Numeral → List Char → Prop
  | mk {negative : Bool} {whole fraction : List Digit} {exponent : Option Exponent}
      {tail : List Char} : IsWhole whole → ExponentSpelled exponent tail →
      Spelled ⟨negative, whole, fraction, exponent⟩
        ((if negative then ['-'] else []) ++
          (digitChars whole ++ (fractionChars fraction ++ tail)))

/-- The text does not go on with anything that a number can go on with. -/
structure Ends (cs : List Char) : Prop where
  noDigit : NoDigit cs
  noPoint : ∀ c ∈ cs.head?, c ≠ '.'
  noLetter : ∀ c ∈ cs.head?, c ≠ 'e' ∧ c ≠ 'E'

/-- No number can go on behind the end of the text. -/
theorem ends_nil : Ends [] where
  noDigit _ h := by cases h
  noPoint _ h := by cases h
  noLetter _ h := by cases h

/-! ### Scanning finds what is spelled -/

theorem scanWhole_digitChars {ds : List Digit} {rest : List Char} (hds : IsWhole ds)
    (hrest : NoDigit rest) : scanWhole (digitChars ds ++ rest) = .ok (ds, rest) := by
  unfold scanWhole
  rw [takeDigits_digitChars ds hrest]
  cases ds with
  | nil => exact absurd rfl hds.ne_nil
  | cons d ds =>
    cases ds with
    | nil => rfl
    | cons e ds =>
      have hd : d ≠ 0 := fun h => by simpa using hds.zero_alone (congrArg some h)
      exact if_neg hd

theorem scanFraction_fractionChars (ds : List Digit) {rest : List Char} (hrest : NoDigit rest)
    (hpoint : ∀ c ∈ rest.head?, c ≠ '.') :
    scanFraction (fractionChars ds ++ rest) = .ok (ds, rest) := by
  cases ds with
  | nil =>
    show scanFraction rest = _
    unfold scanFraction
    split
    · exact absurd rfl (hpoint _ rfl)
    · rfl
  | cons d ds =>
    show scanFraction ('.' :: (digitChars (d :: ds) ++ rest)) = _
    rw [scanFraction, takeDigits_digitChars _ hrest]

theorem scanSign_of_spelled {negative : Bool} {sign cs : List Char}
    (h : SignSpelled negative sign) (hcs : ∀ c ∈ cs.head?, c ≠ '+' ∧ c ≠ '-') :
    scanSign (sign ++ cs) = (negative, cs) := by
  cases h with
  | plus | minus => rfl
  | bare =>
    show scanSign cs = _
    unfold scanSign
    split
    · exact absurd rfl (hcs _ rfl).1
    · exact absurd rfl (hcs _ rfl).2
    · rfl

theorem digitChar_ne (d : Digit) : digitChar d ≠ '+' ∧ digitChar d ≠ '-' := by
  revert d
  decide

theorem scanExponent_of_spelled {e : Option Exponent} {tail rest : List Char}
    (h : ExponentSpelled e tail) (hrest : Ends rest) :
    scanExponent (tail ++ rest) = .ok (e, rest) := by
  cases h with
  | none =>
    show scanExponent rest = _
    unfold scanExponent
    split
    · exact absurd rfl (hrest.noLetter _ rfl).1
    · exact absurd rfl (hrest.noLetter _ rfl).2
    · rfl
  | @some letter sign negative digits hletter hsign hdigits =>
    obtain ⟨d, ds, rfl⟩ := List.exists_cons_of_ne_nil hdigits
    have hscan : scanExponentDigits (sign ++ digitChars (d :: ds) ++ rest) =
        .ok (some ⟨negative, d :: ds⟩, rest) := by
      have hsigned : scanSign (sign ++ (digitChars (d :: ds) ++ rest)) =
          (negative, digitChars (d :: ds) ++ rest) :=
        scanSign_of_spelled hsign fun c hc => by
          cases hc
          exact digitChar_ne d
      rw [scanExponentDigits, List.append_assoc, hsigned]
      dsimp only
      rw [takeDigits_digitChars _ hrest.noDigit]
    rcases hletter with rfl | rfl
    · exact hscan
    · exact hscan

theorem noDigit_tail {e : Option Exponent} {tail rest : List Char} (h : ExponentSpelled e tail)
    (hrest : Ends rest) :
    NoDigit (tail ++ rest) ∧ ∀ c ∈ (tail ++ rest).head?, c ≠ '.' := by
  cases h with
  | none => exact ⟨hrest.noDigit, hrest.noPoint⟩
  | some hletter =>
    refine ⟨fun c hc => ?_, fun c hc => ?_⟩
    · cases hc
      rcases hletter with rfl | rfl <;> rfl
    · cases hc
      rcases hletter with rfl | rfl <;> decide

theorem noDigit_fractionChars (ds : List Digit) {rest : List Char} (h : NoDigit rest) :
    NoDigit (fractionChars ds ++ rest) := by
  cases ds with
  | nil => exact h
  | cons d ds =>
    intro c hc
    cases hc
    rfl

theorem scanUnsigned_of_spelled (negative : Bool) {whole : List Digit} (fraction : List Digit)
    {exponent : Option Exponent} {tail rest : List Char} (hwhole : IsWhole whole)
    (htail : ExponentSpelled exponent tail) (hrest : Ends rest) :
    scanUnsigned negative (digitChars whole ++ (fractionChars fraction ++ (tail ++ rest))) =
      .ok (⟨negative, whole, fraction, exponent⟩, rest) := by
  obtain ⟨hdigit, hpoint⟩ := noDigit_tail htail hrest
  simp only [scanUnsigned, scanWhole_digitChars hwhole (noDigit_fractionChars fraction hdigit),
    scanFraction_fractionChars fraction hdigit hpoint, scanExponent_of_spelled htail hrest,
    bind, Except.bind, pure, Except.pure]

/-- A number that is spelled at the front of a text is scanned. -/
theorem scan_of_spelled {n : Numeral} {front rest : List Char} (h : n.Spelled front)
    (hrest : Ends rest) : scan (front ++ rest) = .ok (n, rest) := by
  cases h with
  | @mk negative whole fraction exponent tail hwhole htail =>
    have hscan := scanUnsigned_of_spelled negative fraction hwhole htail hrest
    cases negative with
    | true =>
      show scanUnsigned true (digitChars whole ++ (fractionChars fraction ++ tail) ++ rest) = _
      simpa only [List.append_assoc] using hscan
    | false =>
      obtain ⟨d, ds, rfl⟩ := List.exists_cons_of_ne_nil hwhole.ne_nil
      -- the first character is a digit, so it is not taken for a sign
      show scan (digitChar d :: (digitChars ds ++ (fractionChars fraction ++ tail) ++ rest)) = _
      rw [scan.eq_2 _ fun cs hcs => (digitChar_ne d).2 (List.cons.inj hcs).1]
      simpa only [digitChars, List.map_cons, List.cons_append, List.append_assoc] using hscan

/-! ### What is scanned is spelled -/

theorem whole_of_scan {cs rest : List Char} {ds : List Digit}
    (h : scanWhole cs = .ok (ds, rest)) : IsWhole ds ∧ cs = digitChars ds ++ rest := by
  unfold scanWhole at h
  split at h
  · cases h
  · next htake =>
    cases h
    exact ⟨⟨List.cons_ne_nil _ _, fun _ => rfl⟩, eq_of_takeDigits htake⟩
  · next htake =>
    split at h
    · cases h
    · next hd =>
      cases h
      exact ⟨⟨List.cons_ne_nil _ _, fun hzero => absurd (Option.some.inj hzero) hd⟩,
        eq_of_takeDigits htake⟩

theorem fraction_of_scan {cs rest : List Char} {ds : List Digit}
    (h : scanFraction cs = .ok (ds, rest)) : cs = fractionChars ds ++ rest := by
  unfold scanFraction at h
  split at h
  · split at h
    · cases h
    · next hnil htake =>
      cases h
      cases ds with
      | nil => exact (hnil rfl).elim
      | cons d ds => exact congrArg ('.' :: ·) (eq_of_takeDigits htake)
  · cases h
    rfl

theorem sign_of_scan (cs : List Char) :
    ∃ sign, SignSpelled (scanSign cs).1 sign ∧ cs = sign ++ (scanSign cs).2 := by
  unfold scanSign
  split
  · exact ⟨_, .plus, rfl⟩
  · exact ⟨_, .minus, rfl⟩
  · exact ⟨_, .bare, rfl⟩

theorem exponent_of_scan {cs rest : List Char} {e : Option Exponent}
    (h : scanExponent cs = .ok (e, rest)) :
    ∃ tail, ExponentSpelled e tail ∧ cs = tail ++ rest := by
  have hdigits : ∀ {letter : Char} {cs : List Char}, letter = 'e' ∨ letter = 'E' →
      scanExponentDigits cs = .ok (e, rest) →
      ∃ tail, ExponentSpelled e tail ∧ letter :: cs = tail ++ rest := by
    intro letter cs hletter hscan
    obtain ⟨sign, hsign, hcs⟩ := sign_of_scan cs
    unfold scanExponentDigits at hscan
    split at hscan
    · cases hscan
    · next hnil htake =>
      cases hscan
      refine ⟨_, .some hletter hsign hnil, ?_⟩
      rw [List.cons_append, List.append_assoc, ← eq_of_takeDigits htake, ← hcs]
  unfold scanExponent at h
  split at h
  · exact hdigits (.inl rfl) h
  · exact hdigits (.inr rfl) h
  · cases h
    exact ⟨[], .none, rfl⟩

theorem unsigned_of_scan {negative : Bool} {cs rest : List Char} {n : Numeral}
    (h : scanUnsigned negative cs = .ok (n, rest)) :
    ∃ front, n.Spelled ((if negative then ['-'] else []) ++ front) ∧ cs = front ++ rest := by
  unfold scanUnsigned at h
  cases hw : scanWhole cs with
  | error b => simp [hw, bind, Except.bind] at h
  | ok w =>
    obtain ⟨whole, afterWhole⟩ := w
    cases hf : scanFraction afterWhole with
    | error b => simp [hw, hf, bind, Except.bind] at h
    | ok f =>
      obtain ⟨fraction, afterFraction⟩ := f
      cases he : scanExponent afterFraction with
      | error b => simp [hw, hf, he, bind, Except.bind] at h
      | ok e =>
        obtain ⟨exponent, afterExponent⟩ := e
        simp only [hw, hf, he, bind, Except.bind, pure, Except.pure, Except.ok.injEq,
          Prod.mk.injEq] at h
        obtain ⟨rfl, rfl⟩ := h
        obtain ⟨hwhole, rfl⟩ := whole_of_scan hw
        obtain rfl := fraction_of_scan hf
        obtain ⟨tail, htail, rfl⟩ := exponent_of_scan he
        refine ⟨_, .mk hwhole htail, ?_⟩
        simp only [List.append_assoc]

/-- A number that is scanned is spelled at the front of the text. -/
theorem spelled_of_scan {cs rest : List Char} {n : Numeral} (h : scan cs = .ok (n, rest)) :
    ∃ front, n.Spelled front ∧ cs = front ++ rest := by
  unfold scan at h
  split at h
  · obtain ⟨front, hfront, rfl⟩ := unsigned_of_scan h
    exact ⟨_, hfront, rfl⟩
  · obtain ⟨front, hfront, rfl⟩ := unsigned_of_scan h
    exact ⟨_, hfront, rfl⟩

end Numeral

end BlockThreads.Json
