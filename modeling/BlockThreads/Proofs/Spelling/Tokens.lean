import Mathlib.Data.List.Chain
import BlockThreads.Json.Token
import BlockThreads.Proofs.Spelling.Literals
import BlockThreads.Proofs.Spelling.Numerals

/-!
# How tokens are written

A JSON text is a sequence of tokens with blanks anywhere between them. Cutting a text into
tokens is the way back: it finds the tokens that are written, and what it finds is written.
The way back is not quite unique, since two numbers in a row can be taken for one; but a
number is never followed by a number where a document is written.

Results:
1. `scan_of_written`: a text that spells tokens is cut into these tokens, whatever follows.
2. `written_of_scan`: the tokens that a text is cut into are spelled, up to the first that
   says that the text breaks.
-/

namespace BlockThreads.Json.Token

/-! ## Spellings -/

/-- The spellings of a token. -/
inductive Spelled : Token → List Char → Prop
  | mark {c : Char} {t : Token} : ofMark? c = some t → Spelled t [c]
  | word {c : Char} {t : Token} {cs : List Char} : ofWord? c = some (cs, t) → Spelled t (c :: cs)
  | number {n : Numeral} {cs : List Char} : n.Spelled cs → Spelled (.number n) cs
  | text {content : Option (List Char)} {cs : List Char} : Literal.Spelled content cs →
      Spelled (.text (content.map String.ofList)) ('"' :: (cs ++ ['"']))

/-- A text is made of the spellings of tokens, with blanks anywhere between them. -/
inductive Written : List Token → List Char → Prop
  | nil : Written [] []
  | blank {c : Char} {ts : List Token} {cs : List Char} : isBlank c → Written ts cs →
      Written ts (c :: cs)
  | token {t : Token} {ts : List Token} {front back : List Char} : t.Spelled front →
      Written ts back → Written (t :: ts) (front ++ back)

def IsNumber : Token → Prop
  | .number _ => True
  | _ => False

/-- No number is followed by a number: the two could be taken for one. -/
def Apart : List Token → Prop := List.IsChain fun s t => s.IsNumber → ¬ t.IsNumber

/-- The token does not say that the text breaks. -/
def IsSound : Token → Prop
  | .broken _ => False
  | .brokenText _ => False
  | _ => True

/-! ## Scanning finds what is spelled -/

theorem isBlank_of_ofMark? {c : Char} {t : Token} (h : ofMark? c = some t) :
    isBlank c = false := by
  unfold ofMark? at h
  split at h
  all_goals first | rfl | cases h

theorem ofMark?_of_ofWord? {c : Char} {t : Token} {cs : List Char}
    (h : ofWord? c = some (cs, t)) : isBlank c = false ∧ ofMark? c = none := by
  unfold ofWord? at h
  split at h
  all_goals first | exact ⟨rfl, rfl⟩ | cases h

theorem scanWord_append (word rest : List Char) : scanWord word (word ++ rest) = .ok rest := by
  induction word with
  | nil => rfl
  | cons c word ih =>
    rw [List.cons_append, scanWord, if_pos rfl]
    exact ih

theorem scan_mark {c : Char} {t : Token} (h : ofMark? c = some t) (rest : List Char) :
    scan (c :: rest) = t :: scan rest := by
  rw [scan]
  simp only [isBlank_of_ofMark? h, h, Bool.false_eq_true, if_false]

theorem scan_word {c : Char} {t : Token} {word : List Char} (h : ofWord? c = some (word, t))
    (rest : List Char) : scan (c :: (word ++ rest)) = t :: scan rest := by
  obtain ⟨hblank, hmark⟩ := ofMark?_of_ofWord? h
  rw [scan]
  simp only [hblank, hmark, h, Bool.false_eq_true, if_false]
  split
  · next hscan =>
    rw [scanWord_append] at hscan
    cases hscan
    rfl
  · next hscan =>
    rw [scanWord_append] at hscan
    cases hscan

theorem scan_text {content : Option (List Char)} {cs : List Char}
    (h : Literal.Spelled content cs) (rest : List Char) :
    scan ('"' :: (cs ++ '"' :: rest)) = .text (content.map String.ofList) :: scan rest := by
  rw [scan]
  simp only [show isBlank '"' = false from rfl, show ofMark? '"' = none from rfl,
    show ofWord? '"' = none from rfl, Bool.false_eq_true, if_false, if_true]
  split
  · next hscan =>
    rw [Literal.scan_of_spelled h] at hscan
    cases hscan
    rfl
  · next hscan =>
    rw [Literal.scan_of_spelled h] at hscan
    cases hscan

/-- The character that a number starts with is a sign or a digit. -/
theorem exists_first {n : Numeral} {cs : List Char} (h : n.Spelled cs) :
    ∃ c tail, cs = c :: tail ∧ (c = '-' ∨ ∃ d, c = digitChar d) := by
  cases h with
  | @mk negative whole fraction exponent tail hwhole _ =>
    cases negative with
    | true => exact ⟨'-', _, rfl, .inl rfl⟩
    | false =>
      obtain ⟨d, ds, rfl⟩ := List.exists_cons_of_ne_nil hwhole.ne_nil
      exact ⟨digitChar d, _, rfl, .inr ⟨d, rfl⟩⟩

theorem digitChar_class (d : Digit) : isBlank (digitChar d) = false ∧
    (ofMark? (digitChar d)).isNone ∧ (ofWord? (digitChar d)).isNone ∧ digitChar d ≠ '"' := by
  revert d
  decide

theorem scan_number {n : Numeral} {cs rest : List Char} (h : n.Spelled cs)
    (hrest : Numeral.Ends rest) : scan (cs ++ rest) = .number n :: scan rest := by
  obtain ⟨c, tail, rfl, hc⟩ := exists_first h
  have hclass : isBlank c = false ∧ ofMark? c = none ∧ ofWord? c = none ∧ c ≠ '"' := by
    rcases hc with rfl | ⟨d, rfl⟩
    · exact ⟨rfl, rfl, rfl, by decide⟩
    · obtain ⟨hblank, hmark, hword, hquote⟩ := digitChar_class d
      exact ⟨hblank, Option.isNone_iff_eq_none.mp hmark, Option.isNone_iff_eq_none.mp hword,
        hquote⟩
  obtain ⟨hblank, hmark, hword, hquote⟩ := hclass
  have hscanned := Numeral.scan_of_spelled h hrest
  rw [List.cons_append] at hscanned ⊢
  rw [scan]
  simp only [hblank, hmark, hword, hquote, Bool.false_eq_true, if_false]
  split
  · next hscan =>
    rw [hscanned] at hscan
    cases hscan
    rfl
  · next hscan =>
    rw [hscanned] at hscan
    cases hscan

theorem scan_token {t : Token} {front rest : List Char} (h : t.Spelled front)
    (hrest : t.IsNumber → Numeral.Ends rest) : scan (front ++ rest) = t :: scan rest := by
  cases h with
  | mark hmark => exact scan_mark hmark rest
  | word hword => exact scan_word hword rest
  | number hn => exact scan_number hn (hrest trivial)
  | text hcontent =>
    rw [List.cons_append, List.append_assoc]
    exact scan_text hcontent rest

theorem ends_cons {c : Char} (cs : List Char)
    (h : digit? c = none ∧ c ≠ '.' ∧ c ≠ 'e' ∧ c ≠ 'E') : Numeral.Ends (c :: cs) where
  noDigit _ hc := Option.some.inj hc ▸ h.1
  noPoint _ hc := Option.some.inj hc ▸ h.2.1
  noLetter _ hc := Option.some.inj hc ▸ h.2.2

theorem ends_blank {c : Char} (h : isBlank c) (cs : List Char) : Numeral.Ends (c :: cs) := by
  refine ends_cons cs ?_
  simp only [isBlank, Bool.or_eq_true, beq_iff_eq] at h
  rcases h with ((rfl | rfl) | rfl) | rfl
  all_goals decide

theorem ends_spelled {t : Token} {front : List Char} (h : t.Spelled front) (ht : ¬ t.IsNumber)
    (rest : List Char) : Numeral.Ends (front ++ rest) := by
  cases h with
  | number => exact absurd trivial ht
  | @mark c t hc =>
    refine ends_cons rest ?_
    unfold ofMark? at hc
    split at hc
    all_goals first | decide | cases hc
  | @word c t cs hc =>
    refine ends_cons (cs ++ rest) ?_
    unfold ofWord? at hc
    split at hc
    all_goals first | decide | cases hc
  | text => exact ends_cons _ (by decide)

theorem ends_written {ts : List Token} {front rest : List Char} (h : Written ts front)
    (hfirst : ∀ t ∈ ts.head?, ¬ t.IsNumber) (hrest : ts = [] → Numeral.Ends rest) :
    Numeral.Ends (front ++ rest) := by
  cases h with
  | nil => exact hrest rfl
  | blank hc => exact ends_blank hc _
  | token ht =>
    rw [List.append_assoc]
    exact ends_spelled ht (hfirst _ rfl) _

/-- A text that spells tokens is cut into these tokens, whatever follows, unless it follows a
number that could go on there. -/
theorem scan_of_written {ts : List Token} {front rest : List Char} (h : Written ts front)
    (hapart : Apart ts) (hrest : ∀ t ∈ ts.getLast?, t.IsNumber → Numeral.Ends rest) :
    scan (front ++ rest) = ts ++ scan rest := by
  induction h with
  | nil => rfl
  | blank hc _ ih => rw [List.cons_append, scan_blank _ hc, ih hapart hrest]
  | @token t ts front back ht hback ih =>
    have hnext : t.IsNumber → Numeral.Ends (back ++ rest) := fun hnumber =>
      ends_written hback (fun s hs => (List.isChain_cons.mp hapart).1 s hs hnumber)
        fun hnil => hrest t (by rw [hnil]; rfl) hnumber
    have hlast : ∀ s ∈ ts.getLast?, s.IsNumber → Numeral.Ends rest := by
      intro s hs
      cases ts with
      | nil => cases hs
      | cons u ts => exact hrest s (by rw [List.getLast?_cons_cons]; exact hs)
    rw [List.append_assoc, scan_token ht hnext, ih (List.isChain_cons.mp hapart).2 hlast]
    rfl

/-! ## What is scanned is spelled -/

theorem eq_of_scanWord {word cs rest : List Char} (h : scanWord word cs = .ok rest) :
    cs = word ++ rest := by
  fun_induction scanWord word cs with
  | case1 cs =>
    cases h
    rfl
  | case2 | case4 => cases h
  | case3 _ _ _ ih => rw [ih h, List.cons_append]

theorem Written.append {ts us : List Token} {front back : List Char} (h : Written ts front)
    (h' : Written us back) : Written (ts ++ us) (front ++ back) := by
  induction h with
  | nil => exact h'
  | blank hc _ ih => exact .blank hc ih
  | token ht _ ih =>
    rw [List.append_assoc]
    exact .token ht ih

theorem written_single {t : Token} {front : List Char} (h : t.Spelled front) :
    Written [t] front := by
  have hwritten := Written.token h .nil
  rwa [List.append_nil] at hwritten

/-- The first token that a text is cut into is spelled in front, if it does not say that the
text breaks. -/
theorem first_of_scan {cs : List Char} {t : Token} {us : List Token} (h : scan cs = t :: us)
    (hsound : t.IsSound) :
    ∃ front back, cs = front ++ back ∧ Written [t] front ∧ scan back = us := by
  fun_induction scan cs with
  | case1 => cases h
  | case2 c cs hc ih =>
    obtain ⟨front, back, rfl, hfront, hback⟩ := ih h
    exact ⟨c :: front, back, rfl, .blank hc hfront, hback⟩
  | case3 c cs _ t hmark =>
    cases h
    exact ⟨[c], cs, rfl, written_single (.mark hmark), rfl⟩
  | case4 c cs _ _ word t hword rest hscan =>
    cases h
    exact ⟨c :: word, rest, by rw [eq_of_scanWord hscan, List.cons_append],
      written_single (.word hword), rfl⟩
  | case6 cs content rest hscan =>
    cases h
    obtain ⟨inner, front, hfront, rfl, rfl⟩ := Literal.spelled_of_scan hscan
    refine ⟨'"' :: (front ++ ['"']), rest, ?_, written_single (.text hfront), rfl⟩
    rw [List.cons_append, List.append_assoc]
    rfl
  | case8 c cs _ _ _ _ n rest hscan =>
    cases h
    obtain ⟨front, hfront, hcs⟩ := Numeral.spelled_of_scan hscan
    exact ⟨front, rest, hcs, written_single (.number hfront), rfl⟩
  | case5 | case7 | case9 =>
    cases h
    exact hsound.elim

/-- The tokens that a text is cut into are spelled, up to the first that says that the text
breaks. -/
theorem written_of_scan {cs : List Char} {ts us : List Token} (h : scan cs = ts ++ us)
    (hsound : ∀ t ∈ ts, t.IsSound) :
    ∃ front back, cs = front ++ back ∧ Written ts front ∧ scan back = us := by
  induction ts generalizing cs with
  | nil => exact ⟨[], cs, rfl, .nil, h⟩
  | cons t ts ih =>
    obtain ⟨first, mid, rfl, hfirst, hmid⟩ := first_of_scan h (hsound t List.mem_cons_self)
    obtain ⟨front, back, rfl, hfront, hback⟩ :=
      ih hmid fun s hs => hsound s (List.mem_cons_of_mem _ hs)
    exact ⟨first ++ front, back, (List.append_assoc ..).symm, hfirst.append hfront, hback⟩

/-- Only blanks are cut into no tokens. -/
theorem written_nil_of_scan {cs : List Char} (h : scan cs = []) : Written [] cs := by
  fun_induction scan cs with
  | case1 => exact .nil
  | case2 c cs hc ih => exact .blank hc (ih h)
  | _ => cases h

end BlockThreads.Json.Token
