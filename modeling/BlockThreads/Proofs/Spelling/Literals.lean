import BlockThreads.Json.Literal

/-!
# How texts are spelled

A character of a text is spelled by itself, by an escape of one letter, by the four digits of
its unit, or by the two units of a pair. A unit of a pair may also stand without its partner;
then the text has no content. This module says so without a word about scanning, and shows
that scanning finds exactly the contents that are spelled.

Results:
1. `scan_of_spelled`: a content that is spelled up to a quote is scanned.
2. `spelled_of_scan`: a content that is scanned is spelled up to the quote.
-/

namespace BlockThreads.Json.Literal

/-! ## Spellings -/

/-- The spellings of a unit: four hexadecimal digits. -/
def UnitSpelled (unit : Nat) (cs : List Char) : Prop :=
  cs.length = 4 ∧ (cs.mapM hexDigit?).map (fun ds => ds.foldl (fun n d => n * 16 + d) 0) = some unit

/-- The spellings of a character: by itself, by an escape of one letter, by its unit, or by
the two units of a pair. -/
inductive CharSpelled : Char → List Char → Prop
  | plain {c : Char} : 32 ≤ c.toNat → c ≠ '"' → c ≠ '\\' → CharSpelled c [c]
  | letter {c e : Char} : escaped? e = some c → CharSpelled c ['\\', e]
  | unit {unit : Nat} {cs : List Char} : UnitSpelled unit cs → isHigh unit = false →
      isLow unit = false → CharSpelled (Char.ofNat unit) ('\\' :: 'u' :: cs)
  | pair {high low : Nat} {cs ds : List Char} : UnitSpelled high cs → UnitSpelled low ds →
      isHigh high → isLow low →
      CharSpelled (joinUnits high low) ('\\' :: 'u' :: (cs ++ '\\' :: 'u' :: ds))

/-- The text goes on with the second unit of a pair. -/
def StartsLow (cs : List Char) : Prop :=
  ∃ unit front back, UnitSpelled unit front ∧ isLow unit ∧ cs = '\\' :: 'u' :: (front ++ back)

/-- The spellings of a content, without the quotes. A unit without its partner may be spelled
too, but then there is no content. -/
inductive Spelled : Option (List Char) → List Char → Prop
  | nil : Spelled (some []) []
  | char {c : Char} {content : Option (List Char)} {front back : List Char} :
      CharSpelled c front → Spelled content back →
      Spelled (content.map (c :: ·)) (front ++ back)
  | lone {unit : Nat} {content : Option (List Char)} {front back : List Char} :
      UnitSpelled unit front → isLow unit ∨ isHigh unit ∧ ¬ StartsLow back →
      Spelled content back → Spelled none ('\\' :: 'u' :: (front ++ back))

/-- What a scanner finds that has found some characters, last first, when it comes upon some
content. -/
def found (sofar content : Option (List Char)) : Option String :=
  sofar.bind fun front => content.map fun back => String.ofList (front.reverse ++ back)

/-! ## Units -/

theorem utf8Size_of_hexDigit? {c : Char} {d : Nat} (h : hexDigit? c = some d) :
    c.utf8Size = 1 := by
  have hsmall : c.toNat < 128 := by
    unfold hexDigit? at h
    dsimp only at h
    split at h
    · omega
    · split at h
      · omega
      · split at h
        · omega
        · cases h
  exact Char.utf8Size_eq_one_iff.mpr (by
    rw [UInt32.le_iff_toNat_le]
    exact Nat.le_of_lt_succ hsmall)

theorem byteCount_of_mapM {cs : List Char} {ds : List Nat} (h : cs.mapM hexDigit? = some ds) :
    byteCount cs = cs.length := by
  have hsize : ∀ c ∈ cs, c.utf8Size = 1 := by
    intro c hc
    induction cs generalizing ds with
    | nil => cases hc
    | cons b cs ih =>
      rw [List.mapM_cons, Option.bind_eq_bind, Option.bind_eq_some_iff] at h
      obtain ⟨d, hd, h⟩ := h
      rw [Option.bind_eq_bind, Option.bind_eq_some_iff] at h
      obtain ⟨es, hes, _⟩ := h
      rcases List.mem_cons.mp hc with rfl | hc
      · exact utf8Size_of_hexDigit? hd
      · exact ih hes hc
  have hfold : ∀ (n : Nat), cs.foldl (fun n c => n + c.utf8Size) n = n + cs.length := by
    clear h
    induction cs with
    | nil => exact fun n => rfl
    | cons c cs ih =>
      intro n
      rw [List.foldl_cons, ih fun b hb => hsize b (List.mem_cons_of_mem _ hb),
        hsize c List.mem_cons_self, List.length_cons]
      omega
  rw [byteCount, hfold, Nat.zero_add]

theorem scanUnit_of_spelled {unit : Nat} {cs : List Char} (h : UnitSpelled unit cs)
    (rest : List Char) : scanUnit (cs ++ rest) = .ok unit := by
  obtain ⟨hlength, hunit⟩ := h
  obtain ⟨ds, hds, rfl⟩ := Option.map_eq_some_iff.mp hunit
  have htake : (cs ++ rest).take 4 = cs := List.take_left' hlength
  have hbytes : ¬ byteCount cs < 4 := by
    rw [byteCount_of_mapM hds, hlength]
    exact Nat.lt_irrefl 4
  rw [scanUnit, htake, if_neg hbytes, hds]

theorem spelled_of_scanUnit {unit : Nat} {cs : List Char} (h : scanUnit cs = .ok unit) :
    UnitSpelled unit (cs.take 4) := by
  unfold scanUnit at h
  split at h
  · cases h
  · next hbytes =>
    split at h
    · next ds hds =>
      cases h
      rw [byteCount_of_mapM hds] at hbytes
      refine ⟨?_, by rw [hds, Option.map_some]⟩
      have := List.length_take_le 4 cs
      omega
    · cases h

theorem isLow_of_isHigh {unit : Nat} (h : isHigh unit) : isLow unit = false := by
  simp only [isHigh, isLow, Bool.and_eq_true, decide_eq_true_eq, Bool.and_eq_false_iff,
    decide_eq_false_iff_not] at h ⊢
  omega

theorem partner_unit {unit : Nat} {cs : List Char} (h : UnitSpelled unit cs) (rest : List Char) :
    partner ('\\' :: 'u' :: (cs ++ rest)) = if isLow unit then .low unit else .missing := by
  rw [partner, scanUnit_of_spelled h]

theorem startsLow_of_partner {unit : Nat} {cs : List Char} (h : partner cs = .low unit) :
    isLow unit ∧ ∃ front back, UnitSpelled unit front ∧ cs = '\\' :: 'u' :: (front ++ back) := by
  unfold partner at h
  split at h
  · cases h
  · cases h
  · next cs =>
    split at h
    · cases h
    · next u hu =>
      split at h
      · next hlow =>
        cases h
        exact ⟨hlow, cs.take 4, cs.drop 4, spelled_of_scanUnit hu,
          by rw [List.take_append_drop]⟩
      · cases h
  · cases h

/-! ## Scanning finds what is spelled -/

theorem found_char (sofar content : Option (List Char)) (c : Char) :
    found (sofar.map (c :: ·)) content = found sofar (content.map (c :: ·)) := by
  cases sofar with
  | none => rfl
  | some front =>
    cases content with
    | none => rfl
    | some back =>
      show some (String.ofList ((c :: front).reverse ++ back)) = _
      rw [List.reverse_cons, List.append_assoc]
      rfl

theorem found_none (sofar : Option (List Char)) : found sofar none = none := by
  cases sofar <;> rfl

theorem escaped?_ne {c e : Char} (h : escaped? e = some c) : e ≠ 'u' := by
  rintro rfl
  cases h

/-- What follows a high unit within a literal is its partner or no partner. -/
theorem partner_of_spelled {content : Option (List Char)} {cs : List Char}
    (h : Spelled content cs) (rest : List Char) :
    (∃ low, StartsLow cs ∧ partner (cs ++ '"' :: rest) = .low low) ∨
      partner (cs ++ '"' :: rest) = .missing := by
  cases h with
  | nil => exact .inr rfl
  | @char c content front back hc _ =>
    refine .inr ?_
    rw [List.append_assoc]
    cases hc with
    | plain _ _ hslash =>
      show partner (c :: _) = _
      unfold partner
      split
      · next hnil => cases hnil
      · next hcs => exact absurd (List.cons.inj hcs).1 hslash
      · next hcs => exact absurd (List.cons.inj hcs).1 hslash
      · rfl
    | @letter _ e he =>
      show partner ('\\' :: e :: _) = _
      unfold partner
      split
      · next hnil => cases hnil
      · next hcs => cases hcs
      · next hcs => exact absurd (List.cons.inj (List.cons.inj hcs).2).1 (escaped?_ne he)
      · rfl
    | unit hunit _ hlow =>
      exact (partner_unit hunit _).trans (if_neg (by rw [hlow]; exact Bool.false_ne_true))
    | @pair high low cs ds hhigh _ hishigh _ =>
      have happend : ('\\' :: 'u' :: (cs ++ '\\' :: 'u' :: ds)) ++ (back ++ '"' :: rest) =
          '\\' :: 'u' :: (cs ++ ('\\' :: 'u' :: ds ++ (back ++ '"' :: rest))) := by
        simp only [List.cons_append, List.append_assoc]
      rw [happend, partner_unit hhigh, isLow_of_isHigh hishigh]
      rfl
  | @lone unit _ front back hunit hlone _ =>
    have happend : '\\' :: 'u' :: (front ++ back) ++ '"' :: rest =
        '\\' :: 'u' :: (front ++ (back ++ '"' :: rest)) := by
      simp only [List.cons_append, List.append_assoc]
    rw [happend, partner_unit hunit]
    rcases hlone with hlow | ⟨hhigh, _⟩
    · exact .inl ⟨unit, ⟨unit, front, back, hunit, hlow, rfl⟩, if_pos hlow⟩
    · exact .inr (if_neg (by rw [isLow_of_isHigh hhigh]; exact Bool.false_ne_true))

section Steps

variable {content : Option (List Char)} {rest : List Char}

theorem scanOn_plain {c : Char} (hprint : 32 ≤ c.toNat) (hquote : c ≠ '"') (hslash : c ≠ '\\') :
    scanOn content (c :: rest) = scanOn (content.map (c :: ·)) rest := by
  rw [scanOn.eq_6 content c rest hquote (fun h => absurd h hslash)
    (fun _ h => absurd h hslash) fun _ _ h => absurd h hslash]
  exact if_neg (Nat.not_lt.mpr hprint)

theorem scanOn_letter {c e : Char} (h : escaped? e = some c) :
    scanOn content ('\\' :: e :: rest) = scanOn (content.map (c :: ·)) rest := by
  rw [scanOn.eq_5 content e rest fun hu => absurd hu (escaped?_ne h), h]

/-- The text behind the four digits of a unit. -/
theorem drop_unit {unit : Nat} {cs : List Char} (h : UnitSpelled unit cs) (rest : List Char) :
    (cs ++ rest).drop 4 = rest :=
  List.drop_left' h.1

theorem scanOn_unit {unit : Nat} {cs : List Char} (h : UnitSpelled unit cs)
    (hhigh : isHigh unit = false) (hlow : isLow unit = false) :
    scanOn content ('\\' :: 'u' :: (cs ++ rest)) =
      scanOn (content.map (Char.ofNat unit :: ·)) rest := by
  rw [scanOn, scanUnit_of_spelled h, drop_unit h]
  simp only [hhigh, hlow, Bool.false_eq_true, if_false]

theorem scanOn_low {unit : Nat} {cs : List Char} (h : UnitSpelled unit cs) (hlow : isLow unit) :
    scanOn content ('\\' :: 'u' :: (cs ++ rest)) = scanOn none rest := by
  have hhigh : isHigh unit = false := by
    cases hhigh : isHigh unit with
    | false => rfl
    | true => rw [isLow_of_isHigh hhigh] at hlow; cases hlow
  rw [scanOn, scanUnit_of_spelled h, drop_unit h]
  simp only [hhigh, hlow, Bool.false_eq_true, if_false, if_true]

theorem scanOn_high {unit : Nat} {cs : List Char} (h : UnitSpelled unit cs) (hhigh : isHigh unit)
    (hpartner : partner rest = .missing) :
    scanOn content ('\\' :: 'u' :: (cs ++ rest)) = scanOn none rest := by
  rw [scanOn, scanUnit_of_spelled h, drop_unit h]
  simp only [hhigh, if_true, hpartner]

theorem scanOn_pair {high low : Nat} {cs ds : List Char} (h : UnitSpelled high cs)
    (h' : UnitSpelled low ds) (hhigh : isHigh high) (hlow : isLow low) :
    scanOn content ('\\' :: 'u' :: (cs ++ '\\' :: 'u' :: (ds ++ rest))) =
      scanOn (content.map (joinUnits high low :: ·)) rest := by
  have hdrop : (cs ++ '\\' :: 'u' :: (ds ++ rest)).drop 10 = rest := by
    have hsplit : cs ++ '\\' :: 'u' :: (ds ++ rest) = (cs ++ '\\' :: 'u' :: ds) ++ rest := by
      simp only [List.append_assoc, List.cons_append]
    rw [hsplit]
    refine List.drop_left' ?_
    simp only [List.length_append, List.length_cons, h.1, h'.1]
  have hpartner : partner ('\\' :: 'u' :: (ds ++ rest)) = .low low :=
    (partner_unit h' rest).trans (if_pos hlow)
  rw [scanOn, scanUnit_of_spelled h, drop_unit h, hdrop]
  simp only [hhigh, if_true, hpartner]

end Steps

theorem scanOn_char {c : Char} {front : List Char} (h : CharSpelled c front)
    (content : Option (List Char)) (rest : List Char) :
    scanOn content (front ++ rest) = scanOn (content.map (c :: ·)) rest := by
  cases h with
  | plain hprint hquote hslash => exact scanOn_plain hprint hquote hslash
  | letter he => exact scanOn_letter he
  | unit hunit hhigh hlow => exact scanOn_unit hunit hhigh hlow
  | pair hh hl hhigh hlow =>
    simpa only [List.cons_append, List.append_assoc] using scanOn_pair hh hl hhigh hlow

theorem scanOn_of_spelled {content : Option (List Char)} {cs : List Char}
    (h : Spelled content cs) (sofar : Option (List Char)) (rest : List Char) :
    scanOn sofar (cs ++ '"' :: rest) = .ok (found sofar content, rest) := by
  induction h generalizing sofar with
  | nil =>
    rw [List.nil_append, scanOn]
    cases sofar <;> simp [found]
  | char hc _ ih => rw [List.append_assoc, scanOn_char hc, ih, found_char]
  | @lone unit content front back hunit hlone hback ih =>
    have happend : '\\' :: 'u' :: (front ++ back) ++ '"' :: rest =
        '\\' :: 'u' :: (front ++ (back ++ '"' :: rest)) := by
      simp only [List.cons_append, List.append_assoc]
    have hscan : scanOn sofar ('\\' :: 'u' :: (front ++ (back ++ '"' :: rest))) =
        scanOn none (back ++ '"' :: rest) := by
      rcases hlone with hlow | ⟨hhigh, hstarts⟩
      · exact scanOn_low hunit hlow
      · refine scanOn_high hunit hhigh ?_
        rcases partner_of_spelled hback rest with ⟨_, hstart, _⟩ | hmissing
        · exact absurd hstart hstarts
        · exact hmissing
    rw [happend, hscan, ih, found_none]
    rfl

/-- A literal that is spelled at the front of a text, behind its first quote, is scanned. -/
theorem scan_of_spelled {content : Option (List Char)} {cs : List Char}
    (h : Spelled content cs) (rest : List Char) :
    scan (cs ++ '"' :: rest) = .ok (content.map String.ofList, rest) := by
  have hfound : found (some []) content = content.map String.ofList := by
    cases content <;> rfl
  rw [scan, scanOn_of_spelled h, hfound]

/-! ## What is scanned is spelled -/

/-- A text starts with the rest of a literal, up to the closing quote and `rest`. -/
def Closes (sofar : Option (List Char)) (content : Option String) (cs rest : List Char) : Prop :=
  ∃ inner front, Spelled inner front ∧ content = found sofar inner ∧ cs = front ++ '"' :: rest

theorem Closes.char {sofar : Option (List Char)} {content : Option String} {c : Char}
    {front cs rest : List Char} (hc : CharSpelled c front)
    (h : Closes (sofar.map (c :: ·)) content cs rest) :
    Closes sofar content (front ++ cs) rest := by
  obtain ⟨inner, back, hback, rfl, rfl⟩ := h
  exact ⟨_, _, .char hc hback, found_char sofar inner c, (List.append_assoc ..).symm⟩

theorem Closes.lone (sofar : Option (List Char)) {content : Option String} {unit : Nat}
    {front cs rest : List Char} (hunit : UnitSpelled unit front)
    (hlone : isLow unit ∨ isHigh unit ∧ ¬ StartsLow cs) (h : Closes none content cs rest) :
    Closes sofar content ('\\' :: 'u' :: (front ++ cs)) rest := by
  obtain ⟨inner, back, hback, rfl, rfl⟩ := h
  refine ⟨_, _, .lone hunit (hlone.imp_right fun hhigh => ⟨hhigh.1, fun hstart => ?_⟩) hback,
    (found_none sofar).symm, ?_⟩
  · obtain ⟨low, digits, tail, hlow, hislow, rfl⟩ := hstart
    exact hhigh.2 ⟨low, digits, tail ++ '"' :: rest, hlow, hislow, by
      simp only [List.cons_append, List.append_assoc]⟩
  · simp only [List.cons_append, List.append_assoc]

theorem closes_of_scanOn {sofar : Option (List Char)} {cs rest : List Char}
    {content : Option String} (h : scanOn sofar cs = .ok (content, rest)) :
    Closes sofar content cs rest := by
  fun_induction scanOn sofar cs with
  | case1 | case3 | case4 | case7 | case11 | case12 => cases h
  | case2 sofar rest =>
    cases h
    exact ⟨_, _, .nil, by cases sofar <;> simp [found], rfl⟩
  | case5 sofar cs unit hunit hhigh low hlow ih =>
    -- a pair: the digits of the low unit stand behind those of the high one
    obtain ⟨hislow, digits, tail, hdigits, hdrop⟩ := startsLow_of_partner hlow
    have hcs : cs = cs.take 4 ++ '\\' :: 'u' :: (digits ++ tail) := by
      rw [← hdrop, List.take_append_drop]
    have htail : cs.drop 10 = tail := by
      have hten : cs.drop 10 = (cs.drop 4).drop 6 := by rw [List.drop_drop]
      rw [hten, hdrop]
      exact List.drop_left' hdigits.1
    have hpair := Closes.char (.pair (spelled_of_scanUnit hunit) hdigits hhigh hislow) (ih h)
    rw [htail] at hpair
    rw [hcs]
    simpa only [List.cons_append, List.append_assoc] using hpair
  | case6 sofar cs unit hunit hhigh hmissing ih =>
    have hstart : ¬ StartsLow (cs.drop 4) := by
      rintro ⟨low, digits, tail, hlow, hislow, hdrop⟩
      rw [hdrop, partner_unit hlow, if_pos hislow] at hmissing
      cases hmissing
    have hlone := Closes.lone sofar (spelled_of_scanUnit hunit)
      (.inr ⟨hhigh, hstart⟩) (ih h)
    rwa [List.take_append_drop] at hlone
  | case8 sofar cs unit hunit _ hlow ih =>
    have hlone := Closes.lone sofar (spelled_of_scanUnit hunit) (.inl hlow) (ih h)
    rwa [List.take_append_drop] at hlone
  | case9 sofar cs unit hunit hhigh hlow ih =>
    have hchar := Closes.char (.unit (spelled_of_scanUnit hunit) (Bool.not_eq_true _ ▸ hhigh)
      (Bool.not_eq_true _ ▸ hlow)) (ih h)
    simpa only [List.cons_append, List.take_append_drop] using hchar
  | case10 sofar e cs _ c he ih => exact Closes.char (.letter he) (ih h)
  | case13 sofar c cs hquote hend _ hslash hprint ih =>
    refine Closes.char (.plain (Nat.le_of_not_lt hprint) hquote fun hc => ?_) (ih h)
    cases cs with
    | nil => exact hend hc rfl
    | cons e cs => exact hslash e cs hc rfl

/-- A literal that is scanned is spelled, up to its closing quote. -/
theorem spelled_of_scan {cs rest : List Char} {content : Option String}
    (h : scan cs = .ok (content, rest)) :
    ∃ inner front, Spelled inner front ∧ content = inner.map String.ofList ∧
      cs = front ++ '"' :: rest := by
  obtain ⟨inner, front, hfront, rfl, hcs⟩ := closes_of_scanOn h
  exact ⟨inner, front, hfront, by cases inner <;> rfl, hcs⟩

end BlockThreads.Json.Literal
