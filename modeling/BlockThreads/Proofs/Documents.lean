import Mathlib.Data.List.Forall2
import BlockThreads.Json.Fault
import BlockThreads.Proofs.Spelling.Tokens

/-!
# Which texts are documents

A draft that does not break anywhere is a JSON document. Its tokens are fixed: brackets around
the parts of a container, a comma between two parts, a colon behind a key. So a text spells a
document if it spells the tokens of the document, with blanks anywhere between them.

Every text has a draft. This module shows that the draft of a text is whole exactly if the
text starts with a document, and that it is that document then.

Results:
1. `Draft.build_value_iff`: whole drafts are built from their own tokens, and from no others.
2. `Draft.spelled_iff`: a text spells a document if it is cut into the document's tokens.
3. `Document.ofText_of_spelled`, `Document.spelled_of_ofText`: the draft of a text is the
   document that the text starts with.
4. `readText_of_spelled`, `readText_eq_ok_iff`: a text is read as the document that it spells.
-/

namespace BlockThreads.Json

namespace Draft

/-! ## The tokens of a document -/

/-- Nothing in the draft is broken. -/
def IsWhole (d : Draft) : Prop := d.skipped? = none

mutual

/-- The tokens that a document is written with. -/
def tokens : Draft → List Token
  | .broken _ => []
  | .null => [.null]
  | .bool b => [.bool b]
  | .number n => [.number n]
  | .text content => [.text content]
  | .list items _ => .openList :: ((itemTokens items).tail ++ [.closeList])
  | .object members _ => .openObject :: ((memberTokens members).tail ++ [.closeObject])

/-- The tokens of the items of a list, a comma before each. The first comma is not written. -/
def itemTokens : List Draft → List Token
  | [] => []
  | item :: items => .comma :: (tokens item ++ itemTokens items)

/-- The tokens of the members of an object, a comma before each. The first comma is not
written. -/
def memberTokens : List (Option String × Draft) → List Token
  | [] => []
  | (key, value) :: members =>
    .comma :: .text key :: .colon :: (tokens value ++ memberTokens members)

end

/-- A text spells a document. -/
structure Spelled (d : Draft) (cs : List Char) : Prop where
  isWhole : d.IsWhole
  written : Token.Written d.tokens cs

/-! ## Whole drafts -/

variable {d : Draft} {items : List Draft} {members : List (Option String × Draft)}
  {ending : Ending}

theorem not_isWhole_broken (why : Break) : ¬ (Draft.broken why).IsWhole := fun h => by cases h

theorem skippedItems?_eq_none_iff : skippedItems? ending items = none ↔
    ending = .closed ∧ ∀ item ∈ items, item.IsWhole := by
  induction items with
  | nil => cases ending <;> simp [skippedItems?]
  | cons item items ih =>
    simp only [skippedItems?, Option.or_eq_none_iff, ih, List.forall_mem_cons, IsWhole]
    exact and_left_comm

theorem isWhole_list :
    (Draft.list items ending).IsWhole ↔ ending = .closed ∧ ∀ item ∈ items, item.IsWhole :=
  skippedItems?_eq_none_iff

theorem skippedMembers?_eq_none_iff : skippedMembers? ending members = none ↔
    ending = .closed ∧ ∀ member ∈ members, member.2.IsWhole := by
  induction members with
  | nil => cases ending <;> simp [skippedMembers?]
  | cons member members ih =>
    obtain ⟨key, value⟩ := member
    simp only [skippedMembers?, Option.or_eq_none_iff, ih, List.forall_mem_cons, IsWhole]
    exact and_left_comm

theorem isWhole_object :
    (Draft.object members ending).IsWhole ↔
      ending = .closed ∧ ∀ member ∈ members, member.2.IsWhole :=
  skippedMembers?_eq_none_iff

/-! ## A document is built from its tokens -/

section Build

variable {levels : List Level} {ts rest : List Token}

/-- The first token of a document does not close a list. -/
theorem tokens_eq_cons (h : d.IsWhole) :
    ∃ t ts, d.tokens = t :: ts ∧ t ≠ .closeList := by
  cases d with
  | broken why => exact absurd h (not_isWhole_broken why)
  | _ => exact ⟨_, _, by rw [tokens], by rintro ⟨⟩⟩

/-- The first item of a list is built as any value is. -/
theorem build_item {t : Token} (h : t ≠ .closeList) :
    build .item levels (t :: ts) = build .value (.list [] :: levels) (t :: ts) := by
  rw [build, build]
  exact fun hclose => absurd hclose h

mutual

theorem build_tokens (d : Draft) (h : d.IsWhole) (levels : List Level) (rest : List Token) :
    build .value levels (d.tokens ++ rest) = build (.more d) levels rest := by
  cases d with
  | broken why => exact absurd h (not_isWhole_broken why)
  | null | bool | number | text => rfl
  | list items ending =>
    obtain ⟨rfl, hitems⟩ := isWhole_list.mp h
    show build .item levels ((itemTokens items).tail ++ [.closeList] ++ rest) = _
    cases items with
    | nil => rfl
    | cons item items =>
      obtain ⟨t, ts, ht, hopen⟩ := tokens_eq_cons (hitems item List.mem_cons_self)
      have hitem := build_tokens item (hitems item List.mem_cons_self) (.list [] :: levels)
        (itemTokens items ++ .closeList :: rest)
      have hrest := build_items items (fun i hi => hitems i (List.mem_cons_of_mem _ hi)) item []
        levels rest
      rw [ht, List.cons_append] at hitem
      rw [itemTokens, List.tail_cons, ht, List.append_assoc, List.append_assoc, List.cons_append,
        build_item hopen]
      exact hitem.trans hrest
  | object members ending =>
    obtain ⟨rfl, hmembers⟩ := isWhole_object.mp h
    show build .member levels ((memberTokens members).tail ++ [.closeObject] ++ rest) = _
    cases members with
    | nil => rfl
    | cons member members =>
      obtain ⟨key, value⟩ := member
      have hvalue := build_tokens value (hmembers _ List.mem_cons_self)
        (.object [] key :: levels) (memberTokens members ++ .closeObject :: rest)
      have hrest := build_members members (fun i hi => hmembers i (List.mem_cons_of_mem _ hi))
        value key [] levels rest
      rw [memberTokens, List.tail_cons]
      simp only [List.cons_append, List.append_assoc]
      exact hvalue.trans hrest

theorem build_items (items : List Draft) (h : ∀ item ∈ items, item.IsWhole) (part : Draft)
    (done : List Draft) (levels : List Level) (rest : List Token) :
    build (.more part) (.list done :: levels) (itemTokens items ++ .closeList :: rest) =
      build (.more (.list ((part :: done).reverse ++ items) .closed)) levels rest := by
  cases items with
  | nil =>
    rw [List.append_nil]
    rfl
  | cons item items =>
    have hitem := build_tokens item (h item List.mem_cons_self) (.list (part :: done) :: levels)
      (itemTokens items ++ .closeList :: rest)
    have hrest := build_items items (fun i hi => h i (List.mem_cons_of_mem _ hi)) item
      (part :: done) levels rest
    rw [itemTokens, List.cons_append, List.append_assoc]
    refine hitem.trans (hrest.trans ?_)
    rw [List.reverse_cons (a := item), List.append_assoc]
    rfl

theorem build_members (members : List (Option String × Draft))
    (h : ∀ member ∈ members, member.2.IsWhole) (part : Draft) (key : Option String)
    (done : List (Option String × Draft)) (levels : List Level) (rest : List Token) :
    build (.more part) (.object done key :: levels) (memberTokens members ++ .closeObject :: rest) =
      build (.more (.object (((key, part) :: done).reverse ++ members) .closed)) levels rest := by
  cases members with
  | nil =>
    rw [List.append_nil]
    rfl
  | cons member members =>
    obtain ⟨next, value⟩ := member
    have hvalue := build_tokens value (h _ List.mem_cons_self)
      (.object ((key, part) :: done) next :: levels) (memberTokens members ++ .closeObject :: rest)
    have hrest := build_members members (fun i hi => h i (List.mem_cons_of_mem _ hi)) value next
      ((key, part) :: done) levels rest
    rw [memberTokens]
    simp only [List.cons_append, List.append_assoc]
    refine hvalue.trans (hrest.trans ?_)
    rw [List.reverse_cons (a := (next, value)), List.append_assoc]
    rfl

end

/-! ## What is built has been told -/

/-- The tokens of the parts of an open list that are complete, and the comma before the next. -/
def itemsTold (done : List Draft) : List Token := (itemTokens done.reverse ++ [Token.comma]).tail

/-- The tokens of the parts of an open object that are complete, and the comma before the
next. -/
def membersTold (done : List (Option String × Draft)) : List Token :=
  (memberTokens done.reverse ++ [Token.comma]).tail

/-- The tokens of an open container up to the place of its next part. -/
def Level.told : Level → List Token
  | .list done => .openList :: itemsTold done
  | .object done key => .openObject :: (membersTold done ++ [.text key, .colon])

/-- The tokens of all open containers up to the places of their next parts. -/
def toldLevels : List Level → List Token
  | [] => []
  | level :: levels => toldLevels levels ++ level.told

/-- The tokens of what stands, inside the open containers, before the awaited. -/
def Awaited.told : Awaited → List Token
  | .value => []
  | .item => [.openList]
  | .member => [.openObject]
  | .key done => .openObject :: membersTold done
  | .colon done given => .openObject :: (membersTold done ++ [.text given])
  | .more part => part.tokens

theorem itemTokens_append (items others : List Draft) :
    itemTokens (items ++ others) = itemTokens items ++ itemTokens others := by
  induction items with
  | nil => rfl
  | cons item items ih =>
    rw [List.cons_append, itemTokens, itemTokens, ih, List.cons_append, List.append_assoc]

theorem memberTokens_append (members others : List (Option String × Draft)) :
    memberTokens (members ++ others) = memberTokens members ++ memberTokens others := by
  induction members with
  | nil => rfl
  | cons member members ih =>
    obtain ⟨key, value⟩ := member
    simp only [List.cons_append, memberTokens, ih, List.append_assoc]

/-- The next item of a list stands behind those that are complete. -/
theorem tail_itemTokens (part : Draft) (done : List Draft) :
    (itemTokens (part :: done).reverse).tail = itemsTold done ++ part.tokens := by
  rw [itemsTold, List.reverse_cons, itemTokens_append]
  cases done.reverse with
  | nil => simp only [itemTokens, List.nil_append, List.tail_cons, List.append_nil]
  | cons item items =>
    simp only [itemTokens, List.cons_append, List.append_assoc, List.tail_cons, List.append_nil,
      List.nil_append]

theorem itemsTold_cons (part : Draft) (done : List Draft) :
    itemsTold (part :: done) = itemsTold done ++ (part.tokens ++ [.comma]) := by
  have hne : itemTokens (part :: done).reverse ≠ [] := by
    rw [List.reverse_cons, itemTokens_append]
    exact List.append_ne_nil_of_right_ne_nil _ (List.cons_ne_nil _ _)
  rw [itemsTold, List.tail_append_of_ne_nil hne, tail_itemTokens, List.append_assoc]

/-- The next member of an object stands behind those that are complete. -/
theorem tail_memberTokens (key : Option String) (part : Draft)
    (done : List (Option String × Draft)) :
    (memberTokens ((key, part) :: done).reverse).tail =
      membersTold done ++ (.text key :: .colon :: part.tokens) := by
  rw [membersTold, List.reverse_cons, memberTokens_append]
  cases done.reverse with
  | nil => simp only [memberTokens, List.nil_append, List.tail_cons, List.append_nil]
  | cons member members =>
    simp only [memberTokens, List.cons_append, List.append_assoc, List.tail_cons,
      List.append_nil, List.nil_append]

theorem membersTold_cons (key : Option String) (part : Draft)
    (done : List (Option String × Draft)) :
    membersTold ((key, part) :: done) =
      membersTold done ++ (.text key :: .colon :: (part.tokens ++ [.comma])) := by
  have hne : memberTokens ((key, part) :: done).reverse ≠ [] := by
    rw [List.reverse_cons, memberTokens_append]
    exact List.append_ne_nil_of_right_ne_nil _ (List.cons_ne_nil _ _)
  rw [membersTold, List.tail_append_of_ne_nil hne, tail_memberTokens, List.append_assoc]
  rfl

theorem tokens_of_start {t : Token} {whole : Draft} (h : Start.ofToken t = .value whole) :
    whole.tokens = [t] := by
  cases t with
  | null | bool | number | text =>
    cases h
    rfl
  | _ => cases h

theorem start_list {t : Token} (h : Start.ofToken t = .list) : t = .openList := by
  cases t with
  | openList => rfl
  | _ => cases h

theorem start_object {t : Token} (h : Start.ofToken t = .object) : t = .openObject := by
  cases t with
  | openObject => rfl
  | _ => cases h

theorem not_isWhole_list (items : List Draft) (why : Break) :
    ¬ (Draft.list items (.broken why)).IsWhole := fun h => by cases (isWhole_list.mp h).1

theorem not_isWhole_object (members : List (Option String × Draft)) (why : Break) :
    ¬ (Draft.object members (.broken why)).IsWhole := fun h => by cases (isWhole_object.mp h).1

theorem not_isWhole_close (level : Level) (part : Draft) (why : Break) :
    ¬ (level.close part (.broken why)).IsWhole := by
  cases level with
  | list done => exact not_isWhole_list _ why
  | object done key => exact not_isWhole_object _ why

/-- A draft that breaks off is not whole. -/
theorem not_isWhole_abandon {why : Break} {part : Draft} (h : ¬ part.IsWhole)
    (levels : List Level) : ¬ (abandon why part levels).IsWhole := by
  induction levels generalizing part with
  | nil => exact h
  | cons level levels ih => exact ih (not_isWhole_close level part why)

/-- No whole draft is built by breaking off. -/
theorem not_abandoned {why : Break} {part : Draft} {ts' : List Token} (hpart : ¬ part.IsWhole)
    (h : (abandon why part levels, ts') = (d, rest)) (hd : d.IsWhole) : False :=
  not_isWhole_abandon hpart levels ((Prod.mk.inj h).1 ▸ hd)

/-- Each step takes the token that it tells of, so a whole draft has been told in the end. -/
theorem told_of_build {awaited : Awaited} (h : build awaited levels ts = (d, rest))
    (hd : d.IsWhole) : toldLevels levels ++ (awaited.told ++ ts) = d.tokens ++ rest := by
  fun_induction build awaited levels ts with
  | case1 part ts =>
    cases h
    rfl
  | case2 | case6 | case12 | case20 | case22 =>
    exact (not_abandoned (not_isWhole_broken _) h hd).elim
  | case7 | case26 => exact (not_abandoned (not_isWhole_list _ _) h hd).elim
  | case13 | case16 | case17 | case19 | case29 =>
    exact (not_abandoned (not_isWhole_object _ _) h hd).elim
  | case23 => exact (not_abandoned (not_isWhole_close _ _ _) h hd).elim
  -- a value begins, as the whole document, behind a colon or behind a comma of a list
  | case3 levels t ts whole hstart ih =>
    rw [← ih h]
    simp only [Awaited.told, tokens_of_start hstart, List.nil_append, List.singleton_append]
  | case4 levels t ts hstart ih =>
    rw [← ih h]
    simp only [Awaited.told, start_list hstart, List.nil_append, List.singleton_append]
  | case5 levels t ts hstart ih =>
    rw [← ih h]
    simp only [Awaited.told, start_object hstart, List.nil_append, List.singleton_append]
  -- the first item of a list, or its end
  | case8 levels ts ih => rw [← ih h]; rfl
  | case9 levels ts t _ whole hstart ih =>
    rw [← ih h]
    simp only [toldLevels, Level.told, Awaited.told, tokens_of_start hstart, List.append_assoc]
    rfl
  | case10 levels ts t _ hstart ih =>
    rw [← ih h]
    simp only [toldLevels, Level.told, Awaited.told, start_list hstart, List.append_assoc]
    rfl
  | case11 levels ts t _ hstart ih =>
    rw [← ih h]
    simp only [toldLevels, Level.told, Awaited.told, start_object hstart, List.append_assoc]
    rfl
  -- the first key of an object, or its end
  | case14 levels ts ih => rw [← ih h]; rfl
  | case15 levels ts key ih => rw [← ih h]; rfl
  | case18 members levels ts key ih =>
    rw [← ih h]
    simp only [Awaited.told, List.cons_append, List.append_assoc, List.nil_append]
  | case21 members key levels ts ih =>
    rw [← ih h]
    simp only [toldLevels, Level.told, Awaited.told, List.cons_append, List.append_assoc,
      List.nil_append]
  -- a comma or the end of a container behind a part
  | case24 part items levels ts ih =>
    rw [← ih h]
    simp only [toldLevels, Level.told, Awaited.told, itemsTold_cons, List.cons_append,
      List.append_assoc, List.nil_append]
  | case25 part items levels ts ih =>
    rw [← ih h]
    simp only [toldLevels, Level.told, Awaited.told, tokens, tail_itemTokens, List.cons_append,
      List.append_assoc, List.nil_append]
  | case27 part members key levels ts ih =>
    rw [← ih h]
    simp only [toldLevels, Level.told, Awaited.told, membersTold_cons, List.cons_append,
      List.append_assoc, List.nil_append]
  | case28 part members key levels ts ih =>
    rw [← ih h]
    simp only [toldLevels, Level.told, Awaited.told, tokens, tail_memberTokens, List.cons_append,
      List.append_assoc, List.nil_append]

/-- Whole drafts are built from their own tokens, and from no others. -/
theorem build_value_iff (hd : d.IsWhole) :
    build .value [] ts = (d, rest) ↔ ts = d.tokens ++ rest := by
  constructor
  · exact fun h => told_of_build h hd
  · rintro rfl
    rw [build_tokens d hd, build]

end Build

/-! ## Cutting gives back the tokens of a document -/

section Tokens

open Token

/-- Tokens that are found again where they are written: none says that the text breaks, and
no number follows a number. -/
structure Orderly (ts : List Token) : Prop where
  isSound : ∀ t ∈ ts, t.IsSound
  apart : Apart ts

namespace Orderly

variable {t : Token} {ts us : List Token}

theorem nil : Orderly [] where
  isSound _ h := by cases h
  apart := .nil

theorem single (h : t.IsSound) : Orderly [t] :=
  ⟨fun _ hs => List.mem_singleton.mp hs ▸ h, .singleton t⟩

theorem append (h : Orderly ts) (h' : Orderly us) (hfirst : ∀ u ∈ us.head?, ¬ u.IsNumber) :
    Orderly (ts ++ us) where
  isSound _ ht := (List.mem_append.mp ht).elim (h.isSound _) (h'.isSound _)
  apart := List.isChain_append.mpr ⟨h.apart, h'.apart, fun _ _ u hu _ => hfirst u hu⟩

/-- A mark may stand before anything. -/
theorem mark (ht : t.IsSound) (hnumber : ¬ t.IsNumber) (h : Orderly ts) : Orderly (t :: ts) where
  isSound _ hs := (List.mem_cons.mp hs).elim (· ▸ ht) (h.isSound _)
  apart := List.isChain_cons.mpr ⟨fun _ _ hn => absurd hn hnumber, h.apart⟩

theorem tail (h : Orderly ts) : Orderly ts.tail where
  isSound _ ht := h.isSound _ (List.mem_of_mem_tail ht)
  apart := h.apart.tail

/-- The parts of a container may stand between its brackets. -/
theorem enclose {first last : Token} (h : Orderly ts) (hfirst : first.IsSound)
    (hlast : last.IsSound) (hopen : ¬ first.IsNumber) (hclose : ¬ last.IsNumber) :
    Orderly (first :: (ts.tail ++ [last])) :=
  mark hfirst hopen (h.tail.append (single hlast) fun _ hu => Option.some.inj hu ▸ hclose)

end Orderly

theorem head?_itemTokens (items : List Draft) :
    ∀ t ∈ (itemTokens items).head?, ¬ t.IsNumber := by
  cases items with
  | nil => exact fun _ ht => by cases ht
  | cons item items => exact fun _ ht hnumber => by cases ht; exact hnumber

theorem head?_memberTokens (members : List (Option String × Draft)) :
    ∀ t ∈ (memberTokens members).head?, ¬ t.IsNumber := by
  cases members with
  | nil => exact fun _ ht => by cases ht
  | cons member members => exact fun _ ht hnumber => by cases ht; exact hnumber

mutual

theorem orderly_tokens (d : Draft) : Orderly d.tokens := by
  cases d with
  | broken why => exact .nil
  | null | bool | number | text => exact .single trivial
  | list items ending => exact (orderly_itemTokens items).enclose trivial trivial id id
  | object members ending => exact (orderly_memberTokens members).enclose trivial trivial id id

theorem orderly_itemTokens (items : List Draft) : Orderly (itemTokens items) := by
  cases items with
  | nil => exact .nil
  | cons item items =>
    exact ((orderly_tokens item).append (orderly_itemTokens items)
      (head?_itemTokens items)).mark trivial id

theorem orderly_memberTokens (members : List (Option String × Draft)) :
    Orderly (memberTokens members) := by
  cases members with
  | nil => exact .nil
  | cons member members =>
    have hvalue := (orderly_tokens member.2).append (orderly_memberTokens members)
      (head?_memberTokens members)
    exact ((hvalue.mark (t := .colon) trivial id).mark (t := .text member.1) trivial id).mark
      trivial id

end

/-- The last token of a container is its closing bracket. -/
theorem not_isNumber_enclose {first last t : Token} {ts : List Token} (hlast : ¬ last.IsNumber)
    (ht : t ∈ (first :: (ts ++ [last])).getLast?) : ¬ t.IsNumber := by
  rw [← List.cons_append, List.getLast?_append] at ht
  cases ht
  exact hlast

/-- A text spells a document exactly if it is cut into the tokens of the document. -/
theorem spelled_iff {cs : List Char} : d.Spelled cs ↔ d.IsWhole ∧ Token.scan cs = d.tokens := by
  constructor
  · intro h
    have hscan : Token.scan (cs ++ []) = d.tokens ++ Token.scan [] :=
      scan_of_written h.written (orderly_tokens d).apart fun _ _ _ => Numeral.ends_nil
    rw [List.append_nil, scan_nil, List.append_nil] at hscan
    exact ⟨h.isWhole, hscan⟩
  · rintro ⟨hwhole, hscan⟩
    obtain ⟨front, back, rfl, hfront, hback⟩ :=
      written_of_scan (hscan.trans (List.append_nil _).symm) (orderly_tokens d).isSound
    have hwritten := hfront.append (written_nil_of_scan hback)
    rw [List.append_nil] at hwritten
    exact ⟨hwhole, hwritten⟩

end Tokens

end Draft

/-! ## Drafts of texts -/

namespace Document

open Draft

variable {d : Draft} {text : String} {front back : List Char}

/-- A text that starts with a document has it as its draft, unless it is a number that could
go on there. -/
theorem ofText_of_spelled (h : d.Spelled front) (htext : text.toList = front ++ back)
    (hends : ∀ t ∈ d.tokens.getLast?, t.IsNumber → Numeral.Ends back) :
    ofText text = ⟨d, !(Token.scan back).isEmpty⟩ := by
  have hscan : Token.scan text.toList = d.tokens ++ Token.scan back := by
    rw [htext]
    exact Token.scan_of_written h.written (orderly_tokens d).apart hends
  rw [ofText, ofTokens, (build_value_iff h.isWhole).mpr hscan]

/-- A whole draft of a text is a document that the text starts with. -/
theorem spelled_of_ofText (h : (ofText text).draft.IsWhole) :
    ∃ front back, text.toList = front ++ back ∧ (ofText text).draft.Spelled front := by
  have hscan : Token.scan text.toList =
      (ofText text).draft.tokens ++ (build .value [] (Token.scan text.toList)).2 :=
    (build_value_iff h).mp rfl
  obtain ⟨front, back, htext, hfront, _⟩ :=
    Token.written_of_scan hscan (orderly_tokens _).isSound
  exact ⟨front, back, htext, h, hfront⟩

/-- A text spells a document exactly if that is its draft and nothing follows. -/
theorem spelled_iff : d.Spelled text.toList ↔ d.IsWhole ∧ ofText text = ⟨d, false⟩ := by
  rw [Draft.spelled_iff]
  refine and_congr_right fun hd => ?_
  have hbuild : build .value [] (Token.scan text.toList) = (d, []) ↔
      Token.scan text.toList = d.tokens ++ [] := build_value_iff hd
  rw [List.append_nil] at hbuild
  rw [← hbuild, ofText, ofTokens]
  cases hdraft : build .value [] (Token.scan text.toList) with
  | mk draft rest =>
    rw [Prod.mk.injEq, mk.injEq, Bool.not_eq_false', List.isEmpty_iff]

end Document

/-- A text spells no two documents. -/
theorem Draft.Spelled.unique {d e : Draft} {text : String} (hd : d.Spelled text.toList)
    (he : e.Spelled text.toList) : d = e := by
  have hboth := (Document.spelled_iff.mp hd).2.symm.trans (Document.spelled_iff.mp he).2
  exact congrArg Document.draft hboth

/-- If the parts of two lists correspond one by one then each part of the first has its
counterpart. -/
theorem exists_of_forall₂ {α β : Type} {R : α → β → Prop} {items : List α} {others : List β}
    (h : List.Forall₂ R items others) {item : α} (hitem : item ∈ items) : ∃ b, R item b := by
  induction h with
  | nil => cases hitem
  | cons hb _ ih =>
    rcases List.mem_cons.mp hitem with rfl | hitem
    · exact ⟨_, hb⟩
    · exact ih hitem

section ReadText

variable {α : Type} {reader : Draft → Except Fault α} {text : String} {d : Draft}

/-- A text that spells a document is read as the document is. -/
theorem readText_of_spelled (h : d.Spelled text.toList) : readText reader text = reader d := by
  rw [readText, Document.read, (Document.spelled_iff.mp h).2]
  cases reader d with
  | error fault => rfl
  | ok a => rfl

/-- A reader that accepts documents only accepts the texts that spell one that it accepts. -/
theorem readText_eq_ok_iff {a : α} (hwhole : ∀ d, reader d = .ok a → d.IsWhole) :
    readText reader text = .ok a ↔ ∃ d : Draft, d.Spelled text.toList ∧ reader d = .ok a := by
  constructor
  · intro h
    obtain ⟨hread, htrailing⟩ := Document.read_eq_ok_iff.mp h
    refine ⟨_, Document.spelled_iff.mpr ⟨hwhole _ hread, ?_⟩, hread⟩
    rw [← htrailing]
  · rintro ⟨d, hd, hread⟩
    exact (readText_of_spelled hd).trans hread

end ReadText

end BlockThreads.Json
