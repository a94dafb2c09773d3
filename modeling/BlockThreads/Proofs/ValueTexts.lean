import BlockThreads.Value
import BlockThreads.Proofs.Documents

/-!
# Which texts are values

A value is read from a document without objects, and mirrors it. A document that holds an
object is read to its end all the same: whatever makes it unreadable, before or behind the
object, is told first. Only what follows the document is not looked at then.

Results:
1. `Value.outlines_outline`: what comes of reading a document to its end.
2. `Value.ofText_documents`: values are exactly the documents without objects.
3. `Value.ofText_behind_object`: what follows a document with an object is not looked at.
-/

namespace BlockThreads

open Json

namespace Json.Draft

/-! ## Parts of a document -/

/-- A draft occurs in another one at any depth, or is the whole of it. -/
inductive Part (part : Draft) : Draft → Prop
  | whole : Part part part
  | item {item : Draft} {items : List Draft} {ending : Ending} :
      item ∈ items → Part part item → Part part (.list items ending)
  | member {member : Option String × Draft} {members : List (Option String × Draft)}
      {ending : Ending} : member ∈ members → Part part member.2 →
      Part part (.object members ending)

/-- An object occurs in the draft. -/
def HoldsObject (d : Draft) : Prop := ∃ members ending, Part (.object members ending) d

/-- All numbers have values, and all texts and keys have contents. -/
structure IsLegible (d : Draft) : Prop where
  number : ∀ n, Part (.number n) d → n.value.isSome
  text : ∀ content, Part (.text content) d → content.isSome
  key : ∀ members ending, Part (.object members ending) d →
    ∀ member ∈ members, member.1.isSome

mutual

/-- How many containers are inside each other. -/
def depth : Draft → Nat
  | .list items _ => itemsDepth items + 1
  | .object members _ => membersDepth members + 1
  | _ => 0

/-- The greatest depth of some items. -/
def itemsDepth : List Draft → Nat
  | [] => 0
  | item :: items => max (depth item) (itemsDepth items)

/-- The greatest depth of the values of some members. -/
def membersDepth : List (Option String × Draft) → Nat
  | [] => 0
  | (_, value) :: members => max (depth value) (membersDepth members)

end

/-- A legible document with at most `levels` containers inside each other. -/
structure IsReadable (levels : Nat) (d : Draft) : Prop where
  isWhole : d.IsWhole
  isLegible : d.IsLegible
  depth_le : d.depth ≤ levels

variable {d part : Draft} {levels : Nat} {items : List Draft}
  {members : List (Option String × Draft)} {ending : Ending}

theorem itemsDepth_le_iff : itemsDepth items ≤ levels ↔ ∀ item ∈ items, item.depth ≤ levels := by
  induction items with
  | nil => exact ⟨fun _ _ h => (nomatch h), fun _ => Nat.zero_le levels⟩
  | cons item items ih => rw [itemsDepth, Nat.max_le, ih, List.forall_mem_cons]

theorem membersDepth_le_iff :
    membersDepth members ≤ levels ↔ ∀ member ∈ members, member.2.depth ≤ levels := by
  induction members with
  | nil => exact ⟨fun _ _ h => (nomatch h), fun _ => Nat.zero_le levels⟩
  | cons member members ih => rw [membersDepth, Nat.max_le, ih, List.forall_mem_cons]

theorem isLegible_list :
    (Draft.list items ending).IsLegible ↔ ∀ item ∈ items, item.IsLegible := by
  constructor
  · intro h item hitem
    exact ⟨fun n hn => h.number n (.item hitem hn), fun c hc => h.text c (.item hitem hc),
      fun members ending ho => h.key members ending (.item hitem ho)⟩
  · intro h
    constructor
    · rintro n (_ | ⟨hitem, hn⟩)
      exact (h _ hitem).number n hn
    · rintro c (_ | ⟨hitem, hc⟩)
      exact (h _ hitem).text c hc
    · rintro members ending (_ | ⟨hitem, ho⟩)
      exact (h _ hitem).key members ending ho

theorem isLegible_object : (Draft.object members ending).IsLegible ↔
    ∀ member ∈ members, member.1.isSome ∧ member.2.IsLegible := by
  constructor
  · intro h member hmember
    exact ⟨h.key members ending .whole member hmember, fun n hn => h.number n (.member hmember hn),
      fun c hc => h.text c (.member hmember hc),
      fun members ending ho => h.key members ending (.member hmember ho)⟩
  · intro h
    constructor
    · rintro n (_ | _ | ⟨hmember, hn⟩)
      exact (h _ hmember).2.number n hn
    · rintro c (_ | _ | ⟨hmember, hc⟩)
      exact (h _ hmember).2.text c hc
    · rintro members ending (_ | _ | ⟨hmember, ho⟩)
      · exact fun member hmember => (h member hmember).1
      · exact (h _ hmember).2.key members ending ho

/-- A list within the limit has readable items within a smaller one. -/
theorem isReadable_list : IsReadable levels (.list items ending) ↔
    ∃ inner, levels = inner + 1 ∧ ending = .closed ∧ ∀ item ∈ items, IsReadable inner item := by
  constructor
  · rintro ⟨hwhole, hlegible, hdepth⟩
    obtain ⟨hclosed, hwhole⟩ := isWhole_list.mp hwhole
    rw [depth] at hdepth
    obtain ⟨inner, rfl⟩ : ∃ inner, levels = inner + 1 := ⟨levels - 1, by omega⟩
    have hdepth := itemsDepth_le_iff.mp (Nat.le_of_succ_le_succ hdepth)
    exact ⟨inner, rfl, hclosed, fun item hitem =>
      ⟨hwhole item hitem, isLegible_list.mp hlegible item hitem, hdepth item hitem⟩⟩
  · rintro ⟨inner, rfl, rfl, h⟩
    exact ⟨isWhole_list.mpr ⟨rfl, fun item hitem => (h item hitem).isWhole⟩,
      isLegible_list.mpr fun item hitem => (h item hitem).isLegible,
      Nat.succ_le_succ (itemsDepth_le_iff.mpr fun item hitem => (h item hitem).depth_le)⟩

theorem isReadable_object : IsReadable levels (.object members ending) ↔
    ∃ inner, levels = inner + 1 ∧ ending = .closed ∧
      ∀ member ∈ members, member.1.isSome ∧ IsReadable inner member.2 := by
  constructor
  · rintro ⟨hwhole, hlegible, hdepth⟩
    obtain ⟨hclosed, hwhole⟩ := isWhole_object.mp hwhole
    rw [depth] at hdepth
    obtain ⟨inner, rfl⟩ : ∃ inner, levels = inner + 1 := ⟨levels - 1, by omega⟩
    have hdepth := membersDepth_le_iff.mp (Nat.le_of_succ_le_succ hdepth)
    exact ⟨inner, rfl, hclosed, fun member hmember =>
      ⟨(isLegible_object.mp hlegible member hmember).1, hwhole member hmember,
        (isLegible_object.mp hlegible member hmember).2, hdepth member hmember⟩⟩
  · rintro ⟨inner, rfl, rfl, h⟩
    exact ⟨isWhole_object.mpr ⟨rfl, fun member hmember => (h member hmember).2.isWhole⟩,
      isLegible_object.mpr fun member hmember =>
        ⟨(h member hmember).1, (h member hmember).2.isLegible⟩,
      Nat.succ_le_succ
        (membersDepth_le_iff.mpr fun member hmember => (h member hmember).2.depth_le)⟩

theorem isReadable_null : IsReadable levels .null :=
  ⟨rfl, ⟨fun _ h => (nomatch h), fun _ h => (nomatch h), fun _ _ h => (nomatch h)⟩,
    Nat.zero_le levels⟩

theorem isReadable_bool (b : Bool) : IsReadable levels (.bool b) :=
  ⟨rfl, ⟨fun _ h => (nomatch h), fun _ h => (nomatch h), fun _ _ h => (nomatch h)⟩,
    Nat.zero_le levels⟩

theorem isReadable_number {n : Numeral} :
    IsReadable levels (.number n) ↔ n.value.isSome := by
  constructor
  · exact fun h => h.isLegible.number n .whole
  · intro h
    refine ⟨rfl, ⟨?_, fun _ h => (nomatch h), fun _ _ h => (nomatch h)⟩, Nat.zero_le levels⟩
    rintro _ ⟨⟩
    exact h

theorem isReadable_text {content : Option String} :
    IsReadable levels (.text content) ↔ content.isSome := by
  constructor
  · exact fun h => h.isLegible.text content .whole
  · intro h
    refine ⟨rfl, ⟨fun _ h => (nomatch h), ?_, fun _ _ h => (nomatch h)⟩, Nat.zero_le levels⟩
    rintro _ ⟨⟩
    exact h

end Json.Draft

namespace Value

/-! ## Mirroring a document -/

/-- A value has the same tree as a document without objects: the same scalars, numbers as
doubles, and lists item by item. -/
inductive Mirrors : Draft → Value → Prop
  | null : Mirrors .null .null
  | bool (b : Bool) : Mirrors (.bool b) (.bool b)
  | number {n : Numeral} {x : Number} {y : Float} : n.value = some x → ofNumber x = .number y →
      Mirrors (.number n) (.number y)
  | text (s : String) : Mirrors (.text (some s)) (.text s)
  | list {items : List Draft} {values : List Value} : List.Forall₂ Mirrors items values →
      Mirrors (.list items .closed) (.list values)

/-- A value occurs in another one at any depth, or is the whole of it. -/
inductive Part (part : Value) : Value → Prop
  | whole : Part part part
  | item {v : Value} {values : List Value} : v ∈ values → Part part v → Part part (.list values)

/-- A reference occurs in the value. -/
def HoldsReference (v : Value) : Prop := ∃ id, Part (.reference id) v

theorem ofNumber_eq (x : Number) : ∃ y, ofNumber x = .number y := by
  unfold ofNumber
  split
  all_goals exact ⟨_, rfl⟩

/-- No value mirrors a document with an object. -/
theorem Mirrors.not_holdsObject {d : Draft} {v : Value} (h : Mirrors d v) : ¬ d.HoldsObject := by
  rintro ⟨members, ending, hpart⟩
  induction hpart generalizing v with
  | whole => cases h
  | item hitem _ ih =>
    cases h with
    | list hvalues =>
      obtain ⟨w, hw⟩ := exists_of_forall₂ hvalues hitem
      exact ih hw
  | member => cases h

/-- No value with a reference mirrors a document. -/
theorem Mirrors.not_holdsReference {d : Draft} {v : Value} (h : Mirrors d v) :
    ¬ v.HoldsReference := by
  rintro ⟨id, hpart⟩
  induction hpart generalizing d with
  | whole => cases h
  | item hv _ ih =>
    cases h with
    | list hvalues =>
      obtain ⟨item, hitem⟩ := exists_of_forall₂ (List.Forall₂.flip (R := flip Mirrors) hvalues) hv
      exact ih hitem

/-! ## Reading to the end -/

/-- What comes of reading a draft to its end: the value that mirrors it, or nothing, if an
object occurs in it; or a flaw, if it is not readable. -/
def Outlines (levels : Nat) (d : Draft) : Except Flaw (Option Value) → Prop
  | .ok (some v) => d.IsReadable levels ∧ Mirrors d v
  | .ok none => d.IsReadable levels ∧ d.HoldsObject
  | .error _ => ¬ d.IsReadable levels

/-- What comes of reading the rest of a list to its end. -/
def OutlinesItems (levels : Nat) (ending : Ending) (items : List Draft) :
    Except Flaw (Option (List Value)) → Prop
  | .ok (some values) => (ending = .closed ∧ ∀ item ∈ items, item.IsReadable levels) ∧
      List.Forall₂ Mirrors items values
  | .ok none => (ending = .closed ∧ ∀ item ∈ items, item.IsReadable levels) ∧
      ∃ item ∈ items, item.HoldsObject
  | .error _ => ¬ (ending = .closed ∧ ∀ item ∈ items, item.IsReadable levels)

/-- What comes of reading the rest of an object to its end. -/
def OutlinesMembers (levels : Nat) (ending : Ending) (members : List (Option String × Draft)) :
    Except Flaw Unit → Prop
  | .ok _ => ending = .closed ∧ ∀ member ∈ members, member.1.isSome ∧ member.2.IsReadable levels
  | .error _ =>
    ¬ (ending = .closed ∧ ∀ member ∈ members, member.1.isSome ∧ member.2.IsReadable levels)

section Outline

variable {levels : Nat} {items : List Draft} {members : List (Option String × Draft)}
  {ending : Ending}

theorem outlines_list {found : Except Flaw (Option (List Value))}
    (h : OutlinesItems levels ending items found) : Outlines (levels + 1) (.list items ending)
      (found.map fun found => found.map .list) := by
  have hreadable : (Draft.list items ending).IsReadable (levels + 1) ↔
      ending = .closed ∧ ∀ item ∈ items, item.IsReadable levels := by
    rw [Draft.isReadable_list]
    constructor
    · rintro ⟨inner, hinner, h⟩
      cases hinner
      exact h
    · exact fun h => ⟨levels, rfl, h⟩
  cases found with
  | error flaw => exact fun hlist => h (hreadable.mp hlist)
  | ok found =>
    cases found with
    | none =>
      obtain ⟨hitems, item, hitem, members, ending, hobject⟩ := h
      exact ⟨hreadable.mpr hitems, members, ending, .item hitem hobject⟩
    | some values =>
      obtain ⟨hitems, hvalues⟩ := h
      cases hitems.1
      exact ⟨hreadable.mpr hitems, .list hvalues⟩

theorem outlines_object {found : Except Flaw Unit}
    (h : OutlinesMembers levels ending members found) :
    Outlines (levels + 1) (.object members ending) (found.map fun _ => none) := by
  have hreadable : (Draft.object members ending).IsReadable (levels + 1) ↔
      ending = .closed ∧
        ∀ member ∈ members, member.1.isSome ∧ member.2.IsReadable levels := by
    rw [Draft.isReadable_object]
    constructor
    · rintro ⟨inner, hinner, h⟩
      cases hinner
      exact h
    · exact fun h => ⟨levels, rfl, h⟩
  cases found with
  | error flaw => exact fun hobject => h (hreadable.mp hobject)
  | ok found => exact ⟨hreadable.mpr h, members, ending, .whole⟩

/-- The first item and the others are read one after the other. -/
theorem outlines_cons {item : Draft} {first : Except Flaw (Option Value)}
    {others : Except Flaw (Option (List Value))} (h : Outlines levels item first)
    (h' : OutlinesItems levels ending items others) :
    OutlinesItems levels ending (item :: items) (do
      let first ← first
      let others ← others
      return first.bind fun first => others.map fun others => first :: others) := by
  have hreadable : (ending = .closed ∧ ∀ i ∈ item :: items, i.IsReadable levels) ↔
      item.IsReadable levels ∧ ending = .closed ∧ ∀ i ∈ items, i.IsReadable levels := by
    rw [List.forall_mem_cons, and_left_comm]
  cases first with
  | error flaw => exact fun hall => h (hreadable.mp hall).1
  | ok first =>
    cases others with
    | error flaw => exact fun hall => h' (hreadable.mp hall).2
    | ok others =>
      cases first with
      | none => exact ⟨hreadable.mpr ⟨h.1, by cases others <;> exact h'.1⟩,
          item, List.mem_cons_self, h.2⟩
      | some v =>
        cases others with
        | none =>
          obtain ⟨hitems, other, hother, hobject⟩ := h'
          exact ⟨hreadable.mpr ⟨h.1, hitems⟩, other, List.mem_cons_of_mem _ hother, hobject⟩
        | some values => exact ⟨hreadable.mpr ⟨h.1, h'.1⟩, .cons h.2 h'.2⟩

/-- The first member and the others are read one after the other. -/
theorem outlines_member {key : String} {value : Draft} {first : Except Flaw (Option Value)}
    {others : Except Flaw Unit} (h : Outlines levels value first)
    (h' : OutlinesMembers levels ending members others) :
    OutlinesMembers levels ending ((some key, value) :: members) (do
      let _ ← first
      others) := by
  have hreadable : (ending = .closed ∧ ∀ member ∈ (some key, value) :: members,
      member.1.isSome ∧ member.2.IsReadable levels) ↔ value.IsReadable levels ∧
        ending = .closed ∧ ∀ member ∈ members, member.1.isSome ∧ member.2.IsReadable levels := by
    rw [List.forall_mem_cons, and_left_comm]
    exact and_congr_left fun _ => and_iff_right rfl
  cases first with
  | error flaw => exact fun hall => h (hreadable.mp hall).1
  | ok first =>
    have hvalue : value.IsReadable levels := by cases first <;> exact h.1
    cases others with
    | error flaw => exact fun hall => h' (hreadable.mp hall).2
    | ok _ => exact hreadable.mpr ⟨hvalue, h'⟩

mutual

/-- What comes of reading a draft to its end, one case for each kind of draft. -/
theorem outlines_outline (levels : Nat) (d : Draft) : Outlines levels d (outline levels d) := by
  cases d with
  | broken why => exact fun h => Draft.not_isWhole_broken why h.isWhole
  | null => exact ⟨Draft.isReadable_null, .null⟩
  | bool b => exact ⟨Draft.isReadable_bool b, .bool b⟩
  | number n =>
    rw [outline]
    split
    · next hvalue =>
      intro h
      have hsome := Draft.isReadable_number.mp h
      rw [hvalue] at hsome
      cases hsome
    · next x hvalue =>
      obtain ⟨y, hy⟩ := ofNumber_eq x
      rw [hy]
      exact ⟨Draft.isReadable_number.mpr (by rw [hvalue]; rfl), .number hvalue hy⟩
  | text content =>
    cases content with
    | none => exact fun h => nomatch Draft.isReadable_text.mp h
    | some s => exact ⟨Draft.isReadable_text.mpr rfl, .text s⟩
  | list items ending =>
    cases levels with
    | zero =>
      intro h
      obtain ⟨inner, hinner, _⟩ := Draft.isReadable_list.mp h
      cases hinner
    | succ levels => exact outlines_list (outlines_outlineItems levels ending items)
  | object members ending =>
    cases levels with
    | zero =>
      intro h
      obtain ⟨inner, hinner, _⟩ := Draft.isReadable_object.mp h
      cases hinner
    | succ levels => exact outlines_object (outlines_outlineMembers levels ending members)

theorem outlines_outlineItems (levels : Nat) (ending : Ending) (items : List Draft) :
    OutlinesItems levels ending items (outlineItems levels ending items) := by
  cases items with
  | nil =>
    cases ending with
    | closed => exact ⟨⟨rfl, fun _ h => nomatch h⟩, .nil⟩
    | broken why => exact fun h => nomatch h.1
  | cons item items =>
    exact outlines_cons (outlines_outline levels item) (outlines_outlineItems levels ending items)

theorem outlines_outlineMembers (levels : Nat) (ending : Ending)
    (members : List (Option String × Draft)) :
    OutlinesMembers levels ending members (outlineMembers levels ending members) := by
  cases members with
  | nil =>
    cases ending with
    | closed => exact ⟨rfl, fun _ h => nomatch h⟩
    | broken why => exact fun h => nomatch h.1
  | cons member members =>
    obtain ⟨key, value⟩ := member
    cases key with
    | none => exact fun h => nomatch (h.2 _ List.mem_cons_self).1
    | some key =>
      exact outlines_member (outlines_outline levels value)
        (outlines_outlineMembers levels ending members)

end

end Outline

/-! ## Trees -/

/-- A tree of null, booleans, doubles by their bits, texts and lists. -/
inductive Tree where
  | null
  | bool (value : Bool)
  | double (bits : UInt64)
  | text (content : String)
  | list (items : List Tree)

mutual

/-- The tree of a value without references. -/
def tree? : Value → Option Tree
  | .null => some .null
  | .bool b => some (.bool b)
  | .number x => some (.double x.toBits)
  | .text s => some (.text s)
  | .list values => (trees? values).map .list
  | .reference _ => none

def trees? : List Value → Option (List Tree)
  | [] => some []
  | v :: values => (tree? v).bind fun tree => (trees? values).map fun trees => tree :: trees

end

mutual

/-- The tree of a legible document without objects. -/
def treeOf? : Draft → Option Tree
  | .null => some .null
  | .bool b => some (.bool b)
  | .number n => n.value.bind fun x => tree? (ofNumber x)
  | .text content => content.map .text
  | .list items _ => (treesOf? items).map .list
  | _ => none

def treesOf? : List Draft → Option (List Tree)
  | [] => some []
  | item :: items => (treeOf? item).bind fun tree => (treesOf? items).map fun trees => tree :: trees

end

mutual

/-- A value that mirrors a document has the same tree. -/
theorem exists_tree (d : Draft) (v : Value) (h : Mirrors d v) :
    ∃ tree, v.tree? = some tree ∧ treeOf? d = some tree := by
  cases h with
  | null => exact ⟨_, rfl, rfl⟩
  | bool b => exact ⟨_, rfl, rfl⟩
  | number hvalue hy => exact ⟨_, rfl, by rw [treeOf?, hvalue, Option.bind_some, hy]; rfl⟩
  | text s => exact ⟨_, rfl, rfl⟩
  | @list items values hvalues =>
    obtain ⟨trees, htrees, htrees'⟩ := exists_trees items values hvalues
    exact ⟨.list trees, by rw [tree?, htrees]; rfl, by rw [treeOf?, htrees']; rfl⟩

theorem exists_trees (items : List Draft) (values : List Value)
    (h : List.Forall₂ Mirrors items values) :
    ∃ trees, trees? values = some trees ∧ treesOf? items = some trees := by
  cases h with
  | nil => exact ⟨[], rfl, rfl⟩
  | @cons item v items values hv hvalues =>
    obtain ⟨tree, htree, htree'⟩ := exists_tree item v hv
    obtain ⟨trees, htrees, htrees'⟩ := exists_trees items values hvalues
    exact ⟨tree :: trees, by rw [trees?, htree, htrees]; rfl,
      by rw [treesOf?, htree', htrees']; rfl⟩

end

/-! ## Reading texts -/

section Texts

variable {d : Draft} {v : Value} {text : String} {front back : List Char} {m : Mismatch}

/-- A draft is read as the value that mirrors it, or it holds an object, or it is not
readable. -/
theorem read_cases (d : Draft) :
    (∃ v, Value.read d = .ok v ∧ d.IsReadable maxLevels ∧ Mirrors d v) ∨
    (Value.read d = .error (.mismatch .notAValue) ∧ d.IsReadable maxLevels ∧ d.HoldsObject) ∨
    ∃ flaw, Value.read d = .error (.flaw flaw) ∧ ¬ d.IsReadable maxLevels := by
  have houtline := outlines_outline maxLevels d
  rw [Value.read]
  cases hfound : outline maxLevels d with
  | error flaw =>
    rw [hfound] at houtline
    exact .inr (.inr ⟨flaw, rfl, houtline⟩)
  | ok found =>
    rw [hfound] at houtline
    cases found with
    | none => exact .inr (.inl ⟨rfl, houtline⟩)
    | some v => exact .inl ⟨v, rfl, houtline⟩

theorem mirrors_of_read (h : Value.read d = .ok v) : d.IsReadable maxLevels ∧ Mirrors d v := by
  rcases read_cases d with ⟨w, hw, hd⟩ | ⟨hread, _⟩ | ⟨flaw, hread, _⟩
  · cases h.symm.trans hw
    exact hd
  · cases h.symm.trans hread
  · cases h.symm.trans hread

theorem read_mismatch_iff : Value.read d = .error (.mismatch m) ↔
    m = .notAValue ∧ d.IsReadable maxLevels ∧ d.HoldsObject := by
  rcases read_cases d with ⟨w, hw, hreadable, hmirrors⟩ | ⟨hread, hd⟩ | ⟨flaw, hread, hd⟩
  · rw [hw]
    exact ⟨nofun, fun h => absurd h.2.2 hmirrors.not_holdsObject⟩
  · rw [hread]
    constructor
    · intro h
      cases h
      exact ⟨rfl, hd⟩
    · rintro ⟨rfl, _⟩
      rfl
  · rw [hread]
    exact ⟨nofun, fun h => absurd h.2.1 hd⟩

theorem ofText_eq_ok_iff : Value.ofText text = .ok v ↔
    ∃ d : Draft, d.Spelled text.toList ∧ Value.read d = .ok v :=
  readText_eq_ok_iff fun _ h => (mirrors_of_read h).1.isWhole

/-- A document with an object ends with a bracket. -/
theorem not_isNumber_last (h : d.HoldsObject) : ∀ t ∈ d.tokens.getLast?, ¬ t.IsNumber := by
  obtain ⟨members, ending, hpart⟩ := h
  cases hpart with
  | whole => exact fun t ht => Draft.not_isNumber_enclose id ht
  | item => exact fun t ht => Draft.not_isNumber_enclose id ht
  | member => exact fun t ht => Draft.not_isNumber_enclose id ht

theorem ofText_mismatch_iff : Value.ofText text = .error (.mismatch m) ↔
    m = .notAValue ∧ ∃ (d : Draft) (front back : List Char), text.toList = front ++ back ∧
      d.Spelled front ∧ d.IsReadable maxLevels ∧ d.HoldsObject := by
  have hread : Value.ofText text = .error (.mismatch m) ↔
      Value.read (Document.ofText text).draft = .error (.mismatch m) := by
    rw [Value.ofText, readText, Document.read]
    cases Value.read (Document.ofText text).draft with
    | error fault => exact Iff.rfl
    | ok v =>
      constructor
      · intro h
        cases htrailing : (Document.ofText text).trailing with
        | true =>
          rw [htrailing] at h
          cases h
        | false =>
          rw [htrailing] at h
          cases h
      · intro h
        cases h
  rw [hread, read_mismatch_iff]
  refine and_congr_right fun _ => ⟨?_, ?_⟩
  · rintro ⟨hreadable, hobject⟩
    obtain ⟨front, back, htext, hspelled⟩ := Document.spelled_of_ofText hreadable.isWhole
    exact ⟨_, front, back, htext, hspelled, hreadable, hobject⟩
  · rintro ⟨d, front, back, htext, hspelled, hreadable, hobject⟩
    rw [Document.ofText_of_spelled hspelled htext fun t ht hnumber =>
      absurd hnumber (not_isNumber_last hobject t ht)]
    exact ⟨hreadable, hobject⟩

theorem exists_value_iff (hd : d.Spelled text.toList) (h : d.IsReadable maxLevels) :
    (∃ v, Value.ofText text = .ok v) ↔ ¬ d.HoldsObject := by
  rw [Value.ofText, readText_of_spelled hd]
  rcases read_cases d with ⟨v, hv, _, hmirrors⟩ | ⟨hread, _, hobject⟩ | ⟨_, _, hnot⟩
  · exact ⟨fun _ => hmirrors.not_holdsObject, fun _ => ⟨v, hv⟩⟩
  · rw [hread]
    exact ⟨fun ⟨_, h⟩ => (nomatch h), fun h => absurd hobject h⟩
  · exact absurd h hnot

theorem mirrors_of_ofText (hd : d.Spelled text.toList) (h : Value.ofText text = .ok v) :
    d.IsReadable maxLevels ∧ Mirrors d v :=
  mirrors_of_read ((readText_of_spelled hd).symm.trans h)

end Texts

/-- Values are exactly the documents without objects, within the limit, and they mirror them.
A text is refused for an object exactly if it starts with a document that holds one; every other
text that is refused has a flaw. -/
theorem ofText_documents (text : String) :
    (∀ d : Draft, d.Spelled text.toList → d.IsReadable maxLevels →
      ((∃ v, Value.ofText text = .ok v) ↔ ¬ d.HoldsObject) ∧
      (d.HoldsObject → Value.ofText text = .error (.mismatch .notAValue))) ∧
    (∀ v, Value.ofText text = .ok v → ¬ v.HoldsReference ∧ ∃ d : Draft,
      d.Spelled text.toList ∧ d.IsReadable maxLevels ∧ Mirrors d v ∧
        ∃ tree, v.tree? = some tree ∧ treeOf? d = some tree) ∧
    (∀ other v w (d e : Draft), Value.ofText text = .ok v → Value.ofText other = .ok w →
      d.Spelled text.toList → e.Spelled other.toList → treeOf? d ≠ treeOf? e → v ≠ w) ∧
    ∀ m, Value.ofText text = .error (.mismatch m) ↔ m = .notAValue ∧
      ∃ (d : Draft) (front back : List Char), text.toList = front ++ back ∧ d.Spelled front ∧
        d.IsReadable maxLevels ∧ d.HoldsObject := by
  refine ⟨fun d hd h => ⟨exists_value_iff hd h, fun hobject => ?_⟩, fun v hv => ?_, ?_,
    fun m => ofText_mismatch_iff⟩
  · exact ofText_mismatch_iff.mpr ⟨rfl, d, _, [], (List.append_nil _).symm, hd, h, hobject⟩
  · obtain ⟨d, hd, hread⟩ := ofText_eq_ok_iff.mp hv
    obtain ⟨hreadable, hmirrors⟩ := mirrors_of_read hread
    exact ⟨hmirrors.not_holdsReference, d, hd, hreadable, hmirrors, exists_tree d v hmirrors⟩
  · rintro other v w d e hv hw hd he hne rfl
    obtain ⟨tree, hv', hd'⟩ := exists_tree d v (mirrors_of_ofText hd hv).2
    obtain ⟨_, hw', he'⟩ := exists_tree e v (mirrors_of_ofText he hw).2
    exact hne (hd'.trans (hv'.symm.trans (hw'.trans he'.symm)))

/-- A list in a list. -/
def exItems : List Draft := [.null, .list [.text (some "a")] .closed]

theorem mirrors_exItems :
    Mirrors (.list exItems .closed) (.list [.null, .list [.text "a"]]) :=
  .list (.cons .null (.cons (.list (.cons (.text "a") .nil)) .nil))

/-- The same list with an object behind its items. -/
def exObject : List Draft := exItems ++ [.object [] .closed]

theorem isReadable_exItems : ∀ item ∈ exItems, item.IsReadable 126 := by
  simp only [exItems, List.forall_mem_cons]
  exact ⟨Draft.isReadable_null, Draft.isReadable_list.mpr ⟨125, rfl, rfl,
    List.forall_mem_cons.mpr ⟨Draft.isReadable_text.mpr rfl, fun _ h => nomatch h⟩⟩,
    fun _ h => nomatch h⟩

theorem isReadable_exObject : ∀ item ∈ exObject, item.IsReadable 126 :=
  List.forall_mem_append.mpr ⟨isReadable_exItems, List.forall_mem_singleton.mpr
    (Draft.isReadable_object.mpr ⟨125, rfl, rfl, fun _ h => nomatch h⟩)⟩

/-- A list in a list is a value, another one than the empty list; with an object behind the
first list it is none. -/
theorem ofText_documents_exItems :
    (∃ v w, Value.ofText "[null, [\"\\u0061\"]]" = .ok v ∧ Value.ofText " []" = .ok w ∧
      ¬ v.HoldsReference ∧ v ≠ w) ∧
    Value.ofText "[null, [\"a\"], \x7b\x7d]" = .error (.mismatch .notAValue) := by
  have hitems : (Draft.list exItems .closed).Spelled "[null, [\"\\u0061\"]]".toList :=
    Draft.spelled_iff.mpr ⟨rfl, by decide +kernel⟩
  have hempty : (Draft.list [] .closed).Spelled " []".toList :=
    Draft.spelled_iff.mpr ⟨rfl, by decide +kernel⟩
  have hreadable : (Draft.list [] .closed).IsReadable maxLevels :=
    Draft.isReadable_list.mpr ⟨126, rfl, rfl, fun _ h => nomatch h⟩
  constructor
  · obtain ⟨v, hv⟩ := ((ofText_documents _).1 _ hitems
      (Draft.isReadable_list.mpr ⟨126, rfl, rfl, isReadable_exItems⟩)).1.mpr
      mirrors_exItems.not_holdsObject
    obtain ⟨w, hw⟩ := ((ofText_documents _).1 _ hempty hreadable).1.mpr
      (Mirrors.list .nil).not_holdsObject
    refine ⟨v, w, hv, hw, ((ofText_documents _).2.1 v hv).1, ?_⟩
    exact (ofText_documents _).2.2.1 _ v w _ _ hv hw hitems hempty (by rintro ⟨⟩)
  · exact ((ofText_documents _).1 (.list exObject .closed)
      (Draft.spelled_iff.mpr ⟨rfl, by decide +kernel⟩)
      (Draft.isReadable_list.mpr ⟨126, rfl, rfl, isReadable_exObject⟩)).2
      ⟨[], .closed, .item (List.mem_append_right exItems List.mem_cons_self) .whole⟩

/-- What follows a document with an object is not looked at, although the text is no document
then. -/
theorem ofText_behind_object :
    (∀ d : Draft, ¬ d.Spelled "\x7b\x7d x".toList) ∧
      Value.ofText "\x7b\x7d x" = .error (.mismatch .notAValue) := by
  constructor
  · intro d hd
    have htrailing : (Document.ofText "\x7b\x7d x").trailing = false :=
      congrArg Document.trailing (Document.spelled_iff.mp hd).2
    exact absurd htrailing (by decide +kernel)
  · refine ofText_mismatch_iff.mpr ⟨rfl, .object [] .closed, ['\x7b', '\x7d'], [' ', 'x'], rfl,
      Draft.spelled_iff.mpr ⟨rfl, by decide +kernel⟩,
      Draft.isReadable_object.mpr ⟨126, rfl, rfl, fun _ h => nomatch h⟩, [], .closed, .whole⟩

end Value

end BlockThreads
