import BlockThreads.Block
import BlockThreads.Proofs.Documents

/-!
# Which texts are blocks

A record has two forms, an object and a list. In an object its fields stand in any order
between members that nobody knows; in a list they stand in their declared order, and the last
ones may be missing. Either way a field with its default may be left out. This module says
which documents are forms of a given record, without a word about reading, and shows that
exactly these are read as the record.

Results:
1. `Mutation.read_eq_ok_iff`, `Block.read_eq_ok_iff`: what is read as a record is a form of it.
2. `Block.ofText_spellings`: all spellings of a block are read as this block, and nothing else
   is; a known key that comes twice and a missing opcode are refused.
-/

namespace BlockThreads

namespace Json

/-! ## Forms of a record -/

/-- A field of a record with its value: the documents that stand for the value, and whether
it is the default. -/
structure Field where
  name : String
  Means : Draft → Prop
  IsDefault : Prop

/-- The values of the members with a given key. -/
def valuesOf (name : String) (members : List (Option String × Draft)) : List Draft :=
  (members.filter fun member => member.1 = some name).map Prod.snd

/-- A field is given once, or left out if it has its default. -/
inductive Field.Given (f : Field) : List Draft → Prop
  | once {d : Draft} : f.Means d → f.Given [d]
  | leftOut : f.IsDefault → f.Given []

/-- All keys have contents, and the members that are not fields are documents of any kind. -/
def Admitted (names : List String) (members : List (Option String × Draft)) : Prop :=
  ∀ member ∈ members, ∃ key, member.1 = some key ∧ (key ∈ names ∨ member.2.IsWhole)

/-- Items give fields in their order. The fields behind the last item have their defaults. -/
inductive Listed : List Field → List Draft → Prop
  | stop {fields : List Field} : (∀ f ∈ fields, f.IsDefault) → Listed fields []
  | item {f : Field} {fields : List Field} {d : Draft} {items : List Draft} : f.Means d →
      Listed fields items → Listed (f :: fields) (d :: items)

/-- The forms of a record with some fields. -/
inductive Form (fields : List Field) : Draft → Prop
  | object {members : List (Option String × Draft)} :
      Admitted (fields.map Field.name) members →
      (∀ f ∈ fields, f.Given (valuesOf f.name members)) → Form fields (.object members .closed)
  | list {items : List Draft} : Listed fields items → Form fields (.list items .closed)

/-- Nothing is meant by null. -/
def OrNull {α : Type} (Means : α → Draft → Prop) : Option α → Draft → Prop
  | none, d => d = .null
  | some a, d => Means a d

def IsText (s : String) (d : Draft) : Prop := d = .text (some s)

theorem Field.Given.length_le {f : Field} {values : List Draft} (h : f.Given values) :
    values.length ≤ 1 := by
  cases h with
  | once _ => exact Nat.le_refl 1
  | leftOut _ => exact Nat.zero_le 1

section Forms

variable {name key : String} {value d : Draft} {members : List (Option String × Draft)}
  {fields : List Field} {names : List String}

theorem valuesOf_cons (name : String) (member : Option String × Draft)
    (members : List (Option String × Draft)) : valuesOf name (member :: members) =
      if member.1 = some name then member.2 :: valuesOf name members
      else valuesOf name members := by
  simp only [valuesOf, List.filter_cons, decide_eq_true_eq]
  split
  · rw [List.map_cons]
  · rfl

theorem valuesOf_append (name : String) (front back : List (Option String × Draft)) :
    valuesOf name (front ++ back) = valuesOf name front ++ valuesOf name back := by
  rw [valuesOf, List.filter_append, List.map_append]
  rfl

theorem mem_valuesOf (h : (some name, value) ∈ members) : value ∈ valuesOf name members :=
  List.mem_map.mpr ⟨_, List.mem_filter.mpr ⟨h, decide_eq_true rfl⟩, rfl⟩

theorem admitted_cons {key : Option String} : Admitted names ((key, value) :: members) ↔
    (∃ k, key = some k ∧ (k ∈ names ∨ value.IsWhole)) ∧ Admitted names members :=
  List.forall_mem_cons

theorem isWhole_given {f : Field} {values : List Draft} (hmeans : ∀ d, f.Means d → d.IsWhole)
    (h : f.Given values) : ∀ value ∈ values, value.IsWhole := by
  cases h with
  | once hd => exact fun _ hvalue => List.mem_singleton.mp hvalue ▸ hmeans _ hd
  | leftOut _ => exact fun _ hvalue => by cases hvalue

theorem isWhole_listed {items : List Draft} (hmeans : ∀ f ∈ fields, ∀ d, f.Means d → d.IsWhole)
    (h : Listed fields items) : ∀ item ∈ items, item.IsWhole := by
  induction h with
  | stop _ => exact fun _ hitem => by cases hitem
  | item hd _ ih =>
    obtain ⟨hf, hfields⟩ := List.forall_mem_cons.mp hmeans
    exact List.forall_mem_cons.mpr ⟨hf _ hd, ih hfields⟩

/-- A form of a record is a document. -/
theorem Form.isWhole (hmeans : ∀ f ∈ fields, ∀ d, f.Means d → d.IsWhole) (h : Form fields d) :
    d.IsWhole := by
  cases h with
  | list hitems => exact Draft.isWhole_list.mpr ⟨rfl, isWhole_listed hmeans hitems⟩
  | object hadmitted hgiven =>
    refine Draft.isWhole_object.mpr ⟨rfl, ?_⟩
    rintro ⟨key, value⟩ hmember
    obtain ⟨key, rfl, hknown | hwhole⟩ := hadmitted _ hmember
    · obtain ⟨f, hf, rfl⟩ := List.mem_map.mp hknown
      exact isWhole_given (hmeans f hf) (hgiven f hf) value (mem_valuesOf hmember)
    · exact hwhole

end Forms

/-! ## Reading scalars -/

section Scalars

variable {α : Type} {d : Draft} {reader : Draft → Except Fault α}

theorem refuse_ne_ok (expected : Expected) (d : Draft) (a : α) : d.refuse expected ≠ .ok a := by
  unfold Draft.refuse
  split
  · exact fun h => by cases h
  · exact fun h => by cases h

theorem readString_eq_ok_iff {s : String} : d.readString = .ok s ↔ IsText s d := by
  constructor
  · intro h
    unfold Draft.readString at h
    split at h
    · cases h
      rfl
    · exact absurd h (refuse_ne_ok _ _ _)
  · rintro rfl
    rfl

theorem readBool_eq_ok_iff {b : Bool} : d.readBool = .ok b ↔ d = .bool b := by
  constructor
  · intro h
    unfold Draft.readBool at h
    split at h
    · cases h
      rfl
    · exact absurd h (refuse_ne_ok _ _ _)
  · rintro rfl
    rfl

theorem map_eq_ok_iff {β : Type} {x : Except Fault α} {f : α → β} {b : β} :
    x.map f = .ok b ↔ ∃ a, x = .ok a ∧ f a = b := by
  cases x with
  | error fault => exact ⟨nofun, fun ⟨_, h, _⟩ => nomatch h⟩
  | ok a =>
    constructor
    · exact fun h => ⟨a, rfl, Except.ok.inj h⟩
    · rintro ⟨_, h, rfl⟩
      cases h
      rfl

/-- Null is read as nothing, and nothing else is, if the reader does not accept null. -/
theorem readOptional_eq_ok_iff {Means : α → Draft → Prop} {o : Option α}
    (hreader : ∀ a d, reader d = .ok a ↔ Means a d) (hnull : ∀ a, ¬ Means a .null) :
    d.readOptional reader = .ok o ↔ OrNull Means o d := by
  unfold Draft.readOptional
  split
  · cases o with
    | none => exact ⟨fun _ => rfl, fun _ => rfl⟩
    | some a => exact ⟨nofun, fun h => absurd h (hnull a)⟩
  · next hother =>
    rw [map_eq_ok_iff]
    cases o with
    | none => exact ⟨fun ⟨_, _, h⟩ => (nomatch h), fun h => absurd h hother⟩
    | some a =>
      constructor
      · rintro ⟨a, ha, h⟩
        cases h
        exact (hreader a d).mp ha
      · exact fun ha => ⟨a, (hreader a d).mpr ha, rfl⟩

end Scalars

/-! ## Reading members into fields -/

section Fields

variable {α : Type} {reader : Draft → Except Fault α} {name key : String} {value : Draft}
  {members : List (Option String × Draft)} {p q : Option α}

theorem fill_eq_ok_iff : fill name p reader value = .ok q ↔
    p = none ∧ ∃ a, reader value = .ok a ∧ q = some a := by
  cases p with
  | some a => exact ⟨nofun, fun ⟨h, _⟩ => nomatch h⟩
  | none =>
    rw [fill, map_eq_ok_iff]
    exact ⟨fun ⟨a, ha, hq⟩ => ⟨rfl, a, ha, hq.symm⟩, fun ⟨_, a, ha, hq⟩ => ⟨a, ha, hq.symm⟩⟩

/-- What a member makes of a field: it fills it, or it has another key. -/
def Takes (name : String) (reader : Draft → Except Fault α) (key : String) (value : Draft)
    (p q : Option α) : Prop :=
  if key = name then fill name p reader value = .ok q else q = p

theorem takes_self : Takes name reader name value p q ↔ fill name p reader value = .ok q := by
  rw [Takes, if_pos rfl]

theorem takes_other (h : key ≠ name) : Takes name reader key value p p := by
  rw [Takes, if_neg h]

theorem takes_of_ne (h : key ≠ name) : Takes name reader key value p q ↔ q = p := by
  rw [Takes, if_neg h]

/-- What some values make of a field, one after the other. -/
def Filled (name : String) (reader : Draft → Except Fault α) : Option α → Option α →
    List Draft → Prop
  | p, q, [] => q = p
  | p, q, value :: values => ∃ r, fill name p reader value = .ok r ∧ Filled name reader r q values

theorem filled_valuesOf_cons :
    Filled name reader p q (valuesOf name ((some key, value) :: members)) ↔
      ∃ r, Takes name reader key value p r ∧ Filled name reader r q (valuesOf name members) := by
  rw [valuesOf_cons]
  by_cases h : key = name
  · subst h
    rw [if_pos rfl, Filled]
    exact exists_congr fun r => and_congr_left fun _ => takes_self.symm
  · rw [if_neg fun hkey => h (Option.some.inj hkey)]
    constructor
    · exact fun hq => ⟨p, (takes_of_ne h).mpr rfl, hq⟩
    · rintro ⟨r, hr, hq⟩
      exact (takes_of_ne h).mp hr ▸ hq

/-- A field that holds a value is filled by no other value. -/
theorem filled_some {a : α} {values : List Draft} :
    Filled name reader (some a) q values ↔ values = [] ∧ q = some a := by
  cases values with
  | nil => exact ⟨fun h => ⟨rfl, h⟩, fun h => h.2⟩
  | cons value values => exact ⟨fun ⟨_, h, _⟩ => (nomatch h), fun h => nomatch h.1⟩

/-- A field that is empty at first is filled by its only value. -/
theorem filled_none {values : List Draft} : Filled name reader none q values ↔
    values = [] ∧ q = none ∨ ∃ value a, values = [value] ∧ reader value = .ok a ∧ q = some a := by
  cases values with
  | nil =>
    constructor
    · exact fun h => .inl ⟨rfl, h⟩
    · rintro (⟨_, rfl⟩ | ⟨_, _, h, _⟩)
      · rfl
      · cases h
  | cons value values =>
    rw [Filled]
    constructor
    · rintro ⟨r, hr, hq⟩
      obtain ⟨-, a, ha, rfl⟩ := fill_eq_ok_iff.mp hr
      obtain ⟨rfl, rfl⟩ := filled_some.mp hq
      exact .inr ⟨value, a, rfl, ha, rfl⟩
    · rintro (⟨h, _⟩ | ⟨only, a, h, ha, rfl⟩)
      · cases h
      · cases h
        exact ⟨some a, fill_eq_ok_iff.mpr ⟨rfl, a, ha, rfl⟩, filled_some.mpr ⟨rfl, rfl⟩⟩

/-- A reader finds the value of a field; `Final` tells whether what has been found is this
value. Nothing found will do if the value is the default. -/
structure Field.IsReadBy (f : Field) (reader : Draft → Except Fault α) (Final : Option α → Prop) :
    Prop where
  none_iff : Final none ↔ f.IsDefault
  some_iff : ∀ d, f.Means d ↔ ∃ a, reader d = .ok a ∧ Final (some a)

theorem isReadBy_required {Means : Draft → Prop} {a : α}
    (hreader : ∀ d, reader d = .ok a ↔ Means d) :
    Field.IsReadBy ⟨name, Means, False⟩ reader (· = some a) where
  none_iff := ⟨nofun, nofun⟩
  some_iff d := by
    refine (hreader d).symm.trans ?_
    constructor
    · exact fun h => ⟨a, h, rfl⟩
    · rintro ⟨_, h, hfinal⟩
      cases hfinal
      exact h

theorem isReadBy_getD {Means : Draft → Prop} {a fallback : α}
    (hreader : ∀ d, reader d = .ok a ↔ Means d) :
    Field.IsReadBy ⟨name, Means, a = fallback⟩ reader (fun o => o.getD fallback = a) where
  none_iff := eq_comm
  some_iff d := by
    refine (hreader d).symm.trans ?_
    constructor
    · exact fun h => ⟨a, h, rfl⟩
    · rintro ⟨_, h, rfl⟩
      exact h

/-- A field ends up with its value exactly if it is given. -/
theorem exists_filled_iff {f : Field} {Final : Option α → Prop} {values : List Draft}
    (h : f.IsReadBy reader Final) :
    (∃ q, Filled f.name reader none q values ∧ Final q) ↔ f.Given values := by
  constructor
  · rintro ⟨q, hq, hfinal⟩
    rcases filled_none.mp hq with ⟨rfl, rfl⟩ | ⟨value, a, rfl, ha, rfl⟩
    · exact .leftOut (h.none_iff.mp hfinal)
    · exact .once ((h.some_iff value).mpr ⟨a, ha, hfinal⟩)
  · intro hgiven
    cases hgiven with
    | once hd =>
      obtain ⟨a, ha, hfinal⟩ := (h.some_iff _).mp hd
      exact ⟨some a, filled_none.mpr (.inr ⟨_, a, rfl, ha, rfl⟩), hfinal⟩
    | leftOut hdefault =>
      exact ⟨none, filled_none.mpr (.inl ⟨rfl, rfl⟩), h.none_iff.mpr hdefault⟩

end Fields

theorem skip_eq_ok_iff {d : Draft} : d.skip = .ok () ↔ d.IsWhole := by
  rw [Draft.skip, Draft.IsWhole]
  cases d.skipped? with
  | none => exact ⟨fun _ => rfl, fun _ => rfl⟩
  | some flaw =>
    constructor
    · intro h
      cases h
    · intro h
      cases h

theorem finish_eq_ok_iff {ending : Ending} : ending.finish = .ok () ↔ ending = .closed := by
  cases ending with
  | closed => exact ⟨fun _ => rfl, fun _ => rfl⟩
  | broken why => exact ⟨nofun, nofun⟩

theorem readObject_eq_ok_iff {σ : Type} {step : σ → String → Draft → Except Fault σ}
    {s s' : σ} {members : List (Option String × Draft)} {ending : Ending} :
    readObject step s members ending = .ok s' ↔
      readMembers step s members = .ok s' ∧ ending = .closed := by
  rw [readObject]
  cases readMembers step s members with
  | error fault => exact ⟨nofun, fun h => nomatch h.1⟩
  | ok t =>
    cases ending with
    | closed => exact ⟨fun h => ⟨h, rfl⟩, fun h => h.1⟩
    | broken why => exact ⟨nofun, fun h => nomatch h.2⟩

/-- A record reader that passes over unknown members reads the known ones into their fields. -/
theorem readMembers_eq_ok_iff {σ : Type} {step : σ → String → Draft → Except Fault σ}
    {names : List String} {Step : String → Draft → σ → σ → Prop}
    (Run : List (Option String × Draft) → σ → σ → Prop)
    (hstep : ∀ s key value s', step s key value = .ok s' ↔
      Step key value s s' ∧ (key ∈ names ∨ value.IsWhole))
    (hnil : ∀ s s', Run [] s s' ↔ s' = s)
    (hcons : ∀ key value members s s', Run ((some key, value) :: members) s s' ↔
      ∃ t, Step key value s t ∧ Run members t s')
    {members : List (Option String × Draft)} {s s' : σ} :
    readMembers step s members = .ok s' ↔ Admitted names members ∧ Run members s s' := by
  induction members generalizing s with
  | nil =>
    rw [readMembers, hnil]
    constructor
    · exact fun h => ⟨List.forall_mem_nil _, (Except.ok.inj h).symm⟩
    · exact fun h => by rw [h.2]
  | cons member members ih =>
    obtain ⟨key, value⟩ := member
    rw [admitted_cons]
    cases key with
    | none =>
      constructor
      · intro h
        cases h
      · rintro ⟨⟨⟨_, hkey, _⟩, _⟩, _⟩
        cases hkey
    | some key =>
      rw [hcons, readMembers]
      constructor
      · intro h
        cases ht : step s key value with
        | error fault =>
          rw [ht] at h
          cases h
        | ok t =>
          rw [ht] at h
          obtain ⟨hstep, hknown⟩ := (hstep _ _ _ _).mp ht
          obtain ⟨hadmitted, hrun⟩ := ih.mp h
          exact ⟨⟨⟨key, rfl, hknown⟩, hadmitted⟩, t, hstep, hrun⟩
      · rintro ⟨⟨⟨_, hkey, hknown⟩, hadmitted⟩, t, ht, hrun⟩
        cases hkey
        rw [(hstep _ _ _ _).mpr ⟨ht, hknown⟩]
        exact ih.mpr ⟨hadmitted, hrun⟩

/-! ## Reading items into fields -/

section Items

variable {f : Field} {fields : List Field} {items : List Draft}

theorem listed_nil_iff : Listed fields [] ↔ ∀ f ∈ fields, f.IsDefault :=
  ⟨fun h => by cases h; assumption, .stop⟩

theorem listed_of_no_fields : Listed [] items ↔ items = [] := by
  constructor
  · intro h
    cases h
    rfl
  · rintro rfl
    exact .stop fun _ hf => by cases hf

theorem listed_cons_iff {d : Draft} :
    Listed (f :: fields) (d :: items) ↔ f.Means d ∧ Listed fields items := by
  constructor
  · rintro (_ | ⟨hd, hitems⟩)
    exact ⟨hd, hitems⟩
  · exact fun ⟨hd, hitems⟩ => .item hd hitems

theorem items_finish_eq_ok_iff {ending : Ending} :
    (Items.mk items ending).finish = .ok () ↔ ending = .closed ∧ items = [] := by
  cases items with
  | nil => exact finish_eq_ok_iff.trans (and_iff_left rfl).symm
  | cons item items => exact ⟨nofun, fun h => nomatch h.2⟩

/-- The next item gives the next field. `Others` says that the fields before are right. -/
theorem next_bind_eq_ok_iff {α β : Type} {reader : Draft → Except Fault α} {Others : Prop}
    {Final : Option α → Prop} {ending : Ending} {k : Option α × Items → Except Fault β} {b : β}
    (h : f.IsReadBy reader Final)
    (hk : ∀ o rest, k (o, ⟨rest, ending⟩) = .ok b ↔
      ending = .closed ∧ Listed fields rest ∧ Final o ∧ Others) :
    (Items.next reader ⟨items, ending⟩ >>= k) = .ok b ↔
      ending = .closed ∧ Listed (f :: fields) items ∧ Others := by
  cases items with
  | nil =>
    cases ending with
    | broken why => exact ⟨nofun, fun h => nomatch h.1⟩
    | closed =>
      refine (hk none []).trans (and_congr_right fun _ => ?_)
      rw [listed_nil_iff, listed_nil_iff, List.forall_mem_cons, h.none_iff, ← and_assoc,
        and_comm (b := f.IsDefault)]
  | cons d rest =>
    rw [listed_cons_iff, h.some_iff, Items.next]
    dsimp only
    cases hd : reader d with
    | error fault => exact ⟨nofun, fun ⟨_, ⟨⟨_, h, _⟩, _⟩, _⟩ => nomatch h⟩
    | ok a =>
      refine (hk (some a) rest).trans (and_congr_right fun _ => ?_)
      have hfinal : (∃ c, (Except.ok a : Except Fault α) = .ok c ∧ Final (some c)) ↔
          Final (some a) :=
        ⟨fun ⟨_, hc, hfinal⟩ => Except.ok.inj hc ▸ hfinal, fun hfinal => ⟨a, rfl, hfinal⟩⟩
      rw [hfinal, ← and_assoc, and_comm (b := Final (some a))]

end Items

end Json

open Json

/-! ## Mutations -/

namespace Mutation

variable {m : Mutation} {d : Draft}

def proccodeField (m : Mutation) : Field := ⟨"proccode", IsText m.proccode, m.proccode = ""⟩

/-- The fields of a mutation. -/
def fields (m : Mutation) : List Field := [m.proccodeField]

theorem proccodeField_isReadBy :
    m.proccodeField.IsReadBy Draft.readString (fun o => o.getD "" = m.proccode) :=
  isReadBy_getD fun _ => readString_eq_ok_iff

theorem isWhole_of_means : ∀ f ∈ m.fields, ∀ d, f.Means d → d.IsWhole := by
  intro f hf d hd
  cases List.mem_singleton.mp hf
  cases hd
  rfl

theorem step_eq_ok_iff (p : Partial) (key : String) (value : Draft) (q : Partial) :
    p.step key value = .ok q ↔ Takes "proccode" Draft.readString key value p.proccode q.proccode ∧
      (key ∈ ["proccode"] ∨ value.IsWhole) := by
  rw [List.mem_singleton]
  unfold Partial.step
  split
  · rw [map_eq_ok_iff, takes_self]
    constructor
    · rintro ⟨o, ho, rfl⟩
      exact ⟨ho, .inl rfl⟩
    · exact fun ⟨ho, _⟩ => ⟨q.proccode, ho, rfl⟩
  · next hkey =>
    rw [map_eq_ok_iff, takes_of_ne hkey, or_iff_right hkey, ← skip_eq_ok_iff]
    constructor
    · rintro ⟨_, hskip, rfl⟩
      exact ⟨rfl, hskip⟩
    · exact fun ⟨hq, hskip⟩ => ⟨(), hskip, congrArg Partial.mk hq.symm⟩

theorem readMembers_iff {p q : Partial} {members : List (Option String × Draft)} :
    readMembers Partial.step p members = .ok q ↔ Admitted ["proccode"] members ∧
      Filled "proccode" Draft.readString p.proccode q.proccode (valuesOf "proccode" members) := by
  refine readMembers_eq_ok_iff (fun members p q =>
    Filled "proccode" Draft.readString p.proccode q.proccode (valuesOf "proccode" members))
    step_eq_ok_iff ?_ ?_
  · intro p q
    exact ⟨fun h => congrArg Partial.mk h, fun h => congrArg Partial.proccode h⟩
  · intro key value members p q
    refine filled_valuesOf_cons.trans ?_
    exact ⟨fun ⟨o, hstep, hrun⟩ => ⟨⟨o⟩, hstep, hrun⟩, fun ⟨r, hstep, hrun⟩ => ⟨_, hstep, hrun⟩⟩

theorem finish_proccode {o : Option String} : Partial.finish ⟨o⟩ = m ↔ o.getD "" = m.proccode :=
  ⟨fun h => h ▸ rfl, fun h => congrArg Mutation.mk h⟩

theorem ofItems_eq_ok_iff {items : List Draft} {ending : Ending} :
    ofItems ⟨items, ending⟩ = .ok m ↔ ending = .closed ∧ Listed m.fields items := by
  refine (next_bind_eq_ok_iff proccodeField_isReadBy ?_).trans
    (and_congr_right fun _ => and_iff_left trivial)
  intro o rest
  rw [listed_of_no_fields, and_true, ← and_assoc, ← items_finish_eq_ok_iff, ← finish_proccode]
  dsimp only
  cases (Items.mk rest ending).finish with
  | error fault => exact ⟨nofun, fun h => nomatch h.1⟩
  | ok _ => exact ⟨fun h => ⟨rfl, Except.ok.inj h⟩, fun h => congrArg _ h.2⟩

/-- What is read as a mutation is a form of it. -/
theorem read_eq_ok_iff : Mutation.read d = .ok m ↔ Form m.fields d := by
  cases d with
  | list items ending =>
    refine ofItems_eq_ok_iff.trans ?_
    constructor
    · rintro ⟨rfl, h⟩
      exact .list h
    · rintro (_ | h)
      exact ⟨rfl, h⟩
  | object members ending =>
    rw [Mutation.read, map_eq_ok_iff]
    constructor
    · rintro ⟨q, hq, hfinish⟩
      obtain ⟨hread, rfl⟩ := readObject_eq_ok_iff.mp hq
      obtain ⟨hadmitted, hfilled⟩ := readMembers_iff.mp hread
      refine .object hadmitted fun f hf => ?_
      cases List.mem_singleton.mp hf
      exact (exists_filled_iff proccodeField_isReadBy).mp
        ⟨q.proccode, hfilled, finish_proccode.mp hfinish⟩
    · rintro (⟨hadmitted, hgiven⟩ | _)
      obtain ⟨o, hfilled, hfinal⟩ :=
        (exists_filled_iff proccodeField_isReadBy).mpr (hgiven _ List.mem_cons_self)
      refine ⟨⟨o⟩, readObject_eq_ok_iff.mpr ⟨?_, rfl⟩, finish_proccode.mpr hfinal⟩
      exact readMembers_iff.mpr ⟨hadmitted, hfilled⟩
  | broken | null | bool => exact ⟨nofun, nofun⟩
  | number | text => exact ⟨fun h => absurd h (refuse_ne_ok _ _ _), nofun⟩

end Mutation

/-! ## Blocks -/

namespace Block

variable {b : Block} {d : Draft}

/-- A block has to have an opcode. -/
def opcodeField (b : Block) : Field := ⟨"opcode", IsText b.opcode, False⟩

def nextField (b : Block) : Field := ⟨"next", OrNull IsText b.next, b.next = none⟩

def topLevelField (b : Block) : Field := ⟨"topLevel", (· = .bool b.topLevel), b.topLevel = false⟩

def mutationField (b : Block) : Field :=
  ⟨"mutation", OrNull (fun m => Form m.fields) b.mutation, b.mutation = none⟩

/-- The fields of a block. -/
def fields (b : Block) : List Field :=
  [b.opcodeField, b.nextField, b.topLevelField, b.mutationField]

/-- The names of the fields of a block. -/
def fieldNames : List String := ["opcode", "next", "topLevel", "mutation"]

theorem isWhole_of_orNull {α : Type} {Means : α → Draft → Prop} {o : Option α}
    (hmeans : ∀ a d, Means a d → d.IsWhole) (h : OrNull Means o d) : d.IsWhole := by
  cases o with
  | none =>
    cases h
    rfl
  | some a => exact hmeans a d h

theorem isWhole_of_isText {s : String} (h : IsText s d) : d.IsWhole := by
  cases h
  rfl

theorem isWhole_of_means : ∀ f ∈ b.fields, ∀ d, f.Means d → d.IsWhole := by
  simp only [fields, List.forall_mem_cons]
  refine ⟨fun d => isWhole_of_isText, fun d => isWhole_of_orNull fun _ _ => isWhole_of_isText, ?_,
    fun d => isWhole_of_orNull fun m d => Form.isWhole Mutation.isWhole_of_means, ?_⟩
  · rintro d rfl
    rfl
  · exact fun f hf => nomatch hf

theorem opcodeField_isReadBy : b.opcodeField.IsReadBy Draft.readString (· = some b.opcode) :=
  isReadBy_required fun _ => readString_eq_ok_iff

theorem nextField_isReadBy : b.nextField.IsReadBy (Draft.readOptional Draft.readString)
    (fun o => o.getD none = b.next) :=
  isReadBy_getD fun _ =>
    readOptional_eq_ok_iff (fun _ _ => readString_eq_ok_iff) fun _ h => nomatch h

theorem topLevelField_isReadBy :
    b.topLevelField.IsReadBy Draft.readBool (fun o => o.getD false = b.topLevel) :=
  isReadBy_getD fun _ => readBool_eq_ok_iff

theorem mutationField_isReadBy : b.mutationField.IsReadBy (Draft.readOptional Mutation.read)
    (fun o => o.getD none = b.mutation) :=
  isReadBy_getD fun _ =>
    readOptional_eq_ok_iff (fun _ _ => Mutation.read_eq_ok_iff) fun _ h => nomatch h

/-- What a member makes of the fields of a block. -/
structure Step (key : String) (value : Draft) (p q : Partial) : Prop where
  opcode : Takes "opcode" Draft.readString key value p.opcode q.opcode
  next : Takes "next" (Draft.readOptional Draft.readString) key value p.next q.next
  topLevel : Takes "topLevel" Draft.readBool key value p.topLevel q.topLevel
  mutation : Takes "mutation" (Draft.readOptional Mutation.read) key value p.mutation q.mutation

/-- What some members make of the fields of a block. -/
structure Run (members : List (Option String × Draft)) (p q : Partial) : Prop where
  opcode : Filled "opcode" Draft.readString p.opcode q.opcode (valuesOf "opcode" members)
  next : Filled "next" (Draft.readOptional Draft.readString) p.next q.next
    (valuesOf "next" members)
  topLevel : Filled "topLevel" Draft.readBool p.topLevel q.topLevel (valuesOf "topLevel" members)
  mutation : Filled "mutation" (Draft.readOptional Mutation.read) p.mutation q.mutation
    (valuesOf "mutation" members)

theorem step_eq_ok_iff (p : Partial) (key : String) (value : Draft) (q : Partial) :
    p.step key value = .ok q ↔ Step key value p q ∧ (key ∈ fieldNames ∨ value.IsWhole) := by
  obtain ⟨opcode, next, topLevel, mutation⟩ := q
  unfold Partial.step
  split
  · rw [map_eq_ok_iff]
    constructor
    · rintro ⟨o, ho, hq⟩
      cases hq
      exact ⟨⟨takes_self.mpr ho, takes_other (by decide),
        takes_other (by decide), takes_other (by decide)⟩, .inl (by decide)⟩
    · rintro ⟨⟨hopcode, hnext, htop, hmutation⟩, _⟩
      cases (takes_of_ne (by decide)).mp hnext
      cases (takes_of_ne (by decide)).mp htop
      cases (takes_of_ne (by decide)).mp hmutation
      exact ⟨opcode, takes_self.mp hopcode, rfl⟩
  · rw [map_eq_ok_iff]
    constructor
    · rintro ⟨o, ho, hq⟩
      cases hq
      exact ⟨⟨takes_other (by decide), takes_self.mpr ho,
        takes_other (by decide), takes_other (by decide)⟩, .inl (by decide)⟩
    · rintro ⟨⟨hopcode, hnext, htop, hmutation⟩, _⟩
      cases (takes_of_ne (by decide)).mp hopcode
      cases (takes_of_ne (by decide)).mp htop
      cases (takes_of_ne (by decide)).mp hmutation
      exact ⟨next, takes_self.mp hnext, rfl⟩
  · rw [map_eq_ok_iff]
    constructor
    · rintro ⟨o, ho, hq⟩
      cases hq
      exact ⟨⟨takes_other (by decide), takes_other (by decide),
        takes_self.mpr ho, takes_other (by decide)⟩, .inl (by decide)⟩
    · rintro ⟨⟨hopcode, hnext, htop, hmutation⟩, _⟩
      cases (takes_of_ne (by decide)).mp hopcode
      cases (takes_of_ne (by decide)).mp hnext
      cases (takes_of_ne (by decide)).mp hmutation
      exact ⟨topLevel, takes_self.mp htop, rfl⟩
  · rw [map_eq_ok_iff]
    constructor
    · rintro ⟨o, ho, hq⟩
      cases hq
      exact ⟨⟨takes_other (by decide), takes_other (by decide),
        takes_other (by decide), takes_self.mpr ho⟩, .inl (by decide)⟩
    · rintro ⟨⟨hopcode, hnext, htop, hmutation⟩, _⟩
      cases (takes_of_ne (by decide)).mp hopcode
      cases (takes_of_ne (by decide)).mp hnext
      cases (takes_of_ne (by decide)).mp htop
      exact ⟨mutation, takes_self.mp hmutation, rfl⟩
  · next hnoOpcode hnoNext hnoTop hnoMutation =>
    have hunknown : key ∉ fieldNames := by
      simp only [fieldNames, List.mem_cons, List.not_mem_nil, or_false, not_or]
      exact ⟨hnoOpcode, hnoNext, hnoTop, hnoMutation⟩
    rw [map_eq_ok_iff, or_iff_right hunknown, ← skip_eq_ok_iff]
    constructor
    · rintro ⟨_, hskip, hq⟩
      cases hq
      exact ⟨⟨takes_other hnoOpcode, takes_other hnoNext,
        takes_other hnoTop, takes_other hnoMutation⟩, hskip⟩
    · rintro ⟨⟨hopcode, hnext, htop, hmutation⟩, hskip⟩
      cases (takes_of_ne hnoOpcode).mp hopcode
      cases (takes_of_ne hnoNext).mp hnext
      cases (takes_of_ne hnoTop).mp htop
      cases (takes_of_ne hnoMutation).mp hmutation
      exact ⟨(), hskip, rfl⟩

theorem readMembers_iff {p q : Partial} {members : List (Option String × Draft)} :
    readMembers Partial.step p members = .ok q ↔ Admitted fieldNames members ∧ Run members p q := by
  refine readMembers_eq_ok_iff Run step_eq_ok_iff ?_ ?_
  · intro p q
    constructor
    · rintro ⟨hopcode, hnext, htop, hmutation⟩
      obtain ⟨opcode, next, topLevel, mutation⟩ := q
      cases hopcode
      cases hnext
      cases htop
      cases hmutation
      rfl
    · rintro rfl
      exact ⟨rfl, rfl, rfl, rfl⟩
  · intro key value members p q
    constructor
    · rintro ⟨hopcode, hnext, htop, hmutation⟩
      obtain ⟨opcode, hopcode, hopcode'⟩ := filled_valuesOf_cons.mp hopcode
      obtain ⟨next, hnext, hnext'⟩ := filled_valuesOf_cons.mp hnext
      obtain ⟨topLevel, htop, htop'⟩ := filled_valuesOf_cons.mp htop
      obtain ⟨mutation, hmutation, hmutation'⟩ := filled_valuesOf_cons.mp hmutation
      exact ⟨⟨opcode, next, topLevel, mutation⟩, ⟨hopcode, hnext, htop, hmutation⟩,
        hopcode', hnext', htop', hmutation'⟩
    · rintro ⟨r, hstep, hrun⟩
      exact ⟨filled_valuesOf_cons.mpr ⟨_, hstep.opcode, hrun.opcode⟩,
        filled_valuesOf_cons.mpr ⟨_, hstep.next, hrun.next⟩,
        filled_valuesOf_cons.mpr ⟨_, hstep.topLevel, hrun.topLevel⟩,
        filled_valuesOf_cons.mpr ⟨_, hstep.mutation, hrun.mutation⟩⟩

theorem finish_eq_ok_iff {p : Partial} : p.finish = .ok b ↔ p.opcode = some b.opcode ∧
    p.next.getD none = b.next ∧ p.topLevel.getD false = b.topLevel ∧
      p.mutation.getD none = b.mutation := by
  obtain ⟨_ | opcode, next, topLevel, mutation⟩ := p
  · exact ⟨nofun, fun h => nomatch h.1⟩
  · constructor
    · intro h
      cases h
      exact ⟨rfl, rfl, rfl, rfl⟩
    · rintro ⟨hopcode, hnext, htop, hmutation⟩
      cases hopcode
      simp only [Partial.finish, Partial.toBlock, hnext, htop, hmutation]

/-- The fields of a block are given exactly if the members make them so. -/
theorem given_iff {members : List (Option String × Draft)} :
    (∀ f ∈ b.fields, f.Given (valuesOf f.name members)) ↔
      ∃ q, Run members {} q ∧ q.finish = .ok b := by
  simp only [fields, List.forall_mem_cons, ← exists_filled_iff opcodeField_isReadBy,
    ← exists_filled_iff nextField_isReadBy, ← exists_filled_iff topLevelField_isReadBy,
    ← exists_filled_iff mutationField_isReadBy]
  constructor
  · rintro ⟨⟨opcode, ho, ho'⟩, ⟨next, hn, hn'⟩, ⟨topLevel, ht, ht'⟩, ⟨mutation, hm, hm'⟩, _⟩
    exact ⟨⟨opcode, next, topLevel, mutation⟩, ⟨ho, hn, ht, hm⟩,
      finish_eq_ok_iff.mpr ⟨ho', hn', ht', hm'⟩⟩
  · rintro ⟨q, hrun, hfinish⟩
    obtain ⟨ho, hn, ht, hm⟩ := finish_eq_ok_iff.mp hfinish
    exact ⟨⟨_, hrun.opcode, ho⟩, ⟨_, hrun.next, hn⟩, ⟨_, hrun.topLevel, ht⟩,
      ⟨_, hrun.mutation, hm⟩, fun f hf => nomatch hf⟩

theorem ofItems_eq_ok_iff {items : List Draft} {ending : Ending} :
    ofItems ⟨items, ending⟩ = .ok b ↔ ending = .closed ∧ Listed b.fields items := by
  unfold ofItems
  refine (next_bind_eq_ok_iff opcodeField_isReadBy ?_).trans
    (and_congr_right fun _ => and_iff_left trivial)
  rintro (_ | opcode) rest
  · exact ⟨nofun, fun h => nomatch h.2.2.1⟩
  refine next_bind_eq_ok_iff nextField_isReadBy ?_
  intro next rest
  refine next_bind_eq_ok_iff topLevelField_isReadBy ?_
  intro topLevel rest
  refine next_bind_eq_ok_iff mutationField_isReadBy ?_
  intro mutation rest
  rw [listed_of_no_fields, ← and_assoc, ← items_finish_eq_ok_iff]
  have hblock : Partial.finish ⟨some opcode, next, topLevel, mutation⟩ = .ok b ↔
      mutation.getD none = b.mutation ∧ topLevel.getD false = b.topLevel ∧
        next.getD none = b.next ∧ some opcode = some b.opcode ∧ True := by
    rw [finish_eq_ok_iff]
    exact ⟨fun ⟨ho, hn, ht, hm⟩ => ⟨hm, ht, hn, ho, trivial⟩,
      fun ⟨hm, ht, hn, ho, _⟩ => ⟨ho, hn, ht, hm⟩⟩
  rw [← hblock]
  dsimp only
  cases (Items.mk rest ending).finish with
  | error fault => exact ⟨nofun, fun h => nomatch h.1⟩
  | ok _ => exact ⟨fun h => ⟨rfl, h⟩, fun h => h.2⟩

/-- What is read as a block is a form of it. -/
theorem read_eq_ok_iff : Block.read d = .ok b ↔ Form b.fields d := by
  cases d with
  | list items ending =>
    refine ofItems_eq_ok_iff.trans ?_
    constructor
    · rintro ⟨rfl, h⟩
      exact .list h
    · rintro (_ | h)
      exact ⟨rfl, h⟩
  | object members ending =>
    constructor
    · intro h
      rw [Block.read] at h
      cases hread : readObject Partial.step {} members ending with
      | error fault =>
        rw [hread] at h
        cases h
      | ok q =>
        rw [hread] at h
        obtain ⟨hmembers, rfl⟩ := readObject_eq_ok_iff.mp hread
        obtain ⟨hadmitted, hrun⟩ := readMembers_iff.mp hmembers
        exact .object hadmitted (given_iff.mpr ⟨q, hrun, h⟩)
    · rintro (⟨hadmitted, hgiven⟩ | _)
      obtain ⟨q, hrun, hfinish⟩ := given_iff.mp hgiven
      rw [Block.read, readObject_eq_ok_iff.mpr ⟨readMembers_iff.mpr ⟨hadmitted, hrun⟩, rfl⟩]
      exact hfinish
  | broken | null | bool => exact ⟨nofun, nofun⟩
  | number | text => exact ⟨fun h => absurd h (refuse_ne_ok _ _ _), nofun⟩

/-! ## Texts of blocks -/

section Texts

variable {text : String} {members front back : List (Option String × Draft)} {key : String}
  {value : Draft}

theorem ofText_eq_ok_iff :
    Block.ofText text = .ok b ↔ ∃ d : Draft, d.Spelled text.toList ∧ Form b.fields d := by
  refine (readText_eq_ok_iff fun d h => ?_).trans
    (exists_congr fun d => and_congr_right fun _ => read_eq_ok_iff)
  exact (read_eq_ok_iff.mp h).isWhole isWhole_of_means

/-- Every name of a field is that of some field. -/
theorem exists_field (b : Block) (h : key ∈ fieldNames) : ∃ f ∈ b.fields, f.name = key :=
  List.mem_map.mp (show key ∈ b.fields.map Field.name from h)

/-- An object with two members of one known key is no form of a block. -/
theorem not_form_of_twice (hkey : key ∈ fieldNames)
    (htwice : some key ∈ (front ++ back).map Prod.fst) :
    ¬ Form b.fields (.object (front ++ (some key, value) :: back) .closed) := by
  rintro (⟨_, hgiven⟩ | _)
  obtain ⟨f, hf, rfl⟩ := exists_field b hkey
  obtain ⟨⟨_, other⟩, hother, rfl⟩ := List.mem_map.mp htwice
  have hmany := List.length_pos_of_mem (mem_valuesOf hother)
  have hone := (hgiven f hf).length_le
  rw [valuesOf_append, List.length_append] at hmany
  rw [valuesOf_append, valuesOf_cons, if_pos rfl, List.length_append, List.length_cons] at hone
  omega

theorem refused_of_twice (hkey : key ∈ fieldNames)
    (htwice : some key ∈ (front ++ back).map Prod.fst)
    (h : (Draft.object (front ++ (some key, value) :: back) .closed).Spelled text.toList) :
    ∃ fault, Block.ofText text = .error fault := by
  cases hread : Block.ofText text with
  | error fault => exact ⟨fault, rfl⟩
  | ok b =>
    obtain ⟨d, hd, hform⟩ := ofText_eq_ok_iff.mp hread
    cases hd.unique h
    exact absurd hform (not_form_of_twice hkey htwice)

/-- The members left when those with the key `opcode` are removed. -/
def withoutOpcode (members : List (Option String × Draft)) : List (Option String × Draft) :=
  members.filter fun member => member.1 ≠ some "opcode"

theorem valuesOf_withoutOpcode {name : String} (members : List (Option String × Draft))
    (h : name ≠ "opcode") :
    valuesOf name (withoutOpcode members) = valuesOf name members := by
  rw [valuesOf, withoutOpcode, List.filter_filter]
  refine congrArg _ (List.filter_congr fun member _ => ?_)
  rw [← Bool.decide_and, decide_eq_decide]
  refine ⟨fun hmember => hmember.1, fun hmember => ⟨hmember, fun hop => ?_⟩⟩
  exact h (Option.some.inj (hmember.symm.trans hop))

theorem valuesOf_opcode_withoutOpcode : valuesOf "opcode" (withoutOpcode members) = [] := by
  rw [valuesOf, withoutOpcode, List.filter_filter, List.filter_eq_nil_iff.mpr, List.map_nil]
  intro member _ h
  rw [Bool.and_eq_true, decide_eq_true_eq, decide_eq_true_eq] at h
  exact h.2 h.1

/-- Without its opcode a block is refused, whatever else it has. -/
theorem refused_of_withoutOpcode (hform : Form b.fields (.object members .closed))
    (h : (Draft.object (withoutOpcode members) .closed).Spelled text.toList) :
    Block.ofText text = .error (.mismatch (.missingField "opcode")) := by
  rcases hform with ⟨hadmitted, hgiven⟩ | _
  obtain ⟨q, hrun, -⟩ := given_iff.mp hgiven
  have hleft : Run (withoutOpcode members) {} { q with opcode := none } :=
    { opcode := by
        rw [valuesOf_opcode_withoutOpcode]
        rfl
      next := valuesOf_withoutOpcode members (show "next" ≠ "opcode" by decide) ▸ hrun.next
      topLevel :=
        valuesOf_withoutOpcode members (show "topLevel" ≠ "opcode" by decide) ▸ hrun.topLevel
      mutation :=
        valuesOf_withoutOpcode members (show "mutation" ≠ "opcode" by decide) ▸ hrun.mutation }
  have hadmitted' : Admitted fieldNames (withoutOpcode members) :=
    fun member hmember => hadmitted member (List.mem_filter.mp hmember).1
  rw [Block.ofText, readText_of_spelled h, Block.read,
    readObject_eq_ok_iff.mpr ⟨readMembers_iff.mpr ⟨hadmitted', hleft⟩, rfl⟩]
  rfl

end Texts

/-- All spellings of a block are read as this block, and nothing else is. A known key that
comes twice is refused, and so is a block without its opcode. -/
theorem ofText_spellings (text : String) :
    (∀ b : Block, Block.ofText text = .ok b ↔
      ∃ d : Draft, d.Spelled text.toList ∧ Form b.fields d) ∧
    (∀ front key value back, key ∈ fieldNames → some key ∈ (front ++ back).map Prod.fst →
      (Draft.object (front ++ (some key, value) :: back) .closed).Spelled text.toList →
      ∃ fault, Block.ofText text = .error fault) ∧
    (∀ (b : Block) members, Form b.fields (.object members .closed) →
      (Draft.object (withoutOpcode members) .closed).Spelled text.toList →
      Block.ofText text = .error (.mismatch (.missingField "opcode"))) :=
  ⟨fun _ => ofText_eq_ok_iff, fun _ _ _ _ hkey htwice h => refused_of_twice hkey htwice h,
    fun _ _ hform h => refused_of_withoutOpcode hform h⟩

/-- A call, between members that nobody knows; the mutation is a list. -/
def exCall : List (Option String × Draft) :=
  [(some "shadow", .list [.text none, .object [(none, .null)] .closed] .closed),
    (some "mutation", .list [.text (some "hop")] .closed), (some "next", .null),
    (some "opcode", .text (some "procedures_call")), (some "shadow", .bool true)]

theorem form_exCall :
    Form (fields ⟨"procedures_call", none, false, some ⟨"hop"⟩⟩) (.object exCall .closed) := by
  refine .object ?_ ?_
  · simp only [Admitted, exCall, List.forall_mem_cons]
    exact ⟨⟨_, rfl, .inr rfl⟩, ⟨_, rfl, .inl (by decide)⟩, ⟨_, rfl, .inl (by decide)⟩,
      ⟨_, rfl, .inl (by decide)⟩, ⟨_, rfl, .inr rfl⟩, fun _ h => nomatch h⟩
  · simp only [fields, List.forall_mem_cons]
    exact ⟨.once rfl, .once rfl, .leftOut (Eq.refl false),
      .once (.list (.item rfl (.stop fun _ h => nomatch h))), fun _ h => nomatch h⟩

/-- The call in one of its spellings, a block with a second `next`, and the call without its
opcode. -/
theorem ofText_spellings_exCall :
    Block.ofText "\x7b\"shadow\":[\"\\ud800\",\x7b\"\\udc00\" : null\x7d],\"mutation\":[\"hop\"],
      \"next\":null,\"\\u006fpcode\":\"procedures_call\",\"shadow\":true\x7d" =
        .ok ⟨"procedures_call", none, false, some ⟨"hop"⟩⟩ ∧
    (∃ fault, Block.ofText "\x7b\"next\":\"a\",\"opcode\":\"wait\",\"next\":null\x7d" =
      .error fault) ∧
    Block.ofText "\x7b\"shadow\":[\"\\ud800\",\x7b\"\\udc00\" : null\x7d],\"mutation\":[\"hop\"],
      \"next\":null,\"shadow\":true\x7d" = .error (.mismatch (.missingField "opcode")) := by
  refine ⟨((ofText_spellings _).1 _).mpr ⟨_, ?_, form_exCall⟩,
    (ofText_spellings _).2.1 [(some "next", .text (some "a")), (some "opcode", .text (some "wait"))]
      "next" .null [] (by decide) (by decide) ?_,
    (ofText_spellings _).2.2 _ _ form_exCall ?_⟩
  all_goals exact Draft.spelled_iff.mpr ⟨rfl, by decide +kernel⟩

end Block

end BlockThreads
