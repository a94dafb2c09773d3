import BlockThreads.Container
import BlockThreads.Proofs.BlockTexts

/-!
# Which texts are block maps

A block map is an object from ids to blocks. It is read as a whole, and the container around it
is the one that the same blocks inserted one by one would have led to. A member that is not a
block spoils the map, also if a later member has the same id.

Results:
1. `Container.read_eq_ok_iff`: what is read as a container is a sequence of insertions.
2. `Container.ofText_of_refused`: the first member that is not a block decides.
3. `Container.ofText_insertions`: a block map is the sequence of its insertions, or nothing.
-/

namespace BlockThreads

open Json

namespace Container

/-! ## Insertions -/

/-- A container after some insertions, first to last. -/
def insertAll (entries : List (String × Block)) (c : Container) : Container :=
  entries.foldl (fun c entry => c.insert entry.1 entry.2) c

theorem insertAll_of_blocks (entries : List (String × Block)) (blocks : Table String Block) :
    insertAll entries { blocks } = { blocks := blocks.insertAll entries } := by
  induction entries generalizing blocks with
  | nil => rfl
  | cons entry entries ih => exact ih (blocks.insert entry.1 entry.2)

theorem block?_insertAll (entries : List (String × Block)) (id : String) :
    (insertAll entries empty).block? id = Table.lookup id entries.reverse := by
  rw [empty, insertAll_of_blocks]
  exact Table.get?_ofList entries id

theorem outcome?_insertAll (entries : List (String × Block)) (top : String) :
    (insertAll entries empty).outcome? top = none := by
  rw [empty, insertAll_of_blocks]
  rfl

theorem lookup_reverse_of_not_mem {entries : List (String × Block)} {id : String}
    (h : id ∉ entries.map Prod.fst) : Table.lookup id entries.reverse = none := by
  rw [← Option.not_isSome_iff_eq_none, Table.lookup_isSome_iff, List.map_reverse,
    List.mem_reverse]
  exact h

/-- Of several insertions for one id the last one counts. -/
theorem block?_insertAll_of_last {front back : List (String × Block)} {id : String}
    {block : Block} (h : id ∉ back.map Prod.fst) :
    (insertAll (front ++ (id, block) :: back) empty).block? id = some block := by
  rw [block?_insertAll, List.reverse_append, List.reverse_cons, List.append_assoc,
    Table.lookup_append, lookup_reverse_of_not_mem h, Option.none_or, List.singleton_append,
    Table.lookup, if_pos rfl]

theorem block?_insertAll_of_not_mem {entries : List (String × Block)} {id : String}
    (h : id ∉ entries.map Prod.fst) : (insertAll entries empty).block? id = none := by
  rw [block?_insertAll, lookup_reverse_of_not_mem h]

/-! ## Reading -/

/-- A member of a block map stands for an id and its block. -/
structure IsEntry (member : Option String × Draft) (entry : String × Block) : Prop where
  id : member.1 = some entry.1
  block : Block.read member.2 = .ok entry.2

section Reading

variable {members front back : List (Option String × Draft)} {entries : List (String × Block)}
  {d : Draft} {c : Container} {text : String}

theorem readEntry_eq_ok_iff {blocks blocks' : Table String Block} {id : String} {value : Draft} :
    readEntry blocks id value = .ok blocks' ↔
      ∃ block, Block.read value = .ok block ∧ blocks.insert id block = blocks' :=
  map_eq_ok_iff

/-- Members are read one by one, each into the table that the earlier ones have led to. -/
theorem readMembers_iff {blocks blocks' : Table String Block} :
    readMembers readEntry blocks members = .ok blocks' ↔
      ∃ entries, List.Forall₂ IsEntry members entries ∧ blocks' = blocks.insertAll entries := by
  induction members generalizing blocks with
  | nil =>
    constructor
    · exact fun h => ⟨[], .nil, (Except.ok.inj h).symm⟩
    · rintro ⟨entries, hentries, rfl⟩
      cases hentries
      rfl
  | cons member members ih =>
    obtain ⟨key, value⟩ := member
    constructor
    · intro h
      cases key with
      | none => cases h
      | some id =>
        rw [readMembers] at h
        cases hentry : readEntry blocks id value with
        | error fault =>
          rw [hentry] at h
          cases h
        | ok next =>
          rw [hentry] at h
          obtain ⟨block, hblock, rfl⟩ := readEntry_eq_ok_iff.mp hentry
          obtain ⟨entries, hentries, hblocks⟩ := ih.mp h
          exact ⟨(id, block) :: entries, .cons ⟨rfl, hblock⟩ hentries, hblocks⟩
    · rintro ⟨_, hentries, rfl⟩
      cases hentries with
      | @cons _ entry _ entries hentry hentries =>
        obtain ⟨rfl, hblock⟩ := hentry
        rw [readMembers, readEntry_eq_ok_iff.mpr ⟨_, hblock, rfl⟩]
        exact ih.mpr ⟨entries, hentries, rfl⟩

/-- What is read as a container is a sequence of insertions. -/
theorem read_eq_ok_iff : Container.read d = .ok c ↔ ∃ members entries,
    d = .object members .closed ∧ List.Forall₂ IsEntry members entries ∧
      c = insertAll entries empty := by
  constructor
  · intro h
    unfold Container.read at h
    split at h
    · next members ending =>
      obtain ⟨blocks, hblocks, rfl⟩ := map_eq_ok_iff.mp h
      obtain ⟨hmembers, rfl⟩ := readObject_eq_ok_iff.mp hblocks
      obtain ⟨entries, hentries, rfl⟩ := readMembers_iff.mp hmembers
      exact ⟨members, entries, rfl, hentries, (insertAll_of_blocks entries .empty).symm⟩
    · exact absurd h (refuse_ne_ok .map d c)
  · rintro ⟨members, entries, rfl, hentries, rfl⟩
    refine map_eq_ok_iff.mpr ⟨_, readObject_eq_ok_iff.mpr ⟨?_, rfl⟩,
      (insertAll_of_blocks entries .empty).symm⟩
    exact readMembers_iff.mpr ⟨entries, hentries, rfl⟩

theorem isWhole_of_read (h : Container.read d = .ok c) : d.IsWhole := by
  obtain ⟨members, entries, rfl, hentries, -⟩ := read_eq_ok_iff.mp h
  refine Draft.isWhole_object.mpr ⟨rfl, fun member hmember => ?_⟩
  obtain ⟨entry, hentry⟩ := exists_of_forall₂ hentries hmember
  exact (Block.read_eq_ok_iff.mp hentry.block).isWhole Block.isWhole_of_means

theorem ofText_eq_ok_iff : Container.ofText text = .ok c ↔ ∃ members entries,
    (Draft.object members .closed).Spelled text.toList ∧
      List.Forall₂ IsEntry members entries ∧ c = insertAll entries empty := by
  refine (readText_eq_ok_iff fun _ h => isWhole_of_read h).trans ⟨?_, ?_⟩
  · rintro ⟨d, hspelled, hd⟩
    obtain ⟨members, entries, rfl, hentries, hc⟩ := read_eq_ok_iff.mp hd
    exact ⟨members, entries, hspelled, hentries, hc⟩
  · rintro ⟨members, entries, hspelled, hentries, hc⟩
    exact ⟨_, hspelled, read_eq_ok_iff.mpr ⟨members, entries, rfl, hentries, hc⟩⟩

/-- A member that is not a block spoils the map. -/
theorem refused_of_mem {member : Option String × Draft}
    (h : (Draft.object members .closed).Spelled text.toList) (hmember : member ∈ members)
    (hvalue : ∀ block, Block.read member.2 ≠ .ok block) :
    ∃ fault, Container.ofText text = .error fault := by
  cases hread : Container.ofText text with
  | error fault => exact ⟨fault, rfl⟩
  | ok c =>
    obtain ⟨_, entries, hspelled, hentries, -⟩ := ofText_eq_ok_iff.mp hread
    cases hspelled.unique h
    obtain ⟨entry, hentry⟩ := exists_of_forall₂ hentries hmember
    exact absurd hentry.block (hvalue _)

/-- The first member that is not a block decides, whatever follows it. -/
theorem ofText_of_refused {id : String} {value : Draft} {fault : Fault}
    (h : (Draft.object (front ++ (some id, value) :: back) .closed).Spelled text.toList)
    (hfront : List.Forall₂ IsEntry front entries) (hvalue : Block.read value = .error fault) :
    Container.ofText text = .error fault := by
  have hmembers : readMembers readEntry .empty (front ++ (some id, value) :: back) =
      .error fault := by
    rw [readMembers_append, readMembers_iff.mpr ⟨entries, hfront, rfl⟩]
    simp only [Except.bind, readMembers, readEntry, hvalue, Except.map]
  rw [Container.ofText, readText_of_spelled h, Container.read, readObject, hmembers]
  rfl

end Reading

/-- A block map is the sequence of its insertions, or nothing: of several blocks for one id the
last one counts, no outcome is known, and a member that is not a block spoils the map. -/
theorem ofText_insertions (text : String) :
    (∀ c, Container.ofText text = .ok c ↔ ∃ members entries,
      (Draft.object members .closed).Spelled text.toList ∧
        List.Forall₂ IsEntry members entries ∧ c = insertAll entries empty) ∧
    (∀ members entries c, (Draft.object members .closed).Spelled text.toList →
      List.Forall₂ IsEntry members entries → Container.ofText text = .ok c →
        (∀ front id block back, entries = front ++ (id, block) :: back →
          id ∉ back.map Prod.fst → c.block? id = some block ∧ c.nextOf id = block.next) ∧
        (∀ id, id ∉ entries.map Prod.fst → c.block? id = none ∧ c.nextOf id = none) ∧
        ∀ top, c.outcome? top = none) ∧
    (∀ members member, (Draft.object members .closed).Spelled text.toList → member ∈ members →
      (∀ block, Block.read member.2 ≠ .ok block) →
        ∃ fault, Container.ofText text = .error fault) := by
  refine ⟨fun c => ofText_eq_ok_iff, fun members entries c hspelled hentries hread => ?_,
    fun members member hspelled hmember hvalue => refused_of_mem hspelled hmember hvalue⟩
  have hc : Container.ofText text = .ok (insertAll entries empty) :=
    ofText_eq_ok_iff.mpr ⟨members, entries, hspelled, hentries, rfl⟩
  cases hread.symm.trans hc
  refine ⟨?_, ?_, outcome?_insertAll entries⟩
  · rintro front id block back rfl hlast
    have hblock : (insertAll (front ++ (id, block) :: back) empty).block? id = some block :=
      block?_insertAll_of_last hlast
    exact ⟨hblock, by rw [nextOf, hblock, Option.bind_some]⟩
  · intro id hid
    have hblock := block?_insertAll_of_not_mem hid
    exact ⟨hblock, by rw [nextOf, hblock, Option.bind_none]⟩

/-- Two blocks for one id, the second behind another block. -/
def exMembers : List (Option String × Draft) :=
  [(some "a", .list [.text (some "wait")] .closed),
    (some "b", .object [(some "next", .text (some "a")), (some "opcode", .text (some "say"))]
      .closed),
    (some "a", .list [.text (some "stop"), .text (some "b")] .closed)]

def exEntries : List (String × Block) :=
  [("a", ⟨"wait", none, false, none⟩), ("b", ⟨"say", some "a", false, none⟩),
    ("a", ⟨"stop", some "b", false, none⟩)]

theorem entries_exMembers : List.Forall₂ IsEntry exMembers exEntries :=
  .cons ⟨rfl, by decide +kernel⟩ (.cons ⟨rfl, by decide +kernel⟩
    (.cons ⟨rfl, by decide +kernel⟩ .nil))

/-- The second block for an id counts, in whatever way the id is spelled; but the first one has
to be a block. -/
theorem ofText_insertions_twice :
    (∃ c, Container.ofText "\x7b\"a\":[\"wait\"],\"b\":\x7b\"next\":\"a\",\"opcode\":\"say\"\x7d,
        \"\\u0061\":[\"stop\",\"b\"]\x7d" = .ok c ∧
      c.block? "a" = some ⟨"stop", some "b", false, none⟩ ∧ c.nextOf "a" = some "b" ∧
      c.block? "c" = none ∧ c.outcome? "a" = none) ∧
    ∃ fault, Container.ofText "\x7b\"a\":[],\"a\":[\"wait\"]\x7d" = .error fault := by
  have hspelled : (Draft.object exMembers .closed).Spelled
      "\x7b\"a\":[\"wait\"],\"b\":\x7b\"next\":\"a\",\"opcode\":\"say\"\x7d,
        \"\\u0061\":[\"stop\",\"b\"]\x7d".toList :=
    Draft.spelled_iff.mpr ⟨rfl, by decide +kernel⟩
  constructor
  · have hread := ((ofText_insertions _).1 _).mpr
      ⟨exMembers, exEntries, hspelled, entries_exMembers, rfl⟩
    obtain ⟨hlast, hother, houtcome⟩ :=
      (ofText_insertions _).2.1 exMembers exEntries _ hspelled entries_exMembers hread
    obtain ⟨hblock, hnext⟩ :=
      hlast (exEntries.take 2) "a" ⟨"stop", some "b", false, none⟩ [] rfl (by decide)
    exact ⟨_, hread, hblock, hnext, (hother "c" (by decide)).1, houtcome "a"⟩
  · refine (ofText_insertions _).2.2 [(some "a", .list [] .closed),
      (some "a", .list [.text (some "wait")] .closed)] (some "a", .list [] .closed)
      (Draft.spelled_iff.mpr ⟨rfl, by decide +kernel⟩) List.mem_cons_self ?_
    rintro block ⟨⟩

end Container

end BlockThreads
