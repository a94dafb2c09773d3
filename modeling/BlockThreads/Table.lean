/-!
# Finite tables

A `Table` binds finitely many keys, each to one value. Block maps, compile
caches, parameters and remembered values are tables.

The entries keep the order in which their keys first came, but no answer of the
library depends on that order: a table is used through `get?`, `insert` and
`erase` alone, or listed as a whole.

Results:
1. `get?_insert`, `get?_erase`: the effect of a write on every look-up.
2. `get?_isSome_iff`: a key is bound exactly when it is listed.
3. `get?_ofList`: of several entries for one key the last one counts.
-/

namespace BlockThreads

/-- Finitely many keys, each bound to one value. -/
structure Table (κ ν : Type) where
  entries : List (κ × ν)
  nodup : (entries.map Prod.fst).Nodup

namespace Table

variable {κ ν : Type}

/-! ## Lists of entries -/

section Entries

variable [DecidableEq κ]

/-- The value of the first entry for `key`. -/
def lookup (key : κ) : List (κ × ν) → Option ν
  | [] => none
  | (k, v) :: rest => if k = key then some v else lookup key rest

/-- Binds `key` to `value`: in place if the key is there, else at the end. -/
def put (key : κ) (value : ν) : List (κ × ν) → List (κ × ν)
  | [] => [(key, value)]
  | (k, v) :: rest => if k = key then (key, value) :: rest else (k, v) :: put key value rest

theorem lookup_put (key other : κ) (value : ν) (entries : List (κ × ν)) :
    lookup other (put key value entries) =
      if key = other then some value else lookup other entries := by
  induction entries with
  | nil => simp [put, lookup]
  | cons entry rest ih =>
    obtain ⟨k, v⟩ := entry
    by_cases h : k = key
    · subst h
      by_cases ho : k = other <;> simp [put, lookup, ho]
    · by_cases ho : k = other
      · subst ho
        simp [put, lookup, h, Ne.symm h]
      · simp [put, lookup, h, ho, ih]

theorem mem_keys_put {key other : κ} {value : ν} {entries : List (κ × ν)} :
    other ∈ (put key value entries).map Prod.fst ↔
      other = key ∨ other ∈ entries.map Prod.fst := by
  induction entries with
  | nil => simp [put]
  | cons entry rest ih =>
    obtain ⟨k, v⟩ := entry
    by_cases h : k = key
    · subst h
      simp [put]
    · simp only [put, h, if_false, List.map_cons, List.mem_cons, ih]
      constructor
      · rintro (h | h | h) <;> simp [h]
      · rintro (h | h | h) <;> simp [h]

theorem nodup_put (key : κ) (value : ν) {entries : List (κ × ν)}
    (h : (entries.map Prod.fst).Nodup) : ((put key value entries).map Prod.fst).Nodup := by
  induction entries with
  | nil => simp [put]
  | cons entry rest ih =>
    obtain ⟨k, v⟩ := entry
    simp only [List.map_cons, List.nodup_cons] at h
    by_cases hk : k = key
    · subst hk
      simpa [put] using h
    · simp only [put, hk, if_false, List.map_cons, List.nodup_cons]
      refine ⟨fun hm => ?_, ih h.2⟩
      rcases mem_keys_put.mp hm with he | hm
      · exact hk he
      · exact h.1 hm

theorem lookup_isSome_iff {key : κ} {entries : List (κ × ν)} :
    (lookup key entries).isSome ↔ key ∈ entries.map Prod.fst := by
  induction entries with
  | nil => simp [lookup]
  | cons entry rest ih =>
    obtain ⟨k, v⟩ := entry
    by_cases h : k = key
    · simp [lookup, h]
    · simp [lookup, h, Ne.symm h, ih]

theorem lookup_filter_ne (key other : κ) (entries : List (κ × ν)) :
    lookup other (entries.filter fun e => e.1 ≠ key) =
      if key = other then none else lookup other entries := by
  induction entries with
  | nil => simp [lookup]
  | cons entry rest ih =>
    obtain ⟨k, v⟩ := entry
    by_cases h : k = key
    · subst h
      by_cases ho : k = other
      · simpa [lookup, ho] using ih
      · simpa [lookup, ho] using ih
    · by_cases ho : k = other
      · subst ho
        simp [lookup, h, Ne.symm h]
      · simpa [lookup, h, ho] using ih

theorem lookup_map {ν' : Type} (f : κ → ν → ν') (key : κ) (entries : List (κ × ν)) :
    lookup key (entries.map fun e => (e.1, f e.1 e.2)) = (lookup key entries).map (f key) := by
  induction entries with
  | nil => rfl
  | cons entry rest ih =>
    obtain ⟨k, v⟩ := entry
    by_cases h : k = key
    · subst h
      simp [lookup]
    · simp [lookup, h, ih]

theorem put_put (key : κ) (first value : ν) (entries : List (κ × ν)) :
    put key value (put key first entries) = put key value entries := by
  induction entries with
  | nil => simp [put]
  | cons entry rest ih =>
    obtain ⟨k, v⟩ := entry
    by_cases h : k = key <;> simp [put, h, ih]

theorem put_of_lookup {key : κ} {value : ν} {entries : List (κ × ν)}
    (h : lookup key entries = some value) : put key value entries = entries := by
  induction entries with
  | nil => simp [lookup] at h
  | cons entry rest ih =>
    obtain ⟨k, v⟩ := entry
    by_cases hk : k = key
    · subst hk
      simp only [lookup, if_true, Option.some.injEq] at h
      simp [put, h]
    · simp only [lookup, hk, if_false] at h
      simp [put, hk, ih h]

theorem lookup_append (key : κ) (front back : List (κ × ν)) :
    lookup key (front ++ back) = (lookup key front).or (lookup key back) := by
  induction front with
  | nil => simp [lookup]
  | cons entry rest ih =>
    obtain ⟨k, v⟩ := entry
    by_cases h : k = key <;> simp [lookup, h, ih]

end Entries

/-! ## Tables -/

def empty : Table κ ν := ⟨[], by simp⟩

instance : Inhabited (Table κ ν) := ⟨empty⟩

/-- Every key and its value. -/
def toList (t : Table κ ν) : List (κ × ν) := t.entries

def keys (t : Table κ ν) : List κ := t.entries.map Prod.fst

def size (t : Table κ ν) : Nat := t.entries.length

/-- The same keys, each value changed by `f`. -/
def map {ν' : Type} (f : κ → ν → ν') (t : Table κ ν) : Table κ ν' where
  entries := t.entries.map fun e => (e.1, f e.1 e.2)
  nodup := by simpa [Function.comp_def] using t.nodup

theorem ext {s t : Table κ ν} (h : s.entries = t.entries) : s = t := by
  cases s
  cases t
  cases h
  rfl

variable [DecidableEq κ]

def get? (t : Table κ ν) (key : κ) : Option ν := lookup key t.entries

def contains (t : Table κ ν) (key : κ) : Bool := (t.get? key).isSome

/-- Binds `key` to `value`, whatever it was bound to before. -/
def insert (t : Table κ ν) (key : κ) (value : ν) : Table κ ν :=
  ⟨put key value t.entries, nodup_put key value t.nodup⟩

def erase (t : Table κ ν) (key : κ) : Table κ ν where
  entries := t.entries.filter fun e => e.1 ≠ key
  nodup := t.nodup.sublist (List.filter_sublist.map Prod.fst)

/-- Inserts the entries of a list, first to last. -/
def insertAll (t : Table κ ν) (entries : List (κ × ν)) : Table κ ν :=
  entries.foldl (fun t e => t.insert e.1 e.2) t

/-- The table of a list of entries; of several entries for one key the last counts. -/
def ofList (entries : List (κ × ν)) : Table κ ν := empty.insertAll entries

/-! ## Laws -/

@[simp]
theorem get?_empty (key : κ) : (empty : Table κ ν).get? key = none := rfl

theorem get?_insert (t : Table κ ν) (key other : κ) (value : ν) :
    (t.insert key value).get? other = if key = other then some value else t.get? other :=
  lookup_put key other value t.entries

@[simp]
theorem get?_insert_self (t : Table κ ν) (key : κ) (value : ν) :
    (t.insert key value).get? key = some value := by
  simp [get?_insert]

theorem get?_insert_of_ne (t : Table κ ν) {key other : κ} (value : ν) (h : key ≠ other) :
    (t.insert key value).get? other = t.get? other := by
  simp [get?_insert, h]

/-- Of two writes for one key the later one counts. -/
theorem insert_insert (t : Table κ ν) (key : κ) (first value : ν) :
    (t.insert key first).insert key value = t.insert key value :=
  ext (put_put key first value t.entries)

/-- To write what is there changes nothing. -/
theorem insert_of_get? {t : Table κ ν} {key : κ} {value : ν} (h : t.get? key = some value) :
    t.insert key value = t :=
  ext (put_of_lookup h)

theorem get?_erase (t : Table κ ν) (key other : κ) :
    (t.erase key).get? other = if key = other then none else t.get? other :=
  lookup_filter_ne key other t.entries

theorem get?_isSome_iff (t : Table κ ν) (key : κ) : (t.get? key).isSome ↔ key ∈ t.keys :=
  lookup_isSome_iff

theorem get?_map {ν' : Type} (f : κ → ν → ν') (t : Table κ ν) (key : κ) :
    (t.map f).get? key = (t.get? key).map (f key) :=
  lookup_map f key t.entries

theorem get?_insertAll (entries : List (κ × ν)) (t : Table κ ν) (key : κ) :
    (t.insertAll entries).get? key = (lookup key entries.reverse).or (t.get? key) := by
  induction entries generalizing t with
  | nil => simp [insertAll, lookup]
  | cons entry rest ih =>
    obtain ⟨k, v⟩ := entry
    have hstep : t.insertAll ((k, v) :: rest) = (t.insert k v).insertAll rest := rfl
    rw [hstep, ih, get?_insert, List.reverse_cons, lookup_append, Option.or_assoc]
    by_cases h : k = key <;> simp [lookup, h]

/-- Of several entries for one key the last one counts. -/
theorem get?_ofList (entries : List (κ × ν)) (key : κ) :
    (ofList entries).get? key = lookup key entries.reverse := by
  simp [ofList, get?_insertAll]

end Table

end BlockThreads
