/-!
# Maps in order of arrival

A map lists each key once, in the order in which the keys arrived.  A new value
for a present key keeps the key's place; a key that was erased and comes back
goes to the end.  Main statements: what a look-up sees after an insertion and
after an erasure.
-/

namespace Possibilistic

/-- Keys with values, each key once. -/
structure ArrivalMap (κ : Type) (ν : Type) where
  entries : List (κ × ν)
  nodup : (entries.map Prod.fst).Nodup

namespace ArrivalMap

variable {κ ν : Type} [DecidableEq κ]

/-- Replaces the value of a key, or adds the key at the end. -/
def insertEntry (key : κ) (value : ν) : List (κ × ν) → List (κ × ν)
  | [] => [(key, value)]
  | (other, old) :: rest =>
      if other = key then (other, value) :: rest
      else (other, old) :: insertEntry key value rest

theorem mem_keys_insertEntry {key other : κ} {value : ν}
    {entries : List (κ × ν)} :
    other ∈ (insertEntry key value entries).map Prod.fst ↔
      other = key ∨ other ∈ entries.map Prod.fst := by
  induction entries with
  | nil => simp [insertEntry]
  | cons entry rest ih =>
      obtain ⟨present, old⟩ := entry
      unfold insertEntry
      split
      · rename_i equality
        subst equality
        simp
      · simp only [List.map_cons, List.mem_cons, ih]
        constructor <;> rintro (h | h | h) <;> simp [h]

theorem nodup_insertEntry (key : κ) (value : ν) {entries : List (κ × ν)}
    (distinct : (entries.map Prod.fst).Nodup) :
    ((insertEntry key value entries).map Prod.fst).Nodup := by
  induction entries with
  | nil => simp [insertEntry]
  | cons entry rest ih =>
      obtain ⟨present, old⟩ := entry
      simp only [List.map_cons, List.nodup_cons] at distinct
      unfold insertEntry
      split
      · simpa using distinct
      · rename_i different
        simp only [List.map_cons, List.nodup_cons, mem_keys_insertEntry]
        exact ⟨fun present => present.elim different distinct.1, ih distinct.2⟩

def empty : ArrivalMap κ ν :=
  ⟨[], List.nodup_nil⟩

def insert (map : ArrivalMap κ ν) (key : κ) (value : ν) : ArrivalMap κ ν :=
  ⟨insertEntry key value map.entries, nodup_insertEntry key value map.nodup⟩

def erase (map : ArrivalMap κ ν) (key : κ) : ArrivalMap κ ν :=
  ⟨map.entries.filter (fun entry => entry.1 ≠ key),
    map.nodup.sublist (List.filter_sublist.map Prod.fst)⟩

/-- Inserts the entries of a list, one after the other. -/
def ofList (entries : List (κ × ν)) : ArrivalMap κ ν :=
  entries.foldl (fun map entry => map.insert entry.1 entry.2) empty

def keys (map : ArrivalMap κ ν) : List κ :=
  map.entries.map Prod.fst

def values (map : ArrivalMap κ ν) : List ν :=
  map.entries.map Prod.snd

def size (map : ArrivalMap κ ν) : Nat :=
  map.entries.length

def lookUp? (key : κ) : List (κ × ν) → Option ν
  | [] => none
  | (other, value) :: rest =>
      if other = key then some value else lookUp? key rest

def get? (map : ArrivalMap κ ν) (key : κ) : Option ν :=
  lookUp? key map.entries

def contains (map : ArrivalMap κ ν) (key : κ) : Bool :=
  (map.get? key).isSome

/-- The maps hold the same keys with equal values, in any order. -/
def sameEntries [BEq ν] (left right : ArrivalMap κ ν) : Bool :=
  left.size == right.size &&
    left.entries.all fun (key, value) =>
      match right.get? key with
      | some other => value == other
      | none => false

theorem lookUp?_insertEntry (key other : κ) (value : ν)
    (entries : List (κ × ν)) :
    lookUp? other (insertEntry key value entries) =
      if other = key then some value else lookUp? other entries := by
  induction entries with
  | nil => simp [insertEntry, lookUp?, eq_comm]
  | cons entry rest ih =>
      obtain ⟨present, old⟩ := entry
      by_cases reached : present = key
      · subst reached
        by_cases sought : other = present
        · simp [insertEntry, lookUp?, sought]
        · simp [insertEntry, lookUp?, sought, Ne.symm sought]
      · by_cases sought : present = other
        · subst sought
          simp [insertEntry, lookUp?, reached]
        · simp [insertEntry, lookUp?, reached, sought, ih]

/-- An insertion gives its key its value and leaves the others alone. -/
theorem get?_insert (map : ArrivalMap κ ν) (key other : κ) (value : ν) :
    (map.insert key value).get? other =
      if other = key then some value else map.get? other :=
  lookUp?_insertEntry key other value map.entries

theorem lookUp?_filter (key other : κ) (entries : List (κ × ν)) :
    lookUp? other (entries.filter (fun entry => entry.1 ≠ key)) =
      if other = key then none else lookUp? other entries := by
  induction entries with
  | nil => simp [lookUp?]
  | cons entry rest ih =>
      obtain ⟨present, old⟩ := entry
      by_cases erased : present = key
      · subst erased
        rw [List.filter_cons_of_neg (by simp), ih]
        by_cases sought : other = present
        · simp [sought]
        · simp [lookUp?, sought, Ne.symm sought]
      · rw [List.filter_cons_of_pos (by simpa using erased)]
        by_cases sought : present = other
        · subst sought
          simp [lookUp?, erased]
        · simp only [lookUp?, sought, ↓reduceIte, ih]

/-- An erasure takes its key away and leaves the others alone. -/
theorem get?_erase (map : ArrivalMap κ ν) (key other : κ) :
    (map.erase key).get? other =
      if other = key then none else map.get? other :=
  lookUp?_filter key other map.entries

end ArrivalMap

end Possibilistic
