import Possibilistic.ArrivalMap
import Possibilistic.Degree

/-!
# Fuzzy sets

A fuzzy set gives its members degrees of membership.  What is absent has
membership zero, and assigning zero removes, so members and non-zero
memberships coincide.  Members stay in order of arrival.  Main statement: what
the membership is after an assignment.
-/

namespace Possibilistic

/-- Members with degrees that are not zero. -/
structure FuzzySet (ε : Type) where
  members : ArrivalMap ε Degree
  nonzero : ∀ entry ∈ members.entries, entry.2.isZero = false

namespace FuzzySet

variable {ε : Type} [DecidableEq ε]

def empty : FuzzySet ε :=
  ⟨ArrivalMap.empty, nofun⟩

def membership (set : FuzzySet ε) (element : ε) : Degree :=
  (set.members.get? element).getD Degree.zero

def contains (set : FuzzySet ε) (element : ε) : Bool :=
  set.members.contains element

theorem mem_insertEntry {element : ε} {degree : Degree}
    {entries : List (ε × Degree)} {entry : ε × Degree}
    (member : entry ∈ ArrivalMap.insertEntry element degree entries) :
    entry.2 = degree ∨ entry ∈ entries := by
  induction entries with
  | nil =>
      simp only [ArrivalMap.insertEntry, List.mem_singleton] at member
      exact .inl (by rw [member])
  | cons head rest ih =>
      obtain ⟨other, old⟩ := head
      unfold ArrivalMap.insertEntry at member
      split at member
      · rcases List.mem_cons.mp member with equality | inRest
        · exact .inl (by rw [equality])
        · exact .inr (List.mem_cons_of_mem _ inRest)
      · rcases List.mem_cons.mp member with equality | inRest
        · exact .inr (by rw [equality]; exact List.mem_cons_self)
        · exact (ih inRest).imp_right (List.mem_cons_of_mem _)

/-- Takes an element out. -/
def remove (set : FuzzySet ε) (element : ε) : FuzzySet ε :=
  ⟨set.members.erase element, fun entry member =>
    set.nonzero entry (List.mem_filter.mp member).1⟩

/-- Gives an element a membership; membership zero takes it out. -/
def assign (set : FuzzySet ε) (element : ε) (degree : Degree) : FuzzySet ε :=
  if vanishing : degree.isZero = true then set.remove element
  else
    ⟨set.members.insert element degree, fun entry member => by
      rcases mem_insertEntry member with equality | present
      · rw [equality]
        simpa using vanishing
      · exact set.nonzero entry present⟩

/-- Members and degrees in order of arrival. -/
def items (set : FuzzySet ε) : List (ε × Degree) :=
  set.members.entries

def elements (set : FuzzySet ε) : List ε :=
  set.members.keys

def size (set : FuzzySet ε) : Nat :=
  set.members.size

def isEmpty (set : FuzzySet ε) : Bool :=
  set.members.entries.isEmpty

/-- Assigns memberships one after the other. -/
def ofList (items : List (ε × Degree)) : FuzzySet ε :=
  items.foldl (fun set item => set.assign item.1 item.2) empty

/-- The distinct degrees of the members, ascending. -/
def levels (set : FuzzySet ε) : List Degree :=
  Degree.levels set.members.values

/-- The crisp set of the members whose degree reaches a level. -/
def cut (set : FuzzySet ε) (level : Degree) : FuzzySet ε :=
  ofList ((set.items.filter fun item => level ≤ item.2).map fun item =>
    (item.1, Degree.one))

/-- The same members with equal degrees, in any order. -/
instance : BEq (FuzzySet ε) :=
  ⟨fun left right => left.members.sameEntries right.members⟩

/-- The set as it is shown, given how its elements are. -/
def shown (set : FuzzySet ε) (element : ε → String) : String :=
  "FuzzySet(\x7b" ++ ", ".intercalate
    (set.items.map fun item => element item.1 ++ ": " ++ item.2.text) ++ "\x7d)"

/-- An assignment sets the membership of its element, up to the sign of zero,
and leaves the others alone. -/
theorem membership_assign (set : FuzzySet ε) (element other : ε)
    (degree : Degree) :
    ((set.assign element degree).membership other).units =
      if other = element then degree.units
      else (set.membership other).units := by
  unfold assign
  split
  · rename_i vanishing
    have none_left := Degree.isZero_iff.mp vanishing
    simp only [membership, remove, ArrivalMap.get?_erase]
    split
    · simp [none_left, Degree.zero, Degree.signedZero]
    · rfl
  · simp only [membership, ArrivalMap.get?_insert]
    split <;> rfl

end FuzzySet

end Possibilistic
