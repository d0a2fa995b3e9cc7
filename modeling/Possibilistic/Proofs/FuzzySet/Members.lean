import Possibilistic.FuzzySet
import Possibilistic.Proofs.Degree.Extremes

/-!
# Members of fuzzy sets

The entries of a set and its memberships say the same thing: an entry is an
element with its membership, and an element whose membership is not zero has an
entry.  Assigning to distinct elements lists them in the order of assignment,
which gives the entries of a cut.  Levels that a membership reaches are followed
through assignments.
-/

namespace Possibilistic

namespace ArrivalMap

variable {κ ν : Type} [DecidableEq κ]

theorem lookUp?_eq_some_iff {key : κ} {value : ν} {entries : List (κ × ν)}
    (distinct : (entries.map Prod.fst).Nodup) :
    lookUp? key entries = some value ↔ (key, value) ∈ entries := by
  induction entries with
  | nil => simp [lookUp?]
  | cons entry rest ih =>
      obtain ⟨other, old⟩ := entry
      simp only [List.map_cons, List.nodup_cons] at distinct
      by_cases same : other = key
      · subst same
        have absent : (other, value) ∉ rest := fun member =>
          distinct.1 (List.mem_map.mpr ⟨_, member, rfl⟩)
        simp [lookUp?, absent, eq_comm]
      · have different : key ≠ other := Ne.symm same
        simp [lookUp?, same, different, ih distinct.2]

theorem insertEntry_of_not_mem {key : κ} {value : ν} {entries : List (κ × ν)}
    (absent : key ∉ entries.map Prod.fst) :
    insertEntry key value entries = entries ++ [(key, value)] := by
  induction entries with
  | nil => rfl
  | cons entry rest ih =>
      obtain ⟨other, old⟩ := entry
      simp only [List.map_cons, List.mem_cons, not_or] at absent
      rw [insertEntry, if_neg (Ne.symm absent.1), ih absent.2,
        List.cons_append]

end ArrivalMap

namespace FuzzySet

theorem pos_of_mem_items {ε : Type} {set : FuzzySet ε}
    {item : ε × Degree} (member : item ∈ set.items) : 0 < item.2.units :=
  Degree.pos_of_isZero_eq_false (set.nonzero item member)

theorem mem_items_of_mem_levels {ε : Type} {set : FuzzySet ε}
    {level : Degree} (member : level ∈ set.levels) :
    ∃ element, (element, level) ∈ set.items := by
  obtain ⟨⟨element, degree⟩, present, equality⟩ :=
    List.mem_map.mp (Degree.mem_of_mem_levels member)
  exact ⟨element, equality ▸ present⟩

variable {ε : Type} [DecidableEq ε]

theorem membership_eq_of_mem_items {set : FuzzySet ε} {element : ε}
    {degree : Degree} (member : (element, degree) ∈ set.items) :
    set.membership element = degree := by
  have found : set.members.get? element = some degree :=
    (ArrivalMap.lookUp?_eq_some_iff set.members.nodup).mpr member
  simp [membership, found]

theorem mem_items_of_membership_pos {set : FuzzySet ε} {element : ε}
    (positive : 0 < (set.membership element).units) :
    (element, set.membership element) ∈ set.items := by
  cases found : set.members.get? element with
  | none =>
      simp [membership, found] at positive
  | some degree =>
      have equality : set.membership element = degree := by
        simp [membership, found]
      rw [equality]
      exact (ArrivalMap.lookUp?_eq_some_iff set.members.nodup).mp found

/-- A positive level is reached by a membership exactly when it is reached by
an entry of the element. -/
theorem le_membership_iff {set : FuzzySet ε} {element : ε} {level : Degree}
    (positive : 0 < level.units) :
    level ≤ set.membership element ↔
      ∃ degree, (element, degree) ∈ set.items ∧ level ≤ degree := by
  constructor
  · intro reached
    have membershipPositive : 0 < (set.membership element).units :=
      Nat.lt_of_lt_of_le positive reached
    exact ⟨_, mem_items_of_membership_pos membershipPositive, reached⟩
  · rintro ⟨degree, member, reached⟩
    rw [membership_eq_of_mem_items member]
    exact reached

/-- A positive level is reached after an assignment by the new degree of the
element, or by another element as before. -/
theorem le_membership_assign_iff {set : FuzzySet ε} {element other : ε}
    {degree level : Degree} :
    level ≤ (set.assign element degree).membership other ↔
      (other = element ∧ level ≤ degree) ∨
        (other ≠ element ∧ level ≤ set.membership other) := by
  rw [Degree.le_iff, membership_assign]
  by_cases same : other = element
  · simp [same, Degree.le_iff]
  · simp [same, Degree.le_iff]

theorem le_membership_ofList_iff {items : List (ε × Degree)}
    (distinct : (items.map Prod.fst).Nodup) {element : ε} {level : Degree}
    (positive : 0 < level.units) :
    level ≤ (ofList items).membership element ↔
      ∃ degree, (element, degree) ∈ items ∧ level ≤ degree := by
  induction items using List.reverseRecOn with
  | nil =>
      have vanishing : (ofList ([] : List (ε × Degree))).membership element =
          Degree.zero := rfl
      rw [vanishing, Degree.le_iff, Degree.units_zero]
      simp
      omega
  | append_singleton items item ih =>
      obtain ⟨last, lastDegree⟩ := item
      simp only [List.map_append, List.map_cons, List.map_nil] at distinct
      obtain ⟨earlierDistinct, _, apart⟩ := List.nodup_append.mp distinct
      have absent : ∀ degree, (last, degree) ∉ items := by
        intro degree present
        exact apart _ (List.mem_map_of_mem present) last
          List.mem_cons_self rfl
      have assigned : (ofList (items ++ [(last, lastDegree)])) =
          (ofList items).assign last lastDegree := by
        simp [ofList]
      rw [assigned, le_membership_assign_iff, ih earlierDistinct]
      constructor
      · intro reached
        rcases reached with ⟨same, below⟩ | ⟨_, degree, present, below⟩
        · exact ⟨lastDegree, by simp [same], below⟩
        · exact ⟨degree, List.mem_append_left _ present, below⟩
      · intro ⟨degree, member, below⟩
        rcases List.mem_append.mp member with present | isLast
        · right
          refine ⟨?_, degree, present, below⟩
          intro same
          exact absent degree (same ▸ present)
        · left
          cases List.mem_singleton.mp isLast
          exact ⟨rfl, below⟩

theorem membership_remove (set : FuzzySet ε) (element other : ε) :
    (set.remove element).membership other =
      if other = element then Degree.zero else set.membership other := by
  simp only [membership, remove, ArrivalMap.get?_erase]
  split <;> rfl

theorem items_assign_of_not_mem {set : FuzzySet ε} {element : ε}
    {degree : Degree} (nonzero : degree.isZero = false)
    (absent : element ∉ set.items.map Prod.fst) :
    (set.assign element degree).items = set.items ++ [(element, degree)] := by
  rw [assign, dif_neg (by simp [nonzero])]
  exact ArrivalMap.insertEntry_of_not_mem absent

/-- Distinct elements are listed as they were assigned. -/
theorem items_ofList {items : List (ε × Degree)}
    (distinct : (items.map Prod.fst).Nodup)
    (nonzero : ∀ item ∈ items, item.2.isZero = false) :
    (ofList items).items = items := by
  induction items using List.reverseRecOn with
  | nil => rfl
  | append_singleton items item ih =>
      simp only [List.map_append, List.map_cons, List.map_nil] at distinct
      obtain ⟨earlierDistinct, _, apart⟩ := List.nodup_append.mp distinct
      have earlier : (ofList items).items = items :=
        ih earlierDistinct fun other member =>
          nonzero other (List.mem_append_left _ member)
      have absent : item.1 ∉ (ofList items).items.map Prod.fst := by
        rw [earlier]
        intro present
        exact apart _ present item.1 List.mem_cons_self rfl
      have last : (ofList (items ++ [item])) =
          (ofList items).assign item.1 item.2 := by
        simp [ofList]
      rw [last, items_assign_of_not_mem (nonzero item (by simp)) absent,
        earlier]

theorem eq_of_items_eq {ε : Type} {left right : FuzzySet ε}
    (same : left.items = right.items) : left = right := by
  obtain ⟨⟨leftEntries, _⟩, _⟩ := left
  obtain ⟨⟨rightEntries, _⟩, _⟩ := right
  cases same
  rfl

/-- A set is what its members make when they are assigned in order. -/
theorem ofList_items (set : FuzzySet ε) :
    ofList set.items = set :=
  eq_of_items_eq (items_ofList set.members.nodup set.nonzero)

/-- A cut lists the members that reach its level, in their order. -/
theorem items_cut (set : FuzzySet ε) (level : Degree) :
    (set.cut level).items =
      (set.items.filter fun item => level ≤ item.2).map fun item =>
        (item.1, Degree.one) := by
  rw [cut]
  apply items_ofList
  · rw [List.map_map]
    exact set.members.nodup.sublist (List.filter_sublist.map Prod.fst)
  · intro item member
    obtain ⟨_, _, equality⟩ := List.mem_map.mp member
    rw [← equality]
    exact Bool.eq_false_iff.mpr fun vanishing =>
      Nat.ne_of_gt Binary64.unit_pos (Degree.isZero_iff.mp vanishing)

theorem mem_items_cut {set : FuzzySet ε} {level : Degree}
    {item : ε × Degree} :
    item ∈ (set.cut level).items ↔
      item.2 = Degree.one ∧
        ∃ degree, (item.1, degree) ∈ set.items ∧ level ≤ degree := by
  rw [items_cut]
  constructor
  · intro member
    obtain ⟨⟨element, degree⟩, kept, equality⟩ := List.mem_map.mp member
    obtain ⟨present, reached⟩ := List.mem_filter.mp kept
    rw [← equality]
    exact ⟨rfl, degree, present, by simpa using reached⟩
  · rintro ⟨full, degree, present, reached⟩
    apply List.mem_map.mpr
    refine ⟨(item.1, degree), List.mem_filter.mpr ⟨present, ?_⟩, ?_⟩
    · simpa using reached
    · rw [← full]

end FuzzySet

end Possibilistic
