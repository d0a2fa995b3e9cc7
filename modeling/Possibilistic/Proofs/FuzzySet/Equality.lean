import Mathlib.Data.List.Sort
import Possibilistic.Proofs.FuzzySet.Members

/-!
# Equal fuzzy sets

A membership never is a negative zero, so it is known by its units.  Sets count
as equal when all memberships are; then they have the same levels, whatever the
order of arrival.
-/

namespace Possibilistic

instance : @Std.Irrefl Degree (· < ·) :=
  ⟨fun degree => Nat.lt_irrefl degree.units⟩

instance : @Std.Antisymm Degree (· < ·) :=
  ⟨fun _ _ below above => absurd below (Nat.lt_asymm above)⟩

namespace FuzzySet

theorem mem_levels_iff {ε : Type} {set : FuzzySet ε} {level : Degree} :
    level ∈ set.levels ↔ ∃ element, (element, level) ∈ set.items := by
  constructor
  · exact mem_items_of_mem_levels
  · intro ⟨element, present⟩
    obtain ⟨known, inLevels, units⟩ := Degree.exists_mem_levels
      (List.mem_map_of_mem present : level ∈ set.members.values)
    obtain ⟨other, otherPresent⟩ := mem_items_of_mem_levels inLevels
    have equality : known = level := by
      apply Degree.ext_units units
      rw [Degree.negativeZero_of_pos (pos_of_mem_items otherPresent),
        Degree.negativeZero_of_pos (pos_of_mem_items present)]
    exact equality ▸ inLevels

theorem nodup_items {ε : Type} (set : FuzzySet ε) : set.items.Nodup :=
  List.Nodup.of_map _ set.members.nodup

variable {ε : Type} [DecidableEq ε] {left right : FuzzySet ε}

theorem negativeZero_membership (set : FuzzySet ε) (element : ε) :
    (set.membership element).negativeZero = false := by
  by_cases positive : 0 < (set.membership element).units
  · exact Degree.negativeZero_of_pos positive
  · cases found : set.members.get? element with
    | none => simp [membership, found, Degree.zero, Degree.signedZero]
    | some degree =>
        have present : (element, degree) ∈ set.items :=
          (ArrivalMap.lookUp?_eq_some_iff set.members.nodup).mp found
        rw [membership_eq_of_mem_items present] at positive
        exact absurd (pos_of_mem_items present) positive

/-- A membership is known by the positive levels that it reaches. -/
theorem membership_eq_of_le_iff {element other : ε}
    (levels : ∀ level : Degree, 0 < level.units →
      (level ≤ left.membership element ↔ level ≤ right.membership other)) :
    left.membership element = right.membership other := by
  apply Degree.ext_units
  · exact Degree.units_eq_of_le_iff levels
  · rw [negativeZero_membership, negativeZero_membership]

theorem mem_items_iff {set : FuzzySet ε} {item : ε × Degree} :
    item ∈ set.items ↔
      0 < item.2.units ∧ set.membership item.1 = item.2 := by
  constructor
  · intro present
    exact ⟨pos_of_mem_items present, membership_eq_of_mem_items present⟩
  · intro ⟨positive, equality⟩
    rw [← equality] at positive
    have present := mem_items_of_membership_pos positive
    rw [equality] at present
    exact present

theorem mem_items_congr (same : left.membership = right.membership)
    (item : ε × Degree) : item ∈ left.items ↔ item ∈ right.items := by
  rw [mem_items_iff, mem_items_iff, same]

theorem items_perm_of_membership_eq
    (same : left.membership = right.membership) :
    left.items.Perm right.items :=
  (List.perm_ext_iff_of_nodup (nodup_items left) (nodup_items right)).mpr
    (mem_items_congr same)

/-- The executable comparison looks every entry up in the other set. -/
theorem sameEntries_iff :
    left.members.sameEntries right.members = true ↔
      left.items.length = right.items.length ∧
        ∀ item ∈ left.items, right.membership item.1 = item.2 := by
  rw [ArrivalMap.sameEntries, Bool.and_eq_true, beq_iff_eq, List.all_eq_true]
  apply and_congr_right
  intro _
  apply forall₂_congr
  intro ⟨element, degree⟩ present
  have positive : 0 < degree.units := pos_of_mem_items present
  cases found : right.members.get? element with
  | none =>
      have absent : right.membership element = Degree.zero := by
        simp [membership, found]
      have different : Degree.zero ≠ degree := by
        intro vanishing
        rw [← vanishing] at positive
        exact Nat.lt_irrefl _ positive
      simp [found, absent, different]
  | some other =>
      have known : right.membership element = other := by
        simp [membership, found]
      have sign : degree.negativeZero = other.negativeZero := by
        rw [Degree.negativeZero_of_pos positive, ← known,
          negativeZero_membership]
      simp only [found, known, Degree.beq_iff]
      constructor
      · intro units
        exact (Degree.ext_units units sign).symm
      · intro equality
        rw [equality]

/-- Sets are equal when all memberships are. -/
theorem beq_iff :
    (left == right) = true ↔ left.membership = right.membership := by
  change left.members.sameEntries right.members = true ↔ _
  rw [sameEntries_iff]
  constructor
  · intro ⟨sameSize, listed⟩
    have included : left.items ⊆ right.items := by
      intro item present
      exact mem_items_iff.mpr
        ⟨pos_of_mem_items present, listed item present⟩
    have perm : left.items.Perm right.items :=
      (List.subperm_of_subset (nodup_items left) included).perm_of_length_le
        (Nat.le_of_eq sameSize.symm)
    funext element
    apply membership_eq_of_le_iff
    intro level positive
    rw [le_membership_iff positive, le_membership_iff positive]
    simp only [perm.mem_iff]
  · intro same
    refine ⟨(items_perm_of_membership_eq same).length_eq, ?_⟩
    intro item present
    rw [← same]
    exact membership_eq_of_mem_items present

/-- Assignments to distinct elements may come in any order. -/
theorem membership_ofList_of_perm {items others : List (ε × Degree)}
    (perm : items.Perm others) (distinct : (items.map Prod.fst).Nodup) :
    (ofList items).membership = (ofList others).membership := by
  have othersDistinct : (others.map Prod.fst).Nodup :=
    (perm.map Prod.fst).nodup_iff.mp distinct
  funext element
  apply membership_eq_of_le_iff
  intro level positive
  rw [le_membership_ofList_iff distinct positive,
    le_membership_ofList_iff othersDistinct positive]
  simp only [perm.mem_iff]

/-- Equal memberships have the same levels. -/
theorem levels_congr (same : left.membership = right.membership) :
    left.levels = right.levels := by
  apply List.Pairwise.eq_of_mem_iff (Degree.pairwise_levels _)
    (Degree.pairwise_levels _)
  intro level
  change level ∈ left.levels ↔ level ∈ right.levels
  rw [mem_levels_iff, mem_levels_iff]
  simp only [mem_items_congr same]

end FuzzySet

end Possibilistic
