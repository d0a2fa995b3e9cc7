import Mathlib.Data.List.Induction
import Mathlib.Order.Bounds.Defs
import Possibilistic.Proofs.Degree.Complement

/-!
# Greatest and least degrees

The greatest degree of a list is zero for the empty list, and the least is one.
Both are known by the levels that they reach.  The levels of a list are its
degrees in strictly ascending order, so the first is the least, and a search
from the last finds the greatest with a property.
-/

namespace Possibilistic

namespace Degree

/-- The greatest degree of a list, zero where there is none. -/
def maximum (degrees : List Degree) : Degree :=
  degrees.foldl max zero

/-- The least degree of a list, one where there is none. -/
def minimum (degrees : List Degree) : Degree :=
  degrees.foldl min one

private theorem le_foldl_max_iff {level start : Degree}
    {degrees : List Degree} :
    level ≤ degrees.foldl max start ↔
      level ≤ start ∨ ∃ degree ∈ degrees, level ≤ degree := by
  induction degrees generalizing start with
  | nil => simp
  | cons head tail ih =>
      have split : level ≤ max start head ↔ level ≤ start ∨ level ≤ head := by
        simp only [le_iff, units_max]
        omega
      simp only [List.foldl_cons, ih, split, List.mem_cons, exists_eq_or_imp,
        or_assoc]

private theorem le_foldl_min_iff {level start : Degree}
    {degrees : List Degree} :
    level ≤ degrees.foldl min start ↔
      level ≤ start ∧ ∀ degree ∈ degrees, level ≤ degree := by
  induction degrees generalizing start with
  | nil => simp
  | cons head tail ih =>
      have split : level ≤ min start head ↔ level ≤ start ∧ level ≤ head := by
        simp only [le_iff, units_min]
        omega
      simp only [List.foldl_cons, ih, split, List.forall_mem_cons, and_assoc]

theorem le_maximum_iff {level : Degree} {degrees : List Degree}
    (positive : 0 < level.units) :
    level ≤ maximum degrees ↔ ∃ degree ∈ degrees, level ≤ degree := by
  have above_zero : ¬level ≤ zero := by
    rw [le_iff, units_zero]
    omega
  simp [maximum, le_foldl_max_iff, above_zero]

theorem le_minimum_iff {level : Degree} {degrees : List Degree} :
    level ≤ minimum degrees ↔ ∀ degree ∈ degrees, level ≤ degree := by
  have below_one : level ≤ one := level.atMostOne
  simp [minimum, le_foldl_min_iff, below_one]

private theorem foldl_max_mem (start : Degree) (degrees : List Degree) :
    degrees.foldl max start = start ∨ degrees.foldl max start ∈ degrees := by
  induction degrees generalizing start with
  | nil => exact .inl rfl
  | cons head tail ih =>
      rw [List.foldl_cons]
      rcases ih (max start head) with kept | inTail
      · rw [kept]
        change (if start < head then head else start) = start ∨
          (if start < head then head else start) ∈ head :: tail
        split
        · exact .inr List.mem_cons_self
        · exact .inl rfl
      · exact .inr (List.mem_cons_of_mem _ inTail)

private theorem foldl_min_mem (start : Degree) (degrees : List Degree) :
    degrees.foldl min start = start ∨ degrees.foldl min start ∈ degrees := by
  induction degrees generalizing start with
  | nil => exact .inl rfl
  | cons head tail ih =>
      rw [List.foldl_cons]
      rcases ih (min start head) with kept | inTail
      · rw [kept]
        change (if head < start then head else start) = start ∨
          (if head < start then head else start) ∈ head :: tail
        split
        · exact .inr List.mem_cons_self
        · exact .inl rfl
      · exact .inr (List.mem_cons_of_mem _ inTail)

theorem maximum_mem (degrees : List Degree) :
    maximum degrees = zero ∨ maximum degrees ∈ degrees :=
  foldl_max_mem zero degrees

theorem minimum_mem (degrees : List Degree) :
    minimum degrees = one ∨ minimum degrees ∈ degrees :=
  foldl_min_mem one degrees

theorem isLeast_minimum {degrees : List Degree} (nonempty : degrees ≠ []) :
    IsLeast {degree | degree ∈ degrees} (minimum degrees) := by
  have lower : ∀ degree ∈ degrees, minimum degrees ≤ degree :=
    le_minimum_iff.mp (Nat.le_refl _)
  refine ⟨?_, fun degree member => lower degree member⟩
  rcases minimum_mem degrees with full | member
  · obtain ⟨degree, member⟩ := List.exists_mem_of_ne_nil degrees nonempty
    have reached : one ≤ degree := full ▸ lower degree member
    rw [full, ← eq_one_of_one_le reached]
    exact member
  · exact member

/-- A zero that is the greatest degree has the positive sign. -/
theorem negativeZero_maximum (degrees : List Degree) :
    (maximum degrees).negativeZero = false := by
  rw [maximum]
  have start : zero.negativeZero = false := rfl
  generalize zero = greatest at start ⊢
  induction degrees generalizing greatest with
  | nil => exact start
  | cons head tail ih =>
      rw [List.foldl_cons]
      exact ih _ (negativeZero_max start head)

theorem negativeZero_minimum {degrees : List Degree}
    (positive : ∀ degree ∈ degrees, degree.negativeZero = false) :
    (minimum degrees).negativeZero = false := by
  rcases minimum_mem degrees with none | member
  · rw [none]
    rfl
  · exact positive _ member

theorem isNegligible_minimum_iff {degrees : List Degree} :
    (minimum degrees).isNegligible = true ↔
      ∃ degree ∈ degrees, degree.isNegligible = true := by
  constructor
  · intro negligible
    rcases minimum_mem degrees with none | member
    · have vanishing : one.complement.isZero = true :=
        complement_isZero_iff.mpr (isOne_iff.mpr rfl)
      rw [none] at negligible
      have positive := Binary64.unit_pos
      have full := isOne_iff.mp negligible
      have empty := isZero_iff.mp vanishing
      omega
    · exact ⟨_, member, negligible⟩
  · rintro ⟨degree, member, negligible⟩
    have lower : minimum degrees ≤ degree :=
      le_minimum_iff.mp (Nat.le_refl _) degree member
    have raised : degree.complement ≤ (minimum degrees).complement :=
      complement_antitone lower
    have bounded := (minimum degrees).complement.atMostOne
    have full := isOne_iff.mp negligible
    apply isOne_iff.mpr
    rw [le_iff] at raised
    omega

theorem mem_insertLevel {degree level : Degree} {levels : List Degree}
    (member : level ∈ insertLevel degree levels) :
    level = degree ∨ level ∈ levels := by
  induction levels with
  | nil => simpa [insertLevel] using member
  | cons head tail ih =>
      simp only [insertLevel] at member
      split at member
      · simpa using member
      · split at member
        · rcases List.mem_cons.mp member with equality | inTail
          · exact .inr (by simp [equality])
          · exact (ih inTail).imp_right (List.mem_cons_of_mem _)
        · exact .inr member

theorem exists_mem_insertLevel (degree : Degree) (levels : List Degree) :
    ∀ sought : Degree, sought = degree ∨ sought ∈ levels →
      ∃ level ∈ insertLevel degree levels, level.units = sought.units := by
  induction levels with
  | nil =>
      intro sought known
      exact ⟨degree, by simp [insertLevel], by simp_all⟩
  | cons head tail ih =>
      intro sought known
      rw [insertLevel]
      split
      · exact ⟨sought, by simpa using known, rfl⟩
      · rename_i notBelow
        split
        · rcases known with equality | inLevels
          · obtain ⟨level, member, units⟩ := ih sought (.inl equality)
            exact ⟨level, List.mem_cons_of_mem _ member, units⟩
          · rcases List.mem_cons.mp inLevels with isHead | inTail
            · exact ⟨head, List.mem_cons_self, by rw [isHead]⟩
            · obtain ⟨level, member, units⟩ := ih sought (.inr inTail)
              exact ⟨level, List.mem_cons_of_mem _ member, units⟩
        · rename_i notAbove
          rcases known with equality | inLevels
          · refine ⟨head, List.mem_cons_self, ?_⟩
            rw [lt_iff] at notBelow notAbove
            rw [equality]
            omega
          · exact ⟨sought, inLevels, rfl⟩

theorem pairwise_insertLevel (degree : Degree) {levels : List Degree}
    (ascending : levels.Pairwise (· < ·)) :
    (insertLevel degree levels).Pairwise (· < ·) := by
  induction levels with
  | nil => simp [insertLevel]
  | cons head tail ih =>
      obtain ⟨headBelow, tailAscending⟩ := List.pairwise_cons.mp ascending
      rw [insertLevel]
      split
      · rename_i below
        refine List.pairwise_cons.mpr ⟨?_, ascending⟩
        intro level member
        rcases List.mem_cons.mp member with equality | inTail
        · rwa [equality]
        · exact Nat.lt_trans below (headBelow level inTail)
      · split
        · rename_i above
          refine List.pairwise_cons.mpr ⟨?_, ih tailAscending⟩
          intro level member
          rcases mem_insertLevel member with equality | inTail
          · rwa [equality]
          · exact headBelow level inTail
        · exact ascending

theorem levels_append_singleton (degrees : List Degree) (degree : Degree) :
    levels (degrees ++ [degree]) = insertLevel degree (levels degrees) := by
  simp [levels]

theorem mem_of_mem_levels {level : Degree} {degrees : List Degree}
    (member : level ∈ levels degrees) : level ∈ degrees := by
  induction degrees using List.reverseRecOn with
  | nil => cases member
  | append_singleton degrees degree ih =>
      rw [levels_append_singleton] at member
      rcases mem_insertLevel member with equality | earlier
      · simp [equality]
      · exact List.mem_append_left _ (ih earlier)

theorem exists_mem_levels {degree : Degree} {degrees : List Degree}
    (member : degree ∈ degrees) :
    ∃ level ∈ levels degrees, level.units = degree.units := by
  induction degrees using List.reverseRecOn generalizing degree with
  | nil => cases member
  | append_singleton degrees last ih =>
      rw [levels_append_singleton]
      rcases List.mem_append.mp member with earlier | isLast
      · obtain ⟨level, known, units⟩ := ih earlier
        obtain ⟨kept, keptMember, keptUnits⟩ :=
          exists_mem_insertLevel last (levels degrees) level (.inr known)
        exact ⟨kept, keptMember, keptUnits.trans units⟩
      · exact exists_mem_insertLevel last (levels degrees) degree
          (.inl (List.mem_singleton.mp isLast))

theorem pairwise_levels (degrees : List Degree) :
    (levels degrees).Pairwise (· < ·) := by
  induction degrees using List.reverseRecOn with
  | nil => exact List.Pairwise.nil
  | append_singleton degrees degree ih =>
      rw [levels_append_singleton]
      exact pairwise_insertLevel degree ih

theorem isLeast_of_ascending {first : Degree} {later : List Degree}
    (ascending : (first :: later).Pairwise (· < ·)) :
    IsLeast {degree | degree ∈ first :: later} first := by
  refine ⟨List.mem_cons_self, ?_⟩
  intro other member
  rcases List.mem_cons.mp member with same | behind
  · rw [same]
    exact Nat.le_refl _
  · exact Nat.le_of_lt ((List.pairwise_cons.mp ascending).1 other behind)

/-- The first degree that passes in a descending list is the greatest that
passes. -/
theorem isGreatest_of_find? {degrees : List Degree} {passes : Degree → Bool}
    {degree : Degree}
    (descending : degrees.Pairwise fun left right => right < left)
    (found : degrees.find? passes = some degree) :
    IsGreatest {other | other ∈ degrees ∧ passes other = true} degree := by
  obtain ⟨passing, earlier, later, split, failing⟩ :=
    List.find?_eq_some_iff_append.mp found
  refine ⟨⟨List.mem_of_find?_eq_some found, passing⟩, ?_⟩
  intro other ⟨member, otherPasses⟩
  rw [split] at member descending
  obtain ⟨_, laterBelow, _⟩ := List.pairwise_append.mp descending
  rcases List.mem_append.mp member with before | after
  · have fails := failing other before
    rw [otherPasses] at fails
    cases fails
  · rcases List.mem_cons.mp after with same | behind
    · rw [same]
      exact Nat.le_refl _
    · exact Nat.le_of_lt ((List.pairwise_cons.mp laterBelow).1 other behind)

end Degree

end Possibilistic
