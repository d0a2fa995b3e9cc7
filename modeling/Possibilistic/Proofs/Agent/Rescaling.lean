import Possibilistic.Agent.Revision
import Possibilistic.Proofs.Degree.Arithmetic
import Possibilistic.Proofs.FactSet.Telling

/-!
# Rescaled beliefs

Above the level of contradiction the number that rescales a belief lies between
zero and one, so the beliefs above it are all kept.  Rescaling keeps the order
of the beliefs, so a world is excluded by the same belief as before.
-/

namespace Possibilistic

theorem Datum.asDegree_number {number : Binary64} {degree : Degree}
    (found : Degree.ofBinary64? number = some degree) :
    (Datum.number number).asDegree = .ok degree := by
  change (Datum.number number).asDegreeOf number = _
  simp only [Datum.asDegreeOf, found]

namespace Agent

/-- The degree of a rescaled belief. -/
def rescaling (degree contradiction : Degree) : Degree :=
  (Degree.ofBinary64? (rescaled degree contradiction)).getD Degree.zero

/-- What becomes of the degree of a belief: it is rescaled above the level of
contradiction and given up elsewhere. -/
def retained (degree contradiction : Degree) : Degree :=
  if contradiction < degree then rescaling degree contradiction
  else Degree.zero

section

variable {degree contradiction : Degree} (above : contradiction < degree)

include above

theorem rescaling_bounded :
    degree.complement.units * Binary64.unit ≤
      Binary64.unit * contradiction.complement.units := by
  have reversed : degree.complement ≤ contradiction.complement :=
    Degree.complement_antitone (Nat.le_of_lt above)
  rw [Nat.mul_comm]
  exact Nat.mul_le_mul_left _ reversed

theorem rescaled_eq_complement :
    rescaled degree contradiction =
      (Degree.ofQuotient (degree.complement.units * Binary64.unit)
        contradiction.complement.units (Degree.complement_pos_of_lt above)
          (rescaling_bounded above)).complement.toBinary64 := by
  rw [rescaled, Degree.toBinary64_div rfl rfl (Degree.complement_pos_of_lt above)
    (rescaling_bounded above), Degree.one_sub_toBinary64]

theorem ofBinary64?_rescaled :
    Degree.ofBinary64? (rescaled degree contradiction) =
      some (rescaling degree contradiction) := by
  rw [rescaling, rescaled_eq_complement above,
    Degree.ofBinary64?_toBinary64]
  rfl

/-- Above the level of contradiction the rescaled number is a degree. -/
theorem toBinary64_rescaling :
    (rescaling degree contradiction).toBinary64 =
      rescaled degree contradiction := by
  rw [rescaling, rescaled_eq_complement above,
    Degree.ofBinary64?_toBinary64]
  rfl

theorem rescaling_mono {larger : Degree} (ordered : degree ≤ larger) :
    rescaling degree contradiction ≤ rescaling larger contradiction := by
  have largerAbove : contradiction < larger := Nat.lt_of_lt_of_le above ordered
  simp only [rescaling]
  rw [rescaled_eq_complement above, rescaled_eq_complement largerAbove,
    Degree.ofBinary64?_toBinary64, Degree.ofBinary64?_toBinary64]
  apply Degree.complement_antitone
  apply Binary64.round_mono (Degree.complement_pos_of_lt above)
  exact Nat.mul_le_mul_right _ (Degree.complement_antitone ordered)

/-- What was certain stays certain. -/
theorem rescaling_of_isOne (certain : degree.isOne = true) :
    rescaling degree contradiction = Degree.one := by
  have vanishing : degree.complement.units = 0 :=
    Degree.isZero_iff.mp (Degree.complement_isZero_iff.mpr certain)
  rw [rescaling, rescaled_eq_complement above, Degree.ofBinary64?_toBinary64]
  apply Degree.ext_units
  · apply Degree.isOne_iff.mp
    apply Degree.complement_isOne_of_isZero
    rw [Degree.isZero_iff]
    change Binary64.round (degree.complement.units * Binary64.unit) _ = 0
    rw [vanishing, Nat.zero_mul]
    exact Binary64.round_zero _ (Degree.complement_pos_of_lt above)
  · rfl

theorem negativeZero_rescaling :
    (rescaling degree contradiction).negativeZero = false := by
  rw [rescaling, rescaled_eq_complement above,
    Degree.ofBinary64?_toBinary64]
  rfl

end

section

variable {contradiction : Degree} {beliefs : FactSet}

/-- The beliefs above the level of contradiction with their new degrees. -/
def rescaledItems (contradiction : Degree) (items : List (Formula × Degree)) :
    List (Formula × Degree) :=
  (items.filter fun item => contradiction < item.2).map fun item =>
    (item.1, rescaling item.2 contradiction)

/-- The kept beliefs at their new degrees. -/
def kept (contradiction : Degree) (beliefs : FactSet) : FactSet :=
  FuzzySet.ofList (rescaledItems contradiction beliefs.items)

theorem tellOffered_rescaled {degree : Degree} (above : contradiction < degree)
    (facts : FactSet) (fact : Formula) :
    facts.tellOffered (.formula fact)
        (.number (rescaled degree contradiction)) =
      .ok (facts.tell fact (rescaling degree contradiction)) := by
  have accepted := Datum.asDegree_number (ofBinary64?_rescaled above)
  simp only [FactSet.tellOffered, accepted]
  rfl

theorem keepAbove_eq (contradiction : Degree) (beliefs : FactSet) :
    keepAbove contradiction beliefs =
      .ok (kept contradiction beliefs) := by
  have general : ∀ (items : List (Formula × Degree)) (start : FactSet),
      items.foldlM (fun (kept : FactSet) (item : Formula × Degree) =>
        if contradiction < item.2 then
          kept.tellOffered (.formula item.1)
            (.number (rescaled item.2 contradiction))
        else pure kept) start =
      Except.ok ((rescaledItems contradiction items).foldl
        (fun set item => set.assign item.1 item.2) start) := by
    intro items
    induction items with
    | nil =>
        intro start
        rfl
    | cons item rest ih =>
        intro start
        obtain ⟨fact, degree⟩ := item
        rw [List.foldlM_cons]
        by_cases above : contradiction < degree
        · simp only [above, ↓reduceIte, tellOffered_rescaled above]
          simp only [rescaledItems, List.filter_cons, above]
          exact ih _
        · simp only [above, ↓reduceIte]
          simp only [rescaledItems, List.filter_cons, above]
          exact ih _
  exact general beliefs.items FactSet.empty

theorem le_membership_kept_iff {fact : Formula} {level : Degree}
    (positive : 0 < level.units) :
    level ≤ (kept contradiction beliefs).membership fact ↔
      ∃ degree, (fact, degree) ∈ beliefs.items ∧ contradiction < degree ∧
        level ≤ rescaling degree contradiction := by
  have distinct :
      ((rescaledItems contradiction beliefs.items).map Prod.fst).Nodup := by
    rw [rescaledItems, List.map_map]
    exact beliefs.members.nodup.sublist (List.filter_sublist.map Prod.fst)
  rw [kept, FuzzySet.le_membership_ofList_iff distinct positive]
  constructor
  · intro ⟨known, member, reached⟩
    obtain ⟨⟨other, degree⟩, inFilter, equality⟩ := List.mem_map.mp member
    obtain ⟨present, above⟩ := List.mem_filter.mp inFilter
    cases equality
    exact ⟨degree, present, of_decide_eq_true above, reached⟩
  · intro ⟨degree, present, above, reached⟩
    refine ⟨rescaling degree contradiction, ?_, reached⟩
    apply List.mem_map.mpr
    refine ⟨(fact, degree), ?_, rfl⟩
    exact List.mem_filter.mpr ⟨present, decide_eq_true above⟩

/-- Only beliefs are kept. -/
theorem exists_mem_of_mem_items_kept {fact : Formula} {degree : Degree}
    (present : (fact, degree) ∈ (kept contradiction beliefs).items) :
    ∃ known, (fact, known) ∈ beliefs.items := by
  have positive : 0 < degree.units := FuzzySet.pos_of_mem_items present
  have reached := (FuzzySet.le_membership_iff positive).mpr
    ⟨degree, present, Nat.le_refl _⟩
  obtain ⟨known, inBeliefs, _⟩ := (le_membership_kept_iff positive).mp reached
  exact ⟨known, inBeliefs⟩

theorem isClassicalOver_kept {atoms : List Atom}
    (factsOver : beliefs.IsClassicalOver atoms) :
    (kept contradiction beliefs).IsClassicalOver atoms :=
  factsOver.of_memberships fun _ _ => exists_mem_of_mem_items_kept

theorem le_retained_iff {degree level : Degree} (positive : 0 < level.units) :
    level ≤ retained degree contradiction ↔
      contradiction < degree ∧ level ≤ rescaling degree contradiction := by
  by_cases above : contradiction < degree
  · simp [retained, above]
  · simp [retained, above, Degree.le_iff]
    omega

theorem negativeZero_retained (degree contradiction : Degree) :
    (retained degree contradiction).negativeZero = false := by
  by_cases above : contradiction < degree
  · simp only [retained, if_pos above]
    exact negativeZero_rescaling above
  · simp only [retained, if_neg above]
    rfl

/-- The kept beliefs exclude a world as far as the strongest belief that is
false in it is retained. -/
theorem exclusion_kept (world : Interpretation) :
    (kept contradiction beliefs).exclusion world =
      retained (beliefs.exclusion world) contradiction := by
  apply Degree.ext_units
  · apply Degree.units_eq_of_le_iff
    intro level positive
    rw [FactSet.le_exclusion_iff_membership positive,
      le_retained_iff positive]
    constructor
    · intro ⟨fact, fails, reached⟩
      obtain ⟨degree, present, above, below⟩ :=
        (le_membership_kept_iff positive).mp reached
      have excluded : degree ≤ beliefs.exclusion world :=
        FactSet.le_exclusion_of_mem present fails
      exact ⟨Nat.lt_of_lt_of_le above excluded,
        Nat.le_trans below (rescaling_mono above excluded)⟩
    · intro ⟨above, below⟩
      rcases FactSet.exclusion_eq_zero_or_mem beliefs world with
        none | ⟨⟨fact, degree⟩, present, fails, equality⟩
      · rw [none, Degree.lt_iff, Degree.units_zero] at above
        omega
      · rw [← equality] at above below
        refine ⟨fact, fails, ?_⟩
        exact (le_membership_kept_iff positive).mpr
          ⟨degree, present, above, below⟩
  · rw [FactSet.negativeZero_exclusion, negativeZero_retained]

end

end Agent

end Possibilistic
