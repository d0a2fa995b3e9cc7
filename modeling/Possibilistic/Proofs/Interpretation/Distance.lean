import Mathlib.Algebra.BigOperators.Group.List.Basic
import Mathlib.Algebra.Order.BigOperators.Group.List
import Mathlib.Data.Nat.Dist
import Possibilistic.Formula.Construction
import Possibilistic.Proofs.Binary64.Sums
import Possibilistic.Proofs.Degree.Arithmetic
import Possibilistic.Proofs.Interpretation.Equality

/-!
# Distances between interpretations

The distance compares what the first interpretation assigns with the truth of
the atoms in the second one.  The two readings agree unless a constant has been
assigned another degree than it denotes.  So the distance is what the first
interpretation is away from its own truth, and then the distance between the
truths of both, which has the laws of a metric.

Main statement: the answered distance is the exact one up to rounding; the exact
one satisfies the triangle inequality, and it is symmetric and separates
interpretations as far as constants have been assigned their own degrees.
-/

namespace Possibilistic

theorem Binary64.signed_not (negative : Bool) (units : Nat) :
    signed (!negative) units = -signed negative units := by
  cases negative with
  | false => rfl
  | true => exact (Int.neg_neg _).symm

theorem Binary64.abs_ofQuotient {negative : Bool} {numerator denominator : Nat}
    (inRange : round numerator denominator < limit) :
    (ofQuotient negative numerator denominator).abs =
      .finite false ⟨round numerator denominator,
        representable_round numerator denominator, inRange⟩ := by
  rw [ofQuotient, dif_pos inRange]
  rfl

/-- The distance of two degrees is their exact difference, rounded once. -/
theorem Degree.exists_distance_eq (left right : Degree) :
    ∃ magnitude, left.distance right = .finite false magnitude ∧
      magnitude.units = Binary64.round (Nat.dist left.units right.units) 1 ∧
      magnitude.units ≤ Binary64.unit := by
  have leftBounded := left.atMostOne
  have rightBounded := right.atMostOne
  have bounded : Binary64.round (Nat.dist left.units right.units) 1 ≤
      Binary64.unit := by
    apply Binary64.round_le Nat.one_pos Binary64.representable_unit
    unfold Nat.dist
    omega
  have inRange := Nat.lt_of_le_of_lt bounded Binary64.unit_lt_limit
  refine ⟨⟨_, Binary64.representable_round _ _, inRange⟩, ?_, rfl, bounded⟩
  have apart : ((left.units : Int) + -(right.units : Int)).natAbs =
      Nat.dist left.units right.units := by
    unfold Nat.dist
    omega
  change Binary64.abs (Binary64.add left.toBinary64
    (Binary64.neg right.toBinary64)) = _
  simp only [toBinary64, Binary64.neg, Binary64.add, Binary64.signed_not,
    signed_units]
  split
  · rename_i vanishing
    rw [vanishing] at apart
    have none : 0 = Nat.dist left.units right.units := apart
    rw [Binary64.abs_ofQuotient (by rw [none]; exact inRange)]
    simp only [← none]
  · rw [apart]
    exact Binary64.abs_ofQuotient inRange

/-- The answer is an exact count of units after so many roundings; the integer
zero stands for no sum at all. -/
def Datum.IsRounded (roundings exact : Nat) : Datum → Prop
  | .integer value => value = 0 ∧ exact = 0
  | .number (.finite false magnitude) =>
      Binary64.WithinRoundings roundings exact magnitude.units
  | _ => False

namespace Interpretation

/-- The distance without rounding, in units. -/
def exactDistance (left right : Interpretation) : Nat :=
  (left.degrees.entries.map fun (atom, degree) =>
    Nat.dist degree.units (right.truth atom).units).sum

/-- How far the atoms of the first interpretation differ in truth, in units. -/
def truthDistance (left right : Interpretation) : Nat :=
  (left.atoms.map fun atom =>
    Nat.dist (left.truth atom).units (right.truth atom).units).sum

/-- No constant has been assigned another degree than it denotes. -/
def KeepsConstants (interpretation : Interpretation) : Prop :=
  ∀ atom ∈ interpretation.atoms, ∀ degree, atom.constant? = some degree →
    (interpretation.assigned atom == degree) = true

/-- The order in which atoms were assigned does not matter without rounding. -/
theorem exactDistance_eq_sum (left right : Interpretation) :
    left.exactDistance right =
      (left.atoms.map fun atom =>
        Nat.dist (left.assigned atom).units (right.truth atom).units).sum := by
  have listed : (left.degrees.entries.map fun (atom, degree) =>
      Nat.dist degree.units (right.truth atom).units) =
        left.degrees.keys.map fun atom =>
          Nat.dist (left.assigned atom).units (right.truth atom).units := by
    rw [ArrivalMap.keys, List.map_map]
    apply List.map_congr_left
    rintro ⟨atom, degree⟩ member
    simp only [Function.comp_apply, assigned_of_mem_entries member]
  rw [exactDistance, listed]
  exact (left.keys_perm_atoms.map _).sum_eq

/-- A constant is as true in one interpretation as in the other; any other atom
has the truth that it was assigned. -/
theorem dist_assigned_truth (left right : Interpretation) (atom : Atom) :
    Nat.dist (left.assigned atom).units (right.truth atom).units =
      Nat.dist (left.assigned atom).units (left.truth atom).units +
        Nat.dist (left.truth atom).units (right.truth atom).units := by
  cases known : atom.constant? with
  | none => simp only [truth, known, Nat.dist_self, Nat.zero_add]
  | some degree => simp only [truth, known, Nat.dist_self, Nat.add_zero]

/-- The distance leads from the assigned degrees to the truth, and then from
one truth to the other. -/
theorem exactDistance_eq_add (left right : Interpretation) :
    left.exactDistance right =
      left.exactDistance left + left.truthDistance right := by
  rw [exactDistance_eq_sum, exactDistance_eq_sum, truthDistance,
    ← List.sum_map_add]
  simp only [← dist_assigned_truth]

theorem exactDistance_self_eq_zero_iff {interpretation : Interpretation} :
    interpretation.exactDistance interpretation = 0 ↔
      interpretation.KeepsConstants := by
  rw [exactDistance_eq_sum, List.sum_eq_zero_iff, List.forall_mem_map]
  apply forall₂_congr
  intro atom _
  cases known : atom.constant? with
  | none => simp [truth, known, Nat.dist_self]
  | some degree =>
      simp only [truth, known, Option.some.injEq, forall_eq', Degree.beq_iff]
      exact ⟨Nat.eq_of_dist_eq_zero, Nat.dist_eq_zero⟩

theorem truthDistance_eq_zero_iff {left right : Interpretation} :
    left.truthDistance right = 0 ↔
      ∀ atom ∈ left.atoms, (left.truth atom == right.truth atom) = true := by
  rw [truthDistance, List.sum_eq_zero_iff, List.forall_mem_map]
  apply forall₂_congr
  intro atom _
  rw [Degree.beq_iff]
  exact ⟨Nat.eq_of_dist_eq_zero, Nat.dist_eq_zero⟩

theorem truthDistance_comm {left right : Interpretation}
    (sameAtoms : left.atoms = right.atoms) :
    left.truthDistance right = right.truthDistance left := by
  simp only [truthDistance, sameAtoms, Nat.dist_comm]

theorem truthDistance_triangle {left middle : Interpretation}
    (sameAtoms : left.atoms = middle.atoms) (right : Interpretation) :
    left.truthDistance right ≤
      left.truthDistance middle + middle.truthDistance right := by
  rw [truthDistance, truthDistance, truthDistance, ← sameAtoms,
    ← List.sum_map_add]
  apply List.sum_le_sum
  intro atom _
  exact Nat.dist.triangle_inequality _ _ _

/-- With its own constants an interpretation assigns the truth. -/
theorem assigned_beq_iff_truth_beq {left right : Interpretation}
    (leftKeeps : left.KeepsConstants) (rightKeeps : right.KeepsConstants)
    (sameAtoms : left.atoms = right.atoms) :
    (∀ atom ∈ left.atoms,
        (left.truth atom == right.truth atom) = true) ↔
      ∀ atom ∈ left.atoms,
        (left.assigned atom == right.assigned atom) = true := by
  apply forall₂_congr
  intro atom member
  cases known : atom.constant? with
  | none => simp only [truth, known]
  | some degree =>
      have leftDegree := leftKeeps atom member degree known
      have rightDegree := rightKeeps atom (sameAtoms ▸ member) degree known
      simp only [truth, known, Degree.beq_iff] at *
      simp only [leftDegree, rightDegree]

/-- Adding up rounds every difference and every sum. -/
theorem exists_foldl_distance_eq {entries : List (Atom × Degree)}
    {start : Magnitude} {exact roundings : Nat}
    (notSaturated : start.units ≤ Binary64.saturation)
    (within : Binary64.WithinRoundings (roundings + 1) exact start.units)
    (right : Interpretation) :
    ∃ total : Magnitude,
      entries.foldl
          (fun sum (atom, degree) => sum + degree.distance (right.truth atom))
          (Binary64.finite false start) = .finite false total ∧
        Binary64.WithinRoundings (roundings + entries.length + 1)
          (exact + (entries.map fun (atom, degree) =>
            Nat.dist degree.units (right.truth atom).units).sum)
          total.units := by
  induction entries generalizing start exact roundings with
  | nil => exact ⟨start, rfl, within⟩
  | cons entry rest ih =>
      obtain ⟨atom, degree⟩ := entry
      obtain ⟨term, isTerm, termUnits, atMostOne⟩ :=
        degree.exists_distance_eq (right.truth atom)
      obtain ⟨next, isNext, nextUnits, nextNotSaturated⟩ :=
        Binary64.exists_add_eq notSaturated atMostOne
      have termWithin : Binary64.WithinRoundings (roundings + 1)
          (Nat.dist degree.units (right.truth atom).units) term.units := by
        rw [termUnits]
        exact (Binary64.WithinRoundings.refl _).round.mono (by omega)
      have nextWithin := (within.add termWithin).round
      rw [← nextUnits] at nextWithin
      obtain ⟨total, isTotal, totalWithin⟩ := ih nextNotSaturated nextWithin
      refine ⟨total, ?_, ?_⟩
      · rw [List.foldl_cons]
        dsimp only
        rw [isTerm, isNext]
        exact isTotal
      · rw [List.map_cons, List.sum_cons, ← Nat.add_assoc, List.length_cons,
          ← Nat.add_assoc, Nat.add_right_comm roundings]
        exact totalWithin

theorem exists_totalDistance_eq (left right : Interpretation) :
    ∃ total : Magnitude, left.totalDistance right = .finite false total ∧
      Binary64.WithinRoundings (left.atoms.length + 1)
        (left.exactDistance right) total.units := by
  have start : Binary64.WithinRoundings (0 + 1) 0 0 :=
    (Binary64.WithinRoundings.refl 0).succ
  obtain ⟨total, isTotal, within⟩ :=
    @exists_foldl_distance_eq left.degrees.entries
      ⟨0, Binary64.representable_zero, Binary64.limit_pos⟩ 0 0
      (Nat.zero_le _) start right
  have size : left.degrees.entries.length = left.atoms.length := by
    rw [← left.keys_perm_atoms.length_eq, ArrivalMap.keys, List.length_map]
  rw [Nat.zero_add, Nat.zero_add, size] at within
  exact ⟨total, isTotal, within⟩

theorem distance_of_atoms_eq {left right : Interpretation}
    (sameAtoms : left.atoms = right.atoms) :
    left.distance (.interpretation right) =
      if left.atoms.isEmpty then .ok (.integer 0)
      else .ok (.number (left.totalDistance right)) := by
  simp only [distance, Datum.asInterpretation]
  change (if left.atoms ≠ right.atoms then _ else _) = _
  rw [if_neg (not_not_intro sameAtoms)]
  rfl

/-- Interpretations of the same atoms have a distance. -/
theorem exists_distance_eq {left right : Interpretation}
    (sameAtoms : left.atoms = right.atoms) :
    ∃ answer, left.distance (.interpretation right) = .ok answer ∧
      answer.IsRounded (left.atoms.length + 1) (left.exactDistance right) := by
  rw [distance_of_atoms_eq sameAtoms]
  by_cases none : left.atoms = []
  · have nothing : left.exactDistance right = 0 := by
      rw [exactDistance_eq_sum, none]
      rfl
    rw [if_pos (List.isEmpty_iff.mpr none)]
    exact ⟨_, rfl, rfl, nothing⟩
  · obtain ⟨total, isTotal, within⟩ := exists_totalDistance_eq left right
    rw [if_neg (by simpa using none), isTotal]
    exact ⟨_, rfl, within⟩

/-- The distance is a metric as far as constants have been assigned their own
degrees. -/
theorem distance_is_metric_up_to_constants
    {left middle right : Interpretation}
    (sameAtoms : left.atoms = middle.atoms)
    (alsoSame : middle.atoms = right.atoms) :
    (∃ answer, left.distance (.interpretation right) = .ok answer ∧
      answer.IsRounded (left.atoms.length + 1) (left.exactDistance right)) ∧
    left.exactDistance right ≤
      left.exactDistance middle + middle.exactDistance right ∧
    (left.exactDistance right = right.exactDistance left ↔
      left.exactDistance left = right.exactDistance right) ∧
    (left.exactDistance right = 0 ↔
      left.KeepsConstants ∧
        ∀ atom ∈ left.atoms,
          (left.truth atom == right.truth atom) = true) ∧
    (left.KeepsConstants → right.KeepsConstants →
      left.exactDistance right = right.exactDistance left ∧
      (left.exactDistance right = 0 ↔
        ∀ atom ∈ left.atoms,
          (left.assigned atom == right.assigned atom) = true)) := by
  have outerAtoms := sameAtoms.trans alsoSame
  have symmetric := truthDistance_comm outerAtoms
  have separates : left.exactDistance right = 0 ↔
      left.KeepsConstants ∧
        ∀ atom ∈ left.atoms,
          (left.truth atom == right.truth atom) = true := by
    rw [exactDistance_eq_add, Nat.add_eq_zero_iff,
      exactDistance_self_eq_zero_iff, truthDistance_eq_zero_iff]
  refine ⟨exists_distance_eq outerAtoms, ?_, ?_, separates, ?_⟩
  · rw [left.exactDistance_eq_add right, left.exactDistance_eq_add middle,
      middle.exactDistance_eq_add right]
    have triangle := truthDistance_triangle sameAtoms right
    omega
  · rw [left.exactDistance_eq_add right, right.exactDistance_eq_add left]
    omega
  · intro leftKeeps rightKeeps
    constructor
    · rw [left.exactDistance_eq_add right, right.exactDistance_eq_add left,
        exactDistance_self_eq_zero_iff.mpr leftKeeps,
        exactDistance_self_eq_zero_iff.mpr rightKeeps, symmetric]
    · rw [separates,
        assigned_beq_iff_truth_beq leftKeeps rightKeeps outerAtoms]
      exact and_iff_right leftKeeps

/-- A constant with its own degree does not disturb the laws. -/
theorem distance_is_metric_up_to_constants_rain :
    let rainy := ofList [(⟨"0.5"⟩, Degree.half), (⟨"rain"⟩, Degree.one)]
    let dry := ofList [(⟨"rain"⟩, Degree.zero), (⟨"0.5"⟩, Degree.half)]
    let unknown := ofList [(⟨"rain"⟩, Degree.half), (⟨"0.5"⟩, Degree.half)]
    (rainy.atoms = unknown.atoms ∧ unknown.atoms = dry.atoms) ∧
      rainy.exactDistance dry ≤
        rainy.exactDistance unknown + unknown.exactDistance dry ∧
      rainy.exactDistance dry = dry.exactDistance rainy := by
  intro rainy dry unknown
  have sameAtoms : rainy.atoms = unknown.atoms := by decide +kernel
  have alsoSame : unknown.atoms = dry.atoms := by decide +kernel
  have rainyKeeps : rainy.KeepsConstants :=
    exactDistance_self_eq_zero_iff.mp (by decide +kernel)
  have dryKeeps : dry.KeepsConstants :=
    exactDistance_self_eq_zero_iff.mp (by decide +kernel)
  obtain ⟨_, triangle, _, _, metric⟩ :=
    distance_is_metric_up_to_constants sameAtoms alsoSame
  exact ⟨⟨sameAtoms, alsoSame⟩, triangle, (metric rainyKeeps dryKeeps).1⟩

/-- Where a constant has been assigned another degree, an interpretation is
away from itself, and not as far from another one as the other way round. -/
theorem distance_is_no_metric_with_misassigned_constant :
    let one := ofList [(⟨"0.5"⟩, Degree.one)]
    let half := ofList [(⟨"0.5"⟩, Degree.half)]
    one.atoms = half.atoms ∧
      (one.assigned ⟨"0.5"⟩ == half.assigned ⟨"0.5"⟩) = false ∧
      one.distance (.interpretation one) =
        .ok (.number Degree.half.toBinary64) ∧
      half.distance (.interpretation one) = .ok (.number Binary64.zero) ∧
      one.distance (.interpretation half) =
        .ok (.number Degree.half.toBinary64) := by
  intro one half
  have sameAtoms : one.atoms = half.atoms := by decide +kernel
  have oneNonempty : ¬one.atoms.isEmpty = true := by decide +kernel
  have halfNonempty : ¬half.atoms.isEmpty = true := by decide +kernel
  have toItself : one.totalDistance one = Degree.half.toBinary64 := by
    decide +kernel
  have fromHalf : half.totalDistance one = Binary64.zero := by
    decide +kernel
  have toHalf : one.totalDistance half = Degree.half.toBinary64 := by
    decide +kernel
  refine ⟨sameAtoms, by decide +kernel, ?_, ?_, ?_⟩
  · rw [distance_of_atoms_eq rfl, if_neg oneNonempty, toItself]
  · rw [distance_of_atoms_eq sameAtoms.symm, if_neg halfNonempty, fromHalf]
  · rw [distance_of_atoms_eq sameAtoms, if_neg oneNonempty, toHalf]

end Interpretation

end Possibilistic
