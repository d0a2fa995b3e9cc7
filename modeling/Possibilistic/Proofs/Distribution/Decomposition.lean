import Possibilistic.Proofs.Distribution.Measures
import Possibilistic.Proofs.Formula.Classical

/-!
# The measures decompose

The greatest degree of the worlds that satisfy one of two conditions is the
greater of the two greatest degrees, and the least degree the smaller of the two
least degrees.  A disjunction is fully true where a side is, and a conjunction
fully false where a side is, in whatever degrees between a world leaves the
sides.  So possibility turns disjunctions into maxima, necessity conjunctions
into minima, and guaranteed possibility disjunctions into minima.
-/

namespace Possibilistic

namespace Degree

theorem min_isZero_iff {left right : Degree} :
    (min left right).isZero = true ↔
      left.isZero = true ∨ right.isZero = true := by
  simp only [isZero_iff, units_min]
  omega

end Degree

namespace Distribution

section

variable {distribution : Distribution}
  {first second either : Interpretation → Bool}

theorem greatest_congr
    (same : ∀ world ∈ distribution.worlds, first world = second world) :
    distribution.greatest first = distribution.greatest second := by
  apply Degree.ext_units
  · apply Degree.units_eq_of_le_iff
    intro level positive
    rw [le_greatest_iff positive, le_greatest_iff positive]
    apply exists_congr
    intro number
    apply and_congr_right
    intro inRange
    rw [same _ (World.mem_all.mpr ⟨number, inRange, rfl⟩)]
  · rw [negativeZero_greatest, negativeZero_greatest]

/-- A positive level is reached where one of the conditions holds exactly when
it is reached under one of them. -/
theorem greatest_of_either
    (holds : ∀ world,
      either world = true ↔ first world = true ∨ second world = true) :
    distribution.greatest either =
      max (distribution.greatest first) (distribution.greatest second) := by
  apply Degree.ext_units
  · apply Degree.units_eq_of_le_iff
    intro level positive
    rw [Degree.le_max_iff, le_greatest_iff positive, le_greatest_iff positive,
      le_greatest_iff positive, ← exists_or]
    apply exists_congr
    intro number
    rw [holds, ← and_or_left, or_and_right]
  · rw [negativeZero_greatest, Degree.negativeZero_max]
    exact negativeZero_greatest distribution first

/-- A level is reached wherever one of the conditions holds exactly when it is
reached under both of them.  The zeros that both sides find first may differ in
sign. -/
theorem least_of_either
    (holds : ∀ world,
      either world = true ↔ first world = true ∨ second world = true) :
    (distribution.least either ==
      min (distribution.least first) (distribution.least second)) = true := by
  apply Degree.beq_iff.mpr
  apply Degree.units_eq_of_le_iff
  intro level _
  rw [Degree.le_min_iff, le_least_iff, le_least_iff, le_least_iff,
    ← forall_and]
  apply forall_congr'
  intro number
  rw [holds, ← forall_and, or_imp]

end

theorem possibility_disj (distribution : Distribution)
    (left right : Formula) :
    distribution.possibility (left.disj right) =
      max (distribution.possibility left) (distribution.possibility right) :=
  greatest_of_either fun _ => Degree.max_isOne_iff

theorem necessity_conj (distribution : Distribution) (left right : Formula) :
    distribution.necessity (left.conj right) =
      min (distribution.necessity left) (distribution.necessity right) := by
  have excluded : (distribution.greatest fun world =>
      ((left.conj right).truth world).isZero) =
        max (distribution.greatest fun world => (left.truth world).isZero)
          (distribution.greatest fun world => (right.truth world).isZero) :=
    greatest_of_either fun _ => Degree.min_isZero_iff
  rw [necessity, excluded]
  apply Degree.ext_units
  · rw [Degree.units_complement_max, Degree.units_min]
    rfl
  · change false = (if _ then _ else _ : Degree).negativeZero
    split <;> rfl

theorem guaranteedPossibility_disj (distribution : Distribution)
    (left right : Formula) :
    (distribution.guaranteedPossibility (left.disj right) ==
      min (distribution.guaranteedPossibility left)
        (distribution.guaranteedPossibility right)) = true :=
  least_of_either fun _ => Degree.max_isOne_iff

/-- The negation of a formula that every world decides holds in the worlds where
the formula fails. -/
theorem necessity_eq_complement_possibility_neg {distribution : Distribution}
    {formula : Formula}
    (decided : ∀ world ∈ distribution.worlds, (formula.truth world).IsCrisp) :
    distribution.necessity formula =
      (distribution.possibility formula.neg).complement := by
  rw [necessity, possibility]
  congr 1
  apply greatest_congr
  intro world inWorlds
  rw [Bool.eq_iff_iff]
  exact (decided world inWorlds).complement_isOne_iff.symm

/-- The measures of a distribution over any vocabulary are decomposable, for
formulas with any constants and any atoms, and dual for a formula that every
world decides. -/
theorem measures_are_decomposable (distribution : Distribution)
    (left right : Formula) :
    distribution.possibility (left.disj right) =
        max (distribution.possibility left) (distribution.possibility right) ∧
      distribution.necessity (left.conj right) =
        min (distribution.necessity left) (distribution.necessity right) ∧
      (distribution.guaranteedPossibility (left.disj right) ==
        min (distribution.guaranteedPossibility left)
          (distribution.guaranteedPossibility right)) = true ∧
      ((∀ world ∈ distribution.worlds, (left.truth world).IsCrisp) →
        distribution.necessity left =
          (distribution.possibility left.neg).complement) :=
  ⟨possibility_disj distribution left right,
    necessity_conj distribution left right,
    guaranteedPossibility_disj distribution left right,
    necessity_eq_complement_possibility_neg⟩

/-- Rain is possible, and its absence half possible, so rain is half necessary.
Wind is outside the vocabulary: it is half true in both worlds, so it is neither
possible nor does it add to the possibility of rain. -/
theorem measures_are_decomposable_rain :
    let rain : Formula := .atom ⟨"rain"⟩
    let wind : Formula := .atom ⟨"wind"⟩
    let distribution : Distribution :=
      { atoms := [⟨"rain"⟩]
        degrees := [Degree.half, Degree.one]
        length_eq := rfl }
    (∀ world ∈ distribution.worlds, (rain.truth world).IsCrisp) ∧
      distribution.possibility wind = Degree.zero ∧
      distribution.possibility (rain.disj wind) = Degree.one ∧
      distribution.necessity rain = Degree.half := by
  intro rain wind distribution
  have decided : ∀ world ∈ distribution.worlds,
      (rain.truth world).IsCrisp := by
    intro world inWorlds
    exact Formula.truth_isCrisp inWorlds (by decide +kernel)
      (by decide +kernel)
  have wet : distribution.possibility rain = Degree.one := by decide +kernel
  have windless : distribution.possibility wind = Degree.zero := by
    decide +kernel
  have dry : distribution.possibility rain.neg = Degree.half := by
    decide +kernel
  obtain ⟨joined, _, _, dual⟩ :=
    measures_are_decomposable distribution rain wind
  refine ⟨decided, windless, ?_, ?_⟩
  · rw [joined, wet, windless]
    decide +kernel
  · rw [dual decided, dry]
    decide +kernel

end Distribution

end Possibilistic
