import Possibilistic.Agent.Basic
import Possibilistic.Proofs.FuzzySet.Equality

/-!
# Support by facts

How far facts support a formula depends on the memberships of formulas that are
no constants.  Support is computed by least and greatest degrees and by
complements, and three complements are one, so it never leaves a finite list of
degrees that has the constants and the memberships.
-/

namespace Possibilistic

namespace Degree

/-- Degrees with their complements and the complements of these. -/
def withComplements (degrees : List Degree) : List Degree :=
  degrees ++ degrees.map complement ++
    degrees.map fun degree => degree.complement.complement

theorem length_withComplements (degrees : List Degree) :
    (withComplements degrees).length = 3 * degrees.length := by
  simp only [withComplements, List.length_append, List.length_map]
  omega

/-- The degree is in the list, up to the sign of zero. -/
def IsAmong (degree : Degree) (degrees : List Degree) : Prop :=
  ∃ known ∈ degrees, known.units = degree.units

theorem isAmong_withComplements {degree : Degree} {degrees : List Degree}
    (member : degree ∈ degrees) : degree.IsAmong (withComplements degrees) :=
  ⟨degree, List.mem_append_left _ (List.mem_append_left _ member), rfl⟩

namespace IsAmong

variable {degrees : List Degree}

theorem of_units_eq {degree other : Degree} (among : degree.IsAmong degrees)
    (units : degree.units = other.units) : other.IsAmong degrees := by
  obtain ⟨known, member, equality⟩ := among
  exact ⟨known, member, equality.trans units⟩

theorem complement {degree : Degree}
    (among : degree.IsAmong (withComplements degrees)) :
    degree.complement.IsAmong (withComplements degrees) := by
  obtain ⟨known, member, equality⟩ := among
  rw [← complement_congr equality]
  rcases List.mem_append.mp member with earlier | twice
  · rcases List.mem_append.mp earlier with plain | once
    · refine ⟨known.complement, ?_, rfl⟩
      apply List.mem_append_left
      exact List.mem_append_right _ (List.mem_map_of_mem plain)
    · obtain ⟨source, plain, image⟩ := List.mem_map.mp once
      refine ⟨known.complement, ?_, rfl⟩
      apply List.mem_append_right
      exact List.mem_map.mpr ⟨source, plain, by rw [image]⟩
  · -- The third complement of a degree is its first.
    obtain ⟨source, plain, image⟩ := List.mem_map.mp twice
    refine ⟨source.complement, ?_, ?_⟩
    · apply List.mem_append_left
      exact List.mem_append_right _ (List.mem_map_of_mem plain)
    · rw [← image, complement_complement_complement]

theorem min {left right : Degree} (leftAmong : left.IsAmong degrees)
    (rightAmong : right.IsAmong degrees) :
    (min left right).IsAmong degrees := by
  change (if right < left then right else left).IsAmong degrees
  split
  · exact rightAmong
  · exact leftAmong

theorem max {left right : Degree} (leftAmong : left.IsAmong degrees)
    (rightAmong : right.IsAmong degrees) :
    (max left right).IsAmong degrees := by
  change (if left < right then right else left).IsAmong degrees
  split
  · exact rightAmong
  · exact leftAmong

theorem connective {left right : Degree}
    (leftAmong : left.IsAmong (withComplements degrees))
    (rightAmong : right.IsAmong (withComplements degrees))
    (connective : Connective) :
    (connective.truth left right).IsAmong (withComplements degrees) := by
  cases connective with
  | and => exact leftAmong.min rightAmong
  | or => exact leftAmong.max rightAmong
  | xor =>
      exact (leftAmong.complement.min rightAmong).max
        (leftAmong.min rightAmong.complement)

end IsAmong

end Degree

/-- The degrees of the constants in a formula. -/
def Formula.constants : Formula → List Degree
  | .atom symbol => symbol.constant?.toList
  | .neg operand => operand.constants
  | .binary _ left right => left.constants ++ right.constants

namespace Agent

theorem justify_congr {left right : FactSet}
    (same : ∀ fact : Formula, fact.constant? = none →
      left.membership fact = right.membership fact) (formula : Formula) :
    justify left formula = justify right formula := by
  induction formula with
  | atom symbol =>
      unfold justify
      cases known : (Formula.atom symbol).constant? with
      | some degree => rfl
      | none => simp only [same _ known]
  | neg operand ih =>
      unfold justify
      simp only [same (.neg operand) rfl, ih]
  | binary connective first second firstIh secondIh =>
      unfold justify
      simp only [same (.binary connective first second) rfl, firstIh, secondIh]

theorem membership_le_justify (facts : FactSet) {fact : Formula}
    (nonconstant : fact.constant? = none) :
    facts.membership fact ≤ justify facts fact := by
  unfold justify
  simp only [nonconstant]
  cases vanishing : (facts.membership fact).isZero with
  | true =>
      rw [Degree.le_iff, Degree.isZero_iff.mp vanishing]
      exact Nat.zero_le _
  | false => exact Nat.le_refl _

section

variable {facts : FactSet} {degrees : List Degree}
  (zeroAmong : Degree.zero ∈ degrees)
  (membersAmong : ∀ fact : Formula, fact.constant? = none →
    (facts.membership fact).IsAmong (Degree.withComplements degrees))

include zeroAmong membersAmong

theorem isAmong_justify {formula : Formula}
    (constantsAmong : formula.constants ⊆ degrees) :
    (justify facts formula).IsAmong (Degree.withComplements degrees) := by
  have unsupported := Degree.isAmong_withComplements zeroAmong
  induction formula with
  | atom symbol =>
      unfold justify
      cases known : (Formula.atom symbol).constant? with
      | some degree =>
          apply Degree.isAmong_withComplements
          apply constantsAmong
          simpa [Formula.constants, Formula.constant?] using known
      | none =>
          simp only
          split
          · exact membersAmong _ known
          · split
            · exact unsupported
            · exact unsupported
  | neg operand ih =>
      unfold justify
      simp only [Formula.constant?]
      split
      · exact membersAmong _ rfl
      · split
        · exact unsupported
        · exact (ih constantsAmong).complement
  | binary connective first second firstIh secondIh =>
      unfold justify
      simp only [Formula.constant?]
      split
      · exact membersAmong _ rfl
      · split
        · exact unsupported
        · have firstAmong := firstIh fun _ member =>
            constantsAmong (List.mem_append_left _ member)
          have secondAmong := secondIh fun _ member =>
            constantsAmong (List.mem_append_right _ member)
          exact firstAmong.connective secondAmong connective

end

end Agent

end Possibilistic
