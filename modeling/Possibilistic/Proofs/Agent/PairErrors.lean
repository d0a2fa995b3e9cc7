import Mathlib.Data.List.Forall2
import Possibilistic.Agent.Program
import Possibilistic.Proofs.Binary64.Integers

/-!
# What is reported about offered pairs

The check of a number has comparisons of its own.  Still, it finds something to
be wrong exactly where the number is no degree, and then says so with the place
of the entry.  An integer out of range cannot be compared at all: it ends the
check of the whole list without a report.

Main statement: either a list has a pair graded by an integer out of range and
the check fails, or it reports on every entry, and on those that grade a fact
with a number as acceptance decides.
-/

namespace Possibilistic

-- Powers of natural numbers are those of the core library everywhere.
attribute [local instance (2000)] instPowNat

namespace Datum

/-- A truth value, an integer or a binary64 number. -/
def isNumber : Datum → Bool
  | .truth _ | .integer _ | .number _ => true
  | _ => false

/-- A formula, asserted or not. -/
def isFact : Datum → Bool
  | .fact _ | .formula _ => true
  | _ => false

/-- An integer that no binary64 number is near. -/
def IsOverlong (offered : Datum) : Prop :=
  ∃ value : Int, offered = .integer value ∧
    Binary64.integerLimit ≤ value.natAbs

/-- A pair whose degree is an integer out of range. -/
def GradesOverlong (offered : Datum) : Prop :=
  ∃ fact degree, offered.asPair = .ok (fact, degree) ∧ degree.IsOverlong

theorem asDegree_of_isOverlong {offered : Datum}
    (overlong : offered.IsOverlong) :
    offered.asDegree = .error .numberTooLarge := by
  obtain ⟨value, rfl, outOfRange⟩ := overlong
  simp only [asDegree, Binary64.ofInt?_eq_none_iff.mpr outOfRange]

/-- A condition that holds of the degrees decides whether a number is
accepted. -/
theorem asDegreeOf_cases {inRange : Prop} {number : Binary64}
    (decides : (∃ degree, Degree.ofBinary64? number = some degree) ↔ inRange)
    (offered : Datum) :
    (inRange ∧ ∃ degree, offered.asDegreeOf number = .ok degree) ∨
      ¬inRange ∧
        offered.asDegreeOf number =
          .error (.degreeOutOfRange offered none) := by
  cases known : Degree.ofBinary64? number with
  | none =>
      right
      refine ⟨?_, by simp only [asDegreeOf, known]⟩
      rw [← decides, known]
      exact nofun
  | some degree =>
      left
      exact ⟨decides.mp ⟨degree, known⟩, degree,
        by simp only [asDegreeOf, known]⟩

end Datum

namespace Program

/-- The report about a number that is no degree. -/
def outOfRange (place : String) (offered : Datum) : String :=
  place ++ ": degree " ++ offered.shown ++ " not in [0, 1]"

theorem degreeErrors_of_isOverlong {offered : Datum}
    (overlong : offered.IsOverlong) (place : String) :
    degreeErrors place offered = .error .numberTooLarge := by
  obtain ⟨value, rfl, outOfRange⟩ := overlong
  simp only [degreeErrors, Binary64.ofInt?_eq_none_iff.mpr outOfRange]

theorem exists_degreeErrors_of_not_isOverlong {offered : Datum}
    (inRange : ¬offered.IsOverlong) (place : String) :
    ∃ report, degreeErrors place offered = .ok report := by
  cases offered with
  | integer value =>
      cases near : Binary64.ofInt? value with
      | none =>
          exact absurd ⟨value, rfl, Binary64.ofInt?_eq_none_iff.mp near⟩
            inRange
      | some number =>
          simp only [degreeErrors, near]
          exact ⟨_, rfl⟩
  | _ => exact ⟨_, rfl⟩

/-- The check of a number decides as its acceptance does. -/
theorem degreeErrors_of_isNumber {offered : Datum}
    (numeric : offered.isNumber = true) {place : String}
    {report : List String}
    (checked : degreeErrors place offered = .ok report) :
    (report = [] ∧ ∃ degree, offered.asDegree = .ok degree) ∨
      report = [outOfRange place offered] ∧
        offered.asDegree = .error (.degreeOutOfRange offered none) := by
  cases offered with
  | truth value =>
      left
      refine ⟨(Except.ok.inj checked).symm, ?_⟩
      cases value with
      | true => exact ⟨_, rfl⟩
      | false => exact ⟨_, rfl⟩
  | integer value =>
      cases near : Binary64.ofInt? value with
      | none =>
          simp only [degreeErrors, near] at checked
          cases checked
      | some number =>
          simp only [degreeErrors, near, Except.ok.injEq] at checked
          simp only [Datum.asDegree, near]
          rcases Datum.asDegreeOf_cases
              (Degree.exists_ofBinary64?_ofInt?_iff near) (.integer value) with
            ⟨inRange, accepted⟩ | ⟨outside, refused⟩
          · rw [if_pos inRange] at checked
            exact .inl ⟨checked.symm, accepted⟩
          · rw [if_neg outside] at checked
            exact .inr ⟨checked.symm, refused⟩
  | number value =>
      simp only [degreeErrors, Except.ok.injEq] at checked
      rcases Datum.asDegreeOf_cases Degree.exists_ofBinary64?_eq_some_iff
          (.number value) with
        ⟨inRange, accepted⟩ | ⟨outside, refused⟩
      · rw [if_pos inRange] at checked
        exact .inl ⟨checked.symm, accepted⟩
      · rw [if_neg outside] at checked
        exact .inr ⟨checked.symm, refused⟩
  | _ => cases numeric

theorem factErrors_of_isFact {offered : Datum}
    (isFact : offered.isFact = true) (place : String) :
    factErrors place offered = [] := by
  cases offered with
  | fact value => rfl
  | formula value => rfl
  | _ => cases isFact

/-- The report on a numbered entry.  A fact graded with a number is reported
exactly when the number is refused as a degree. -/
structure IsReport (part : String) (entry : Datum × Nat)
    (report : List String) : Prop where
  checked : pairErrors (place part entry.2) entry.1 = .ok report
  judged : ∀ fact degree, entry.1.asPair = .ok (fact, degree) →
    fact.isFact = true → degree.isNumber = true →
      (report = [] ∧ ∃ accepted, degree.asDegree = .ok accepted) ∨
        report = [outOfRange (place part entry.2) degree] ∧
          degree.asDegree = .error (.degreeOutOfRange degree none)

theorem pairErrors_of_gradesOverlong {offered : Datum}
    (overlong : offered.GradesOverlong) (place : String) :
    pairErrors place offered = .error .numberTooLarge := by
  obtain ⟨fact, degree, paired, degreeOverlong⟩ := overlong
  simp only [pairErrors, paired,
    degreeErrors_of_isOverlong degreeOverlong place]
  rfl

theorem exists_isReport {offered : Datum}
    (inRange : ¬offered.GradesOverlong) (part : String) (number : Nat) :
    ∃ report, IsReport part (offered, number) report := by
  cases paired : offered.asPair with
  | error fault =>
      refine ⟨[place part number ++
        ": expected a (fact, degree) pair, got " ++ offered.shown], ?_, ?_⟩
      · simp only [pairErrors, paired]
      · intro fact degree isPair
        rw [paired] at isPair
        cases isPair
  | ok parts =>
      obtain ⟨fact, degree⟩ := parts
      obtain ⟨degreeReport, degreeChecked⟩ :=
        exists_degreeErrors_of_not_isOverlong
          (fun overlong => inRange ⟨fact, degree, paired, overlong⟩)
          (place part number)
      refine ⟨factErrors (place part number) fact ++ degreeReport, ?_, ?_⟩
      · simp only [pairErrors, paired, degreeChecked]
        rfl
      · intro otherFact otherDegree isPair isFact numeric
        rw [paired] at isPair
        cases isPair
        rw [factErrors_of_isFact isFact, List.nil_append]
        exact degreeErrors_of_isNumber numeric degreeChecked

/-- The entries are checked in turn, up to the first one out of range. -/
theorem numbered_pairs_reported_unless_overlong (part : String)
    (offered : List Datum) (start : Nat) :
    (((offered.zipIdx start).mapM fun (pair, number) =>
        pairErrors (place part number) pair) = .error .numberTooLarge ∧
      ∃ datum ∈ offered, datum.GradesOverlong) ∨
    (∀ datum ∈ offered, ¬datum.GradesOverlong) ∧
      ∃ reports,
        ((offered.zipIdx start).mapM fun (pair, number) =>
          pairErrors (place part number) pair) = .ok reports ∧
        List.Forall₂ (IsReport part) (offered.zipIdx start) reports := by
  induction offered generalizing start with
  | nil => exact .inr ⟨nofun, [], rfl, .nil⟩
  | cons datum rest ih =>
      rw [List.zipIdx_cons, List.mapM_cons]
      by_cases overlong : datum.GradesOverlong
      · left
        refine ⟨?_, datum, List.mem_cons_self, overlong⟩
        simp only [pairErrors_of_gradesOverlong overlong]
        rfl
      · obtain ⟨report, isReport⟩ := exists_isReport overlong part start
        simp only [isReport.checked]
        rcases ih (start + 1) with
          ⟨failed, later, member, laterOverlong⟩ |
          ⟨othersInRange, reports, reported, areReports⟩
        · left
          refine ⟨?_, later, List.mem_cons_of_mem _ member, laterOverlong⟩
          rw [failed]
          rfl
        · right
          refine ⟨List.forall_mem_cons.mpr ⟨overlong, othersInRange⟩,
            report :: reports, ?_, .cons isReport areReports⟩
          rw [reported]
          rfl

end Program

end Possibilistic
