import Mathlib.Data.List.Enum
import Possibilistic.Agent.Program
import Possibilistic.Proofs.Atom.Vocabulary

/-!
# Checked programs

Checking an entry finds the same to be wrong wherever the entry stands; only the
messages tell the place.  So whether anything is wrong with a program does not
depend on the order of its entries.
-/

namespace Possibilistic

/-- The datum is accepted as a fact with a degree. -/
def Datum.Grades (offered : Datum) (graded : Formula × Degree) : Prop :=
  ∃ fact degree, offered.asPair = .ok (fact, degree) ∧
    fact.asFact = .ok graded.1 ∧ degree.asDegree = .ok graded.2

namespace Program

theorem exists_degreeErrors_eq_ok {offered : Datum} {degree : Degree}
    (accepted : offered.asDegree = .ok degree) (place : String) :
    ∃ errors, degreeErrors place offered = .ok errors := by
  cases offered with
  | integer value =>
      simp only [Datum.asDegree] at accepted
      simp only [degreeErrors]
      cases nearest : Binary64.ofInt? value with
      | none =>
          rw [nearest] at accepted
          cases accepted
      | some number => exact ⟨_, rfl⟩
  | _ => exact ⟨_, rfl⟩

theorem degreeErrors_eq_nil_iff {offered : Datum} (place other : String) :
    degreeErrors place offered = .ok [] ↔
      degreeErrors other offered = .ok [] := by
  cases offered with
  | integer value =>
      simp only [degreeErrors]
      cases Binary64.ofInt? value with
      | none => exact Iff.rfl
      | some number =>
          simp only [Except.ok.injEq]
          split <;> simp
  | number value =>
      simp only [degreeErrors, Except.ok.injEq]
      split <;> simp
  | truth value => rfl
  | _ => simp [degreeErrors]

theorem factErrors_eq_nil_iff {offered : Datum} (place other : String) :
    factErrors place offered = [] ↔ factErrors other offered = [] := by
  cases offered with
  | fact value => rfl
  | formula value => rfl
  | _ => simp [factErrors]

theorem ruleErrors_eq_nil_iff {offered : Datum} (place other : String) :
    ruleErrors place offered = [] ↔ ruleErrors other offered = [] := by
  cases offered with
  | rule value =>
      simp only [ruleErrors]
      split <;> simp
  | _ => simp [ruleErrors]

/-- Nothing is wrong with an offered pair. -/
def IsProperPair (offered : Datum) : Prop :=
  pairErrors "" offered = .ok []

/-- Nothing is wrong with an offered rule. -/
def IsProperRule (offered : Datum) : Prop :=
  ruleErrors "" offered = []

/-- Checking an accepted pair lists what is wrong with it. -/
theorem exists_pairErrors_eq_ok {offered : Datum} {graded : Formula × Degree}
    (accepted : offered.Grades graded) (place : String) :
    ∃ errors, pairErrors place offered = .ok errors ∧
      (errors = [] ↔ IsProperPair offered) := by
  obtain ⟨fact, degree, paired, _, isDegree⟩ := accepted
  obtain ⟨here, hereErrors⟩ := exists_degreeErrors_eq_ok isDegree place
  obtain ⟨nowhere, nowhereErrors⟩ := exists_degreeErrors_eq_ok isDegree ""
  have samePlace := @degreeErrors_eq_nil_iff degree place ""
  rw [hereErrors, nowhereErrors] at samePlace
  simp only [Except.ok.injEq] at samePlace
  refine ⟨factErrors place fact ++ here, ?_, ?_⟩
  · simp only [pairErrors, paired, hereErrors]
    rfl
  · simp only [IsProperPair, pairErrors, paired, nowhereErrors]
    change _ ↔ Except.ok (factErrors "" fact ++ nowhere) = Except.ok []
    simp only [Except.ok.injEq, List.append_eq_nil_iff, samePlace,
      factErrors_eq_nil_iff place ""]

theorem exists_numbered_pairErrors_eq_ok {offered : List Datum}
    {graded : List (Formula × Degree)}
    (accepted : List.Forall₂ Datum.Grades offered graded) (part : String)
    (start : Nat) :
    ∃ errors : List (List String),
      ((offered.zipIdx start).mapM fun (pair, number) =>
        pairErrors (place part number) pair) = .ok errors ∧
      (errors.flatten = [] ↔ ∀ datum ∈ offered, IsProperPair datum) := by
  induction accepted generalizing start with
  | nil => exact ⟨[], rfl, by simp⟩
  | cons isGraded _ ih =>
      obtain ⟨errors, found, proper⟩ :=
        exists_pairErrors_eq_ok isGraded (place part start)
      obtain ⟨others, foundOthers, properOthers⟩ := ih (start + 1)
      refine ⟨errors :: others, ?_, ?_⟩
      · rw [List.zipIdx_cons, List.mapM_cons, foundOthers]
        simp only [found]
        rfl
      · rw [List.flatten_cons, List.append_eq_nil_iff, proper, properOthers,
          List.forall_mem_cons]

theorem exists_pairsErrors_eq_ok {offered : List Datum}
    {graded : List (Formula × Degree)}
    (accepted : List.Forall₂ Datum.Grades offered graded) (part : String) :
    ∃ errors, pairsErrors part offered = .ok errors ∧
      (errors = [] ↔ ∀ datum ∈ offered, IsProperPair datum) := by
  obtain ⟨errors, found, proper⟩ :=
    exists_numbered_pairErrors_eq_ok accepted part 0
  refine ⟨errors.flatten, ?_, proper⟩
  simp only [pairsErrors, found]
  rfl

theorem numbered_ruleErrors_eq_nil_iff {part : String} {offered : List Datum}
    (start : Nat) :
    ((offered.zipIdx start).flatMap fun (rule, number) =>
      ruleErrors (place part number) rule) = [] ↔
        ∀ datum ∈ offered, IsProperRule datum := by
  induction offered generalizing start with
  | nil => simp
  | cons datum rest ih =>
      rw [List.zipIdx_cons, List.flatMap_cons, List.append_eq_nil_iff, ih,
        List.forall_mem_cons]
      exact and_congr_left fun _ => ruleErrors_eq_nil_iff _ ""

theorem rulesErrors_eq_nil_iff {part : String} {offered : List Datum} :
    rulesErrors part offered = [] ↔ ∀ datum ∈ offered, IsProperRule datum :=
  numbered_ruleErrors_eq_nil_iff 0

theorem vocabularyErrors_congr {settings : Settings}
    {left right : List Datum} (same : ∀ datum, datum ∈ left ↔ datum ∈ right) :
    vocabularyErrors settings left = vocabularyErrors settings right := by
  have vocabularies : Atom.vocabulary (left.flatMap consequentMentions) =
      Atom.vocabulary (right.flatMap consequentMentions) := by
    apply Atom.eq_of_ascending (Atom.ascending_vocabulary _)
      (Atom.ascending_vocabulary _)
    intro atom
    simp only [Atom.mem_vocabulary, List.mem_flatMap, same]
  simp only [vocabularyErrors, vocabularies]

/-- Nothing is wrong with any entry of a program, nor with the size of its
vocabulary. -/
def IsProper (program : Program) (settings : Settings) : Prop :=
  ((∀ datum ∈ program.knowledge, IsProperPair datum) ∧
      ∀ datum ∈ program.beliefs, IsProperPair datum) ∧
    ((∀ datum ∈ program.desireRules, IsProperRule datum) ∧
      ∀ datum ∈ program.obligationRules, IsProperRule datum) ∧
    vocabularyErrors settings program.desireRules = []

/-- A program whose pairs are accepted passes the check or is refused with a
list of what is wrong. -/
theorem validate_of_accepted {program : Program}
    {knowledge beliefs : List (Formula × Degree)}
    (known : List.Forall₂ Datum.Grades program.knowledge knowledge)
    (believed : List.Forall₂ Datum.Grades program.beliefs beliefs)
    (settings : Settings) :
    (program.IsProper settings ∧ program.validate settings = .ok ()) ∨
      ¬program.IsProper settings ∧
        ∃ errors, program.validate settings = .error (.invalidProgram errors) := by
  obtain ⟨knowledgeErrors, foundKnowledge, properKnowledge⟩ :=
    exists_pairsErrors_eq_ok known "knowledge"
  obtain ⟨beliefErrors, foundBeliefs, properBeliefs⟩ :=
    exists_pairsErrors_eq_ok believed "beliefs"
  let errors := knowledgeErrors ++ beliefErrors ++
    rulesErrors "desires" program.desireRules ++
    rulesErrors "obligations" program.obligationRules ++
    vocabularyErrors settings program.desireRules
  have found : program.errors settings = .ok errors := by
    simp only [Program.errors, foundKnowledge, foundBeliefs]
    rfl
  have proper : errors = [] ↔ program.IsProper settings := by
    simp only [errors, List.append_eq_nil_iff, properKnowledge, properBeliefs,
      rulesErrors_eq_nil_iff, IsProper, and_assoc]
  have validated : program.validate settings =
      if errors.isEmpty then .ok () else .error (.invalidProgram errors) := by
    simp only [validate, found]
    rfl
  simp only [validated, ← proper, List.isEmpty_iff]
  by_cases none : errors = []
  · exact .inl ⟨none, if_pos none⟩
  · exact .inr ⟨none, errors, if_neg none⟩

end Program

end Possibilistic
