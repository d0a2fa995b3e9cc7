import Mathlib.Data.List.Perm.Basic
import Mathlib.Tactic.Tauto
import Possibilistic.Proofs.Agent.Alike
import Possibilistic.Proofs.Agent.Validation
import Possibilistic.Proofs.Degree.Arithmetic

/-!
# The order of a program

A program lists facts and rules in some order.  Building an agent from the same
facts and rules in another order, or with rules repeated, gives an agent that is
alike, or the same refusal up to the messages about the single entries.
-/

namespace Possibilistic

theorem FactSet.tellPairs_cons {datum : Datum} {graded : Formula × Degree}
    (isGraded : datum.Grades graded) (facts : FactSet) (rest : List Datum) :
    facts.tellPairs (datum :: rest) =
      (facts.tell graded.1 graded.2).tellPairs rest := by
  obtain ⟨fact, degree, paired, isFact, isDegree⟩ := isGraded
  have told : facts.tellOffered fact degree =
      .ok (facts.tell graded.1 graded.2) := by
    simp only [tellOffered, isFact, isDegree]
    rfl
  simp only [tellPairs, paired]
  change (facts.tellOffered fact degree >>= _) = _
  rw [told]
  rfl

theorem FactSet.tellPairs_of_grades {offered : List Datum}
    {graded : List (Formula × Degree)}
    (accepted : List.Forall₂ Datum.Grades offered graded) (facts : FactSet) :
    facts.tellPairs offered =
      .ok (graded.foldl (fun told item => told.tell item.1 item.2) facts) := by
  induction accepted generalizing facts with
  | nil => rfl
  | cons isGraded _ ih => rw [tellPairs_cons isGraded, ih, List.foldl_cons]

theorem FactSet.ofPairs_of_grades {offered : List Datum}
    {graded : List (Formula × Degree)}
    (accepted : List.Forall₂ Datum.Grades offered graded) :
    ofPairs offered = .ok (FuzzySet.ofList graded) :=
  tellPairs_of_grades accepted FactSet.empty

theorem RuleBase.mem_rules_add {base : RuleBase} {rule other : Rule} :
    other ∈ (base.add rule).rules ↔ other = rule ∨ other ∈ base.rules := by
  rw [add]
  split
  · rename_i present
    constructor
    · exact .inr
    · rintro (same | member)
      · exact same ▸ present
      · exact member
  · rw [List.mem_append, List.mem_singleton, or_comm]

theorem RuleBase.exists_addAll_eq_ok {offered : List Datum}
    (areRules : ∀ datum ∈ offered, ∃ rule, datum = .rule rule)
    (base : RuleBase) :
    ∃ extended, base.addAll offered = .ok extended ∧
      ∀ rule, rule ∈ extended.rules ↔
        rule ∈ base.rules ∨ .rule rule ∈ offered := by
  induction offered generalizing base with
  | nil => exact ⟨base, rfl, by simp⟩
  | cons datum rest ih =>
      obtain ⟨isRule, restAreRules⟩ := List.forall_mem_cons.mp areRules
      obtain ⟨rule, equality⟩ := isRule
      obtain ⟨extended, found, members⟩ := ih restAreRules (base.add rule)
      refine ⟨extended, ?_, ?_⟩
      · rw [equality]
        exact found
      · intro other
        rw [members, mem_rules_add, equality, List.mem_cons,
          Datum.rule.injEq, or_assoc, or_left_comm]

namespace Program

/-- The data are accepted as facts with degrees, no fact twice. -/
def OffersFacts (offered : List Datum) : Prop :=
  ∃ graded, List.Forall₂ Datum.Grades offered graded ∧
    (graded.map Prod.fst).Nodup

/-- Facts with degrees, no fact twice, and rules. -/
structure WellFormed (program : Program) : Prop where
  knowledge : OffersFacts program.knowledge
  beliefs : OffersFacts program.beliefs
  desireRules : ∀ datum ∈ program.desireRules, ∃ rule, datum = .rule rule
  obligationRules :
    ∀ datum ∈ program.obligationRules, ∃ rule, datum = .rule rule

/-- The same facts and rules in another order, where rules may be repeated. -/
structure Rearranges (left right : Program) : Prop where
  knowledge : left.knowledge.Perm right.knowledge
  beliefs : left.beliefs.Perm right.beliefs
  desireRules : ∀ datum, datum ∈ left.desireRules ↔ datum ∈ right.desireRules
  obligationRules : ∀ datum,
    datum ∈ left.obligationRules ↔ datum ∈ right.obligationRules

theorem OffersFacts.of_perm {left right : List Datum}
    (offers : OffersFacts left) (perm : left.Perm right) :
    ∃ leftGraded rightGraded,
      List.Forall₂ Datum.Grades left leftGraded ∧
      List.Forall₂ Datum.Grades right rightGraded ∧
      leftGraded.Perm rightGraded ∧ (leftGraded.map Prod.fst).Nodup := by
  obtain ⟨graded, accepted, distinct⟩ := offers
  obtain ⟨others, alsoAccepted, reordered⟩ :=
    List.perm_comp_forall₂ perm.symm accepted
  exact ⟨graded, others, accepted, alsoAccepted, reordered.symm, distinct⟩

theorem OffersFacts.exists_ofPairs {left right : List Datum}
    (offers : OffersFacts left) (perm : left.Perm right) :
    ∃ leftFacts rightFacts, FactSet.ofPairs left = .ok leftFacts ∧
      FactSet.ofPairs right = .ok rightFacts ∧
      leftFacts.membership = rightFacts.membership := by
  obtain ⟨graded, others, accepted, alsoAccepted, reordered, distinct⟩ :=
    offers.of_perm perm
  exact ⟨_, _, FactSet.ofPairs_of_grades accepted,
    FactSet.ofPairs_of_grades alsoAccepted,
    FuzzySet.membership_ofList_of_perm reordered distinct⟩

theorem exists_ofData {left right : List Datum}
    (areRules : ∀ datum ∈ left, ∃ rule, datum = .rule rule)
    (same : ∀ datum, datum ∈ left ↔ datum ∈ right) :
    ∃ leftRules rightRules, RuleBase.ofData left = .ok leftRules ∧
      RuleBase.ofData right = .ok rightRules ∧
      ∀ rule, rule ∈ leftRules.rules ↔ rule ∈ rightRules.rules := by
  obtain ⟨leftRules, leftFound, leftMembers⟩ :=
    RuleBase.exists_addAll_eq_ok areRules RuleBase.empty
  obtain ⟨rightRules, rightFound, rightMembers⟩ :=
    RuleBase.exists_addAll_eq_ok
      (fun datum member => areRules datum ((same datum).mpr member))
      RuleBase.empty
  refine ⟨leftRules, rightRules, leftFound, rightFound, ?_⟩
  intro rule
  rw [leftMembers, rightMembers, same]

theorem agent_eq_ok {program : Program} {knowledge beliefs : FactSet}
    {desireRules obligationRules : RuleBase}
    (known : FactSet.ofPairs program.knowledge = .ok knowledge)
    (believed : FactSet.ofPairs program.beliefs = .ok beliefs)
    (desired : RuleBase.ofData program.desireRules = .ok desireRules)
    (obliged : RuleBase.ofData program.obligationRules = .ok obligationRules)
    (name : String) (settings : Settings) (counted : Bool) :
    program.agent name settings counted =
      .ok
        { name, settings, counted, knowledge, beliefs, desireRules
          obligationRules
          obligations := FactSet.empty
          utility := Distribution.constant [] Degree.zero
          goals := FactSet.empty } := by
  simp only [Program.agent, known, believed, desired, obliged]
  rfl

section

variable {left right : Program} (wellFormed : left.WellFormed)
  (rearranged : left.Rearranges right)

include wellFormed rearranged

theorem exists_alike_agents (name : String) (settings : Settings)
    (counted : Bool) :
    ∃ leftAgent rightAgent,
      left.agent name settings counted = .ok leftAgent ∧
      right.agent name settings counted = .ok rightAgent ∧
      Agent.Alike leftAgent rightAgent := by
  obtain ⟨leftKnowledge, rightKnowledge, leftKnown, rightKnown, sameKnowledge⟩ :=
    wellFormed.knowledge.exists_ofPairs rearranged.knowledge
  obtain ⟨leftBeliefs, rightBeliefs, leftBelieved, rightBelieved, sameBeliefs⟩ :=
    wellFormed.beliefs.exists_ofPairs rearranged.beliefs
  obtain ⟨leftDesires, rightDesires, leftDesired, rightDesired, sameDesires⟩ :=
    exists_ofData wellFormed.desireRules rearranged.desireRules
  obtain ⟨leftDuties, rightDuties, leftObliged, rightObliged, sameDuties⟩ :=
    exists_ofData wellFormed.obligationRules rearranged.obligationRules
  refine ⟨_, _,
    agent_eq_ok leftKnown leftBelieved leftDesired leftObliged _ _ _,
    agent_eq_ok rightKnown rightBelieved rightDesired rightObliged _ _ _, ?_⟩
  exact
    { settings := rfl
      knowledge := sameKnowledge
      beliefs := sameBeliefs
      desireRules := sameDesires
      obligationRules := sameDuties
      obligations := rfl
      utility := rfl
      goals := rfl }

/-- Both programs pass the check, or both are refused with lists of what is
wrong. -/
theorem validate_rearranged (settings : Settings) :
    (left.validate settings = .ok () ∧ right.validate settings = .ok ()) ∨
      ∃ errors others,
        left.validate settings = .error (.invalidProgram errors) ∧
        right.validate settings = .error (.invalidProgram others) := by
  obtain ⟨knowledge, otherKnowledge, known, alsoKnown, _, _⟩ :=
    wellFormed.knowledge.of_perm rearranged.knowledge
  obtain ⟨beliefs, otherBeliefs, believed, alsoBelieved, _, _⟩ :=
    wellFormed.beliefs.of_perm rearranged.beliefs
  have bothProper : left.IsProper settings ↔ right.IsProper settings := by
    simp only [IsProper, rearranged.knowledge.mem_iff,
      rearranged.beliefs.mem_iff, rearranged.desireRules,
      rearranged.obligationRules,
      vocabularyErrors_congr rearranged.desireRules]
  rcases validate_of_accepted known believed settings with
    ⟨leftProper, leftValid⟩ | ⟨leftImproper, errors, leftRefused⟩
  · rcases validate_of_accepted alsoKnown alsoBelieved settings with
      ⟨_, rightValid⟩ | ⟨rightImproper, _⟩
    · exact .inl ⟨leftValid, rightValid⟩
    · exact absurd (bothProper.mp leftProper) rightImproper
  · rcases validate_of_accepted alsoKnown alsoBelieved settings with
      ⟨rightProper, _⟩ | ⟨_, others, rightRefused⟩
    · exact absurd (bothProper.mpr rightProper) leftImproper
    · exact .inr ⟨errors, others, leftRefused, rightRefused⟩

end

end Program

namespace Agent

open Deliberation

/-- Both attempts build agents with equal utility, obligations and goals, or
both fail for the same reason; a refused program may be refused with other
messages. -/
inductive SameOutcome : Except Fault Agent → Except Fault Agent → Prop where
  | built {left right : Agent} :
      left.utility = right.utility →
      (left.obligations == right.obligations) = true →
      left.goals = right.goals →
      SameOutcome (.ok left) (.ok right)
  | failed (fault : Fault) : SameOutcome (.error fault) (.error fault)
  | refused (errors others : List String) :
      SameOutcome (.error (.invalidProgram errors))
        (.error (.invalidProgram others))

theorem sameOutcome_of_alike {left right : Agent} (alike : Alike left right) :
    SameOutcome
      ((deliberate.runOn left).value.1.map fun _ =>
        (deliberate.runOn left).value.2)
      ((deliberate.runOn right).value.1.map fun _ =>
        (deliberate.runOn right).value.2) := by
  obtain ⟨sameOutcome, stillAlike⟩ := keepsAlike_deliberate left right alike
  rw [sameOutcome]
  cases (deliberate.runOn right).value.1 with
  | error fault => exact .failed fault
  | ok _ =>
      exact .built stillAlike.utility
        (FuzzySet.beq_iff.mpr stillAlike.obligations) stillAlike.goals

/-- Whether an agent is built, and with which utility, obligations and goals,
does not depend on the order of its program nor on repeated rules; neither with
nor without a check of the program, and under every limit of iterations. -/
theorem building_ignores_order {left right : Program}
    (wellFormed : left.WellFormed) (rearranged : left.Rearranges right)
    (name : String) (settings : Settings) (counted : Bool) :
    SameOutcome (create name left settings counted).value
        (create name right settings counted).value ∧
      SameOutcome (load name left settings counted).value
        (load name right settings counted).value := by
  have created : SameOutcome (create name left settings counted).value
      (create name right settings counted).value := by
    obtain ⟨leftAgent, rightAgent, leftBuilt, rightBuilt, alike⟩ :=
      Program.exists_alike_agents wellFormed rearranged name settings counted
    simp only [create, leftBuilt, rightBuilt]
    exact sameOutcome_of_alike alike
  refine ⟨created, ?_⟩
  rcases Program.validate_rearranged wellFormed rearranged settings with
    ⟨leftValid, rightValid⟩ | ⟨errors, others, leftRefused, rightRefused⟩
  · simp only [load, leftValid, rightValid]
    exact created
  · simp only [load, leftRefused, rightRefused]
    exact .refused errors others

/-- One wants to walk as far as one believes in sun, and to read as far as one
believes in rain.  The walker may believe, and want, in either order. -/
theorem building_ignores_order_walk :
    let sun : Formula := .atom ⟨"sun"⟩
    let rain : Formula := .atom ⟨"rain"⟩
    let shines : Datum := .tuple [.fact sun, .truth true]
    let rains : Datum :=
      .tuple [.fact rain, .number Degree.half.toBinary64]
    let walk : Datum := .rule { consequent := .atom ⟨"walk"⟩, belief := sun }
    let read : Datum := .rule { consequent := .atom ⟨"read"⟩, belief := rain }
    let left : Program :=
      { beliefs := [shines, rains], desireRules := [walk, read] }
    let right : Program :=
      { beliefs := [rains, shines], desireRules := [read, walk, read] }
    left.WellFormed ∧ left.Rearranges right ∧
      (create "walker" left Settings.standard true).value.isOk = true ∧
      SameOutcome (create "walker" left Settings.standard true).value
        (create "walker" right Settings.standard true).value := by
  intro sun rain shines rains walk read left right
  have wellFormed : left.WellFormed :=
    { knowledge := ⟨[], .nil, List.nodup_nil⟩
      beliefs := by
        refine ⟨[(sun, Degree.one), (rain, Degree.half)], ?_, by decide⟩
        have halfAccepted : (Datum.number Degree.half.toBinary64).asDegree =
            .ok Degree.half := by
          simp only [Datum.asDegree, Datum.asDegreeOf,
            Degree.ofBinary64?_toBinary64]
        exact .cons ⟨_, _, rfl, rfl, rfl⟩
          (.cons ⟨_, _, rfl, rfl, halfAccepted⟩ .nil)
      desireRules := by simp [left, walk, read]
      obligationRules := nofun }
  have rearranged : left.Rearranges right :=
    { knowledge := .nil
      beliefs := .swap _ _ _
      desireRules := by
        intro datum
        simp only [left, right, List.mem_cons, List.not_mem_nil, or_false]
        tauto
      obligationRules := fun _ => Iff.rfl }
  have outcome := building_ignores_order wellFormed rearranged "walker"
    Settings.standard true
  exact ⟨wellFormed, rearranged, by decide +kernel, outcome.1⟩

end Agent

end Possibilistic
