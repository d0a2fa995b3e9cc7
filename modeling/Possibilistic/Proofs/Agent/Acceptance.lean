import Possibilistic.Proofs.Agent.Candidates
import Possibilistic.Proofs.Agent.Desires
import Possibilistic.Proofs.Agent.Interruption
import Possibilistic.Proofs.Agent.Rebuilding

/-!
# What the check accepts

A program is checked before an agent is built from it.  The check looks at
degrees, facts, rules and the vocabulary in its own way; still, what it accepts
is accepted wherever the agent looks at it.  So an agent is built from a checked
program, unless strict deliberation does not settle.
-/

namespace Possibilistic

/-- Degrees for the worlds are accepted in place of the old ones. -/
theorem Distribution.withDegrees_eq_mapWorlds (distribution : Distribution)
    (weight : Interpretation → Degree) :
    distribution.withDegrees
        (distribution.worlds.map fun world =>
          .number (weight world).toBinary64) =
      .ok (distribution.mapWorlds weight) := by
  have accepted : ∀ worlds : List Interpretation,
      (worlds.map fun world => Datum.number (weight world).toBinary64).mapM
        Datum.asDegree = .ok (worlds.map weight) := by
    intro worlds
    induction worlds with
    | nil => rfl
    | cons world rest ih =>
        rw [List.map_cons, List.mapM_cons, ih,
          Datum.asDegree_number (Degree.ofBinary64?_toBinary64 _)]
        rfl
  have sameCount : distribution.worlds.length =
      World.count distribution.atoms := by
    simp [worlds, World.all, World.firstWorlds]
  have sameLength : (distribution.worlds.map weight).length =
      World.count distribution.atoms :=
    (distribution.mapWorlds weight).length_eq
  simp only [withDegrees, ofDegrees, List.length_map, sameCount, ne_eq,
    not_true_eq_false, if_false, accepted]
  change (if length_eq : _ then _ else _) = _
  rw [dif_pos sameLength]
  rfl

namespace Program

/-- A degree with which nothing is wrong is accepted. -/
theorem exists_asDegree_of_degreeErrors {place : String} {offered : Datum}
    (proper : degreeErrors place offered = .ok []) :
    ∃ degree, offered.asDegree = .ok degree := by
  cases offered with
  | truth value =>
      cases value with
      | true => exact ⟨Degree.one, rfl⟩
      | false => exact ⟨Degree.zero, rfl⟩
  | integer value =>
      have inRange : 0 ≤ value ∧ value ≤ 1 := by
        simp only [degreeErrors] at proper
        split at proper
        · cases proper
        · split at proper
          · assumption
          · cases proper
      have isTruth : value = 0 ∨ value = 1 := by omega
      have accepted : (Datum.integer value).asDegree.isOk = true := by
        rcases isTruth with isZero | isOne
        · rw [isZero]
          decide +kernel
        · rw [isOne]
          decide +kernel
      exact exists_of_isOk accepted
  | number value =>
      simp only [degreeErrors, Except.ok.injEq] at proper
      split at proper
      · rename_i inRange
        obtain ⟨fromZero, toOne⟩ := Bool.and_eq_true_iff.mp inRange
        obtain ⟨degree, found⟩ :=
          Degree.exists_ofBinary64?_eq_some fromZero toOne
        exact ⟨degree, Datum.asDegree_number found⟩
      · cases proper
  | _ => cases proper

theorem exists_asFact_of_factErrors {place : String} {offered : Datum}
    (proper : factErrors place offered = []) :
    ∃ fact, offered.asFact = .ok fact := by
  cases offered with
  | fact value => exact ⟨value, rfl⟩
  | formula value => exact ⟨value, rfl⟩
  | _ => cases proper

/-- A pair with which nothing is wrong is accepted as a fact with a degree. -/
theorem exists_grades_of_pairErrors {place : String} {offered : Datum}
    (proper : pairErrors place offered = .ok []) :
    ∃ graded, offered.Grades graded := by
  simp only [pairErrors] at proper
  cases paired : offered.asPair with
  | error fault =>
      rw [paired] at proper
      cases proper
  | ok parts =>
      obtain ⟨fact, degree⟩ := parts
      rw [paired] at proper
      obtain ⟨errors, degreeChecked, together⟩ :=
        exists_of_bind_eq_ok proper
      obtain ⟨factProper, degreeProper⟩ :=
        List.append_eq_nil_iff.mp (Except.ok.inj together)
      rw [degreeProper] at degreeChecked
      obtain ⟨formula, isFact⟩ := exists_asFact_of_factErrors factProper
      obtain ⟨value, isDegree⟩ := exists_asDegree_of_degreeErrors degreeChecked
      exact ⟨(formula, value), fact, degree, paired, isFact, isDegree⟩

/-- The numbers of the entries only serve the messages. -/
theorem exists_grades_of_numbered {part : String} {offered : List Datum}
    {start : Nat} {errors : List (List String)}
    (checked : ((offered.zipIdx start).mapM fun (pair, number) =>
      pairErrors (place part number) pair) = .ok errors)
    (proper : errors.flatten = []) :
    ∃ graded, List.Forall₂ Datum.Grades offered graded := by
  induction offered generalizing start errors with
  | nil => exact ⟨[], .nil⟩
  | cons datum rest ih =>
      rw [List.zipIdx_cons, List.mapM_cons] at checked
      obtain ⟨here, firstChecked, others⟩ :=
        exists_of_bind_eq_ok checked
      obtain ⟨later, restChecked, together⟩ :=
        exists_of_bind_eq_ok others
      cases together
      obtain ⟨firstProper, restProper⟩ := List.append_eq_nil_iff.mp proper
      rw [firstProper] at firstChecked
      obtain ⟨graded, isGraded⟩ := exists_grades_of_pairErrors firstChecked
      obtain ⟨others, areGraded⟩ := ih restChecked restProper
      exact ⟨graded :: others, .cons isGraded areGraded⟩

theorem exists_grades_of_pairsErrors {part : String} {offered : List Datum}
    (proper : pairsErrors part offered = .ok []) :
    ∃ graded, List.Forall₂ Datum.Grades offered graded := by
  obtain ⟨errors, checked, flat⟩ := exists_of_bind_eq_ok proper
  exact exists_grades_of_numbered checked (Except.ok.inj flat)

/-- Entries with which nothing is wrong are rules. -/
theorem exists_ofData_of_rulesErrors {part : String} {offered : List Datum}
    (proper : rulesErrors part offered = []) :
    ∃ rules, RuleBase.ofData offered = .ok rules ∧
      ∀ rule, rule ∈ rules.rules ↔ .rule rule ∈ offered := by
  have areRules : ∀ datum ∈ offered, ∃ rule, datum = .rule rule := by
    intro datum member
    have properRule := rulesErrors_eq_nil_iff.mp proper datum member
    cases datum with
    | rule value => exact ⟨value, rfl⟩
    | _ => cases properRule
  obtain ⟨rules, accepted, members⟩ :=
    RuleBase.exists_addAll_eq_ok areRules RuleBase.empty
  refine ⟨rules, accepted, ?_⟩
  intro rule
  rw [members]
  simp [RuleBase.empty]

/-- A vocabulary that is not too large for the check is none for the utility. -/
theorem length_consequentAtoms_le {settings : Settings} {offered : List Datum}
    {rules : RuleBase}
    (members : ∀ rule, rule ∈ rules.rules ↔ .rule rule ∈ offered)
    (proper : vocabularyErrors settings offered = []) :
    (rules.consequentAtoms.length : Int) ≤
      settings.logic.maxDistributionAtoms := by
  have sameVocabulary : rules.consequentAtoms =
      Atom.vocabulary (offered.flatMap consequentMentions) := by
    apply Atom.eq_of_ascending (Atom.ascending_vocabulary _)
      (Atom.ascending_vocabulary _)
    intro atom
    simp only [Atom.mem_vocabulary, List.mem_flatMap]
    constructor
    · rintro ⟨rule, member, mentioned⟩
      exact ⟨.rule rule, (members rule).mp member, mentioned⟩
    · rintro ⟨datum, member, mentioned⟩
      cases datum with
      | rule value => exact ⟨value, (members value).mpr member, mentioned⟩
      | _ => cases mentioned
  simp only [vocabularyErrors, ← sameVocabulary] at proper
  split at proper
  · cases proper
  · omega

/-- A program that passes the check has an agent, and the desires fit a
utility. -/
theorem exists_agent_of_validate {program : Program} {settings : Settings}
    (valid : program.validate settings = .ok ()) (name : String)
    (counted : Bool) :
    ∃ start, program.agent name settings counted = .ok start ∧
      start.settings = settings ∧
      (start.desireRules.consequentAtoms.length : Int) ≤
        settings.logic.maxDistributionAtoms := by
  obtain ⟨errors, found, noErrors⟩ := exists_of_bind_eq_ok valid
  have none : errors = [] := by
    split at noErrors
    · rename_i isEmpty
      exact List.isEmpty_iff.mp isEmpty
    · cases noErrors
  obtain ⟨knowledgeErrors, knowledgeChecked, rest⟩ :=
    exists_of_bind_eq_ok found
  obtain ⟨beliefErrors, beliefsChecked, together⟩ :=
    exists_of_bind_eq_ok rest
  have allProper := (Except.ok.inj together).trans none
  simp only [List.append_eq_nil_iff] at allProper
  obtain ⟨⟨⟨⟨knowledgeProper, beliefsProper⟩, desiresProper⟩, dutiesProper⟩,
    vocabularyProper⟩ := allProper
  rw [knowledgeProper] at knowledgeChecked
  rw [beliefsProper] at beliefsChecked
  obtain ⟨known, knownGraded⟩ := exists_grades_of_pairsErrors knowledgeChecked
  obtain ⟨believed, believedGraded⟩ :=
    exists_grades_of_pairsErrors beliefsChecked
  obtain ⟨desireRules, desired, members⟩ :=
    exists_ofData_of_rulesErrors desiresProper
  obtain ⟨obligationRules, obliged, _⟩ :=
    exists_ofData_of_rulesErrors dutiesProper
  exact ⟨_, agent_eq_ok (FactSet.ofPairs_of_grades knownGraded)
    (FactSet.ofPairs_of_grades believedGraded) desired obliged _ _ _, rfl,
    length_consequentAtoms_le members vocabularyProper⟩

end Program

namespace Agent

open Deliberation

/-- The checks that deliberation makes on what it computes itself: degrees for
the worlds of the utility, and the cubes of a level in every round of
merging. -/
structure PassesOwnChecks (agent : Agent) : Prop where
  degrees : ∀ weight : Interpretation → Degree,
    agent.utility.withDegrees
        (agent.utility.worlds.map fun world =>
          .number (weight world).toBinary64) =
      .ok (agent.utility.mapWorlds weight)
  cubes : ∀ (level : Degree) (round : Nat),
    let current := Cube.merged^[round]
      (Cube.distinct ((agent.reaching level).map Cube.ofInterpretation))
    ∀ left ∈ current, ∀ right ∈ current,
      left.combine right = .ok (left.merge? right)

theorem passesOwnChecks {agent : Agent} (vocabulary : HasVocabulary agent) :
    PassesOwnChecks agent where
  degrees := agent.utility.withDegrees_eq_mapWorlds
  cubes := by
    intro level round current left leftMember right rightMember
    have isOver := Cube.over_iterate_merged (Cube.over_distinct
      (Cube.over_ofInterpretation vocabulary.ascending
        (agent.reaching_subset level))) round
    have sameAtoms : left.atoms = right.atoms :=
      (isOver left leftMember).trans (isOver right rightMember).symm
    simp only [Cube.combine, sameAtoms, ne_eq, not_true_eq_false, if_false]

/-- An agent is built from every program that passes the check; only strict
deliberation that does not settle can prevent it. -/
theorem checked_program_builds {program : Program} {settings : Settings}
    (valid : program.validate settings = .ok ()) (name : String)
    (counted : Bool) :
    (∀ place offered, Program.degreeErrors place offered = .ok [] →
      ∃ degree, offered.asDegree = .ok degree) ∧
    load name program settings counted =
      create name program settings counted ∧
    (∃ start, program.agent name settings counted = .ok start ∧
      let atoms := start.desireRules.consequentAtoms
      let blank := Distribution.constant atoms Degree.zero
      Distribution.uniform settings.logic.maxDistributionAtoms atoms
        Degree.zero = .ok blank ∧
      ∀ passes, PassesOwnChecks
        { start with utility := start.improved^[passes] blank }) ∧
    ((∃ agent, (create name program settings counted).value = .ok agent) ∨
      settings.deliberation.strictConvergence = true ∧
        ∃ phase, (create name program settings counted).value =
          .error (.notSettled phase (settings.passLimit phase))) := by
  obtain ⟨start, complete, sameSettings, withinLimit⟩ :=
    Program.exists_agent_of_validate valid name counted
  refine ⟨fun place offered => Program.exists_asDegree_of_degreeErrors,
    by simp only [load, valid], ⟨start, complete,
      uniform_consequentAtoms withinLimit Degree.zero, ?_⟩, ?_⟩
  · intro passes
    apply passesOwnChecks
    rw [HasVocabulary, atoms_iterate_improved]
    exact isVocabulary_consequentAtoms start.desireRules
  · rw [value_create_of_agent complete]
    cases outcome : (deliberate.runOn start).value with
    | mk result left =>
        cases result with
        | ok _ => exact .inl ⟨left, rfl⟩
        | error fault =>
            rcases value_deliberate_eq_error_iff.mp outcome with
              ⟨tooMany, _⟩ | ⟨strict, phase, reason, _⟩
            · rw [sameSettings, uniform_consequentAtoms withinLimit] at tooMany
              cases tooMany
            · rw [sameSettings] at strict reason
              rw [reason]
              exact .inr ⟨strict, phase, rfl⟩

/-- Degrees of every kind that the check accepts: a truth value, an integer, and
a number. -/
theorem checked_program_builds_walk :
    let sun : Formula := .atom ⟨"sun"⟩
    let walk : Formula := .atom ⟨"walk"⟩
    let program : Program :=
      { knowledge := [.tuple [.fact sun, .truth true]]
        beliefs :=
          [.list [.formula sun, .integer 1],
            .tuple [.fact walk, .number Degree.half.toBinary64]]
        desireRules := [.rule { consequent := walk, belief := sun }]
        obligationRules := [.rule { consequent := walk, desire := walk }] }
    program.validate Settings.standard = .ok () ∧
      ∃ agent, (load "walker" program Settings.standard true).value =
        .ok agent := by
  intro sun walk program
  have accepted : (program.validate Settings.standard).isOk = true := by
    decide +kernel
  obtain ⟨_, valid⟩ := exists_of_isOk accepted
  obtain ⟨_, sameOutcome, _, built⟩ := checked_program_builds valid "walker" true
  refine ⟨valid, ?_⟩
  rw [sameOutcome]
  rcases built with built | ⟨strict, _⟩
  · exact built
  · cases strict

end Agent

end Possibilistic
