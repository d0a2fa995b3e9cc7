import Possibilistic.Proofs.Agent.Calls

/-!
# The states of an agent

An agent is built, and then its calls and the phases of its deliberation change
it, also when they fail on the way.  What every single change keeps holds in all
these states.  In this way the vocabulary of the utility stays that of some
formulas.
-/

namespace Possibilistic

namespace Agent

open Deliberation

/-- The agent is built from a program and comes through calls and phases of
deliberation, whatever their outcome. -/
inductive Visited : Agent → Prop where
  | created {name : String} {program : Program} {settings : Settings}
      {counted : Bool} {agent : Agent} :
      (create name program settings counted).value = .ok agent →
      Visited agent
  | called {agent : Agent} (call : Call) :
      Visited agent → Visited (call.course.runOn agent).value.2
  | desired {agent : Agent} :
      Visited agent → Visited (updateDesires.runOn agent).value.2
  | obliged {agent : Agent} :
      Visited agent → Visited (updateObligations.runOn agent).value.2
  | elected {agent : Agent} :
      Visited agent → Visited (updateGoals.runOn agent).value.2

/-- Whatever the outcome of the course, the agent keeps the property. -/
def Keeps {α : Type} (property : Agent → Prop) (course : Deliberation α) :
    Prop :=
  ∀ agent, property agent → property (course.runOn agent).value.2

namespace Keeps

variable {α β : Type} {property : Agent → Prop}

theorem bind {course : Deliberation α} {next : α → Deliberation β}
    (first : Keeps property course)
    (rest : ∀ value, Keeps property (next value)) :
    Keeps property (course >>= next) := by
  intro agent holds
  have after := first agent holds
  rw [runOn_bind, Inquiry.value_bind]
  cases outcome : (course.runOn agent).value with
  | mk result left =>
      rw [outcome] at after
      cases result with
      | ok value => exact rest value left after
      | error fault => exact after

end Keeps

/-- The vocabulary of the utility is in order and has no constants. -/
def HasVocabulary (agent : Agent) : Prop :=
  Atom.IsVocabulary agent.utility.atoms

theorem isVocabulary_consequentAtoms (rules : RuleBase) :
    Atom.IsVocabulary rules.consequentAtoms where
  ascending := Atom.ascending_vocabulary _
  nonconstant := by
    intro atom member
    obtain ⟨rule, _, mentioned⟩ :=
      List.mem_flatMap.mp (Atom.mem_vocabulary.mp member)
    exact Formula.constant?_of_mem_mentions mentioned

theorem atoms_settledUtility (agent : Agent) (start : Distribution) :
    (agent.settledUtility start).2.atoms = start.atoms :=
  @stabilize_keeps Distribution (fun utility => utility.atoms = start.atoms)
    agent.improved _ (fun _ same => same) _ start rfl

theorem hasVocabulary_of_uniform {agent : Agent} {start : Distribution}
    (uniform : Distribution.uniform agent.settings.logic.maxDistributionAtoms
      agent.desireRules.consequentAtoms Degree.zero = .ok start) :
    HasVocabulary { agent with utility := (agent.settledUtility start).2 } := by
  have known := isVocabulary_consequentAtoms agent.desireRules
  have startAtoms : start.atoms = agent.desireRules.consequentAtoms := by
    simp only [Distribution.uniform, Distribution.vocabularyWithin] at uniform
    split at uniform
    · cases uniform
    · cases uniform
      exact Atom.vocabulary_of_ascending known.ascending
  rw [HasVocabulary, atoms_settledUtility, startAtoms]
  exact known

theorem keeps_hasVocabulary_updateDesires :
    Keeps HasVocabulary updateDesires := by
  intro agent holds
  rw [value_updateDesires]
  cases uniform : Distribution.uniform agent.settings.logic.maxDistributionAtoms
      agent.desireRules.consequentAtoms Degree.zero with
  | error fault => exact holds
  | ok start => exact hasVocabulary_of_uniform uniform

theorem keeps_hasVocabulary_updateObligations :
    Keeps HasVocabulary updateObligations := by
  intro agent holds
  rw [value_updateObligations]
  exact holds

theorem keeps_hasVocabulary_updateGoals :
    Keeps HasVocabulary updateGoals := by
  intro agent holds
  rw [value_updateGoals]
  exact holds

theorem keeps_hasVocabulary_deliberate : Keeps HasVocabulary deliberate :=
  keeps_hasVocabulary_updateDesires.bind fun _ =>
    keeps_hasVocabulary_updateObligations.bind fun _ =>
      keeps_hasVocabulary_updateGoals

theorem keeps_hasVocabulary_call (call : Call) :
    Keeps HasVocabulary call.course := by
  intro agent holds
  rw [value_course]
  cases preparation : call.prepare agent with
  | mk outcome left =>
      have kept := congrArg utility (prepare_changes preparation)
      have prepared : HasVocabulary left := by
        rw [HasVocabulary, kept]
        exact holds
      cases outcome with
      | error fault => exact prepared
      | ok _ => exact keeps_hasVocabulary_deliberate left prepared

/-- In every state the utility is over the vocabulary of some formulas. -/
theorem hasVocabulary_of_visited {agent : Agent} (visited : Visited agent) :
    HasVocabulary agent := by
  induction visited with
  | created built =>
      obtain ⟨start, _, success⟩ := exists_deliberate_of_created built
      obtain ⟨desirous, desired, _, conclusion⟩ :=
        value_deliberate_eq_ok_iff.mp success
      obtain ⟨first, uniform, _, shape⟩ :=
        value_updateDesires_eq_ok_iff.mp desired
      have known := hasVocabulary_of_uniform uniform
      rw [conclusion]
      rw [← shape] at known
      exact known
  | called call _ ih => exact keeps_hasVocabulary_call call _ ih
  | desired _ ih => exact keeps_hasVocabulary_updateDesires _ ih
  | obliged _ ih => exact keeps_hasVocabulary_updateObligations _ ih
  | elected _ ih => exact keeps_hasVocabulary_updateGoals _ ih

end Agent

end Possibilistic
