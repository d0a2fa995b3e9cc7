import Possibilistic.Proofs.Agent.Order
import Possibilistic.Proofs.Agent.States

/-!
# Rebuilt agents

What an agent knows and believes and its rules are a program again, and an agent
may be built from that.  The calls that the agent has come through, and those
that failed on the way, leave nothing else behind: unless a desire asks for
obligations, the agent after a successful call is the agent that is built from
its own program.
-/

namespace Possibilistic

/-- Facts with their degrees as they are offered. -/
def FactSet.pairs (facts : FactSet) : List Datum :=
  facts.items.map fun (fact, degree) =>
    .tuple [.fact fact, .number degree.toBinary64]

theorem FactSet.ofPairs_pairs (facts : FactSet) :
    ofPairs facts.pairs = .ok facts := by
  have accepted : List.Forall₂ Datum.Grades facts.pairs facts.items := by
    apply List.forall₂_map_left_iff.mpr
    apply List.forall₂_same.mpr
    intro item _
    refine ⟨.fact item.1, .number item.2.toBinary64, rfl, rfl, ?_⟩
    simp only [Datum.asDegree, Datum.asDegreeOf,
      Degree.ofBinary64?_toBinary64]
  rw [ofPairs_of_grades accepted, FuzzySet.ofList_items]

/-- Rules as they are offered. -/
def RuleBase.data (base : RuleBase) : List Datum :=
  base.rules.map .rule

theorem RuleBase.addAll_of_rules_eq {base extended : RuleBase}
    {rules : List Rule} (appended : extended.rules = base.rules ++ rules) :
    base.addAll (rules.map .rule) = .ok extended := by
  induction rules generalizing base with
  | nil =>
      rw [List.append_nil] at appended
      cases base
      cases extended
      cases appended
      rfl
  | cons rule rest ih =>
      have distinct := extended.nodup
      rw [appended] at distinct
      have absent : rule ∉ base.rules := fun present =>
        (List.nodup_append.mp distinct).2.2 rule present rule
          List.mem_cons_self rfl
      apply ih
      rw [appended, add, dif_neg absent, List.append_assoc]
      rfl

theorem RuleBase.ofData_data (base : RuleBase) :
    ofData base.data = .ok base :=
  addAll_of_rules_eq rfl

namespace Agent

open Deliberation

/-- What an agent knows and believes and its rules, as they are offered. -/
def program (agent : Agent) : Program :=
  { knowledge := agent.knowledge.pairs
    beliefs := agent.beliefs.pairs
    desireRules := agent.desireRules.data
    obligationRules := agent.obligationRules.data }

theorem agent_program (agent : Agent) :
    agent.program.agent agent.name agent.settings agent.counted =
      .ok agent.undeliberated :=
  Program.agent_eq_ok agent.knowledge.ofPairs_pairs agent.beliefs.ofPairs_pairs
    agent.desireRules.ofData_data agent.obligationRules.ofData_data _ _ _

/-- Building an agent is a deliberation. -/
theorem value_create_of_agent {name : String} {program : Program}
    {settings : Settings} {counted : Bool} {start : Agent}
    (complete : program.agent name settings counted = .ok start) :
    (create name program settings counted).value =
      (deliberate.runOn start).value.1.map fun _ =>
        (deliberate.runOn start).value.2 := by
  simp only [create, complete]
  rfl

/-- What the calls of an agent leave alone. -/
structure Continues (earlier later : Agent) : Prop where
  name : later.name = earlier.name
  settings : later.settings = earlier.settings
  counted : later.counted = earlier.counted
  knowledge : later.knowledge = earlier.knowledge

theorem keeps_continues_call (origin : Agent) (call : Call) :
    Keeps origin.Continues call.course := by
  intro agent continues
  rw [value_course]
  cases preparation : call.prepare agent with
  | mk outcome prepared =>
      have preparedContinues : origin.Continues prepared := by
        rw [prepare_changes preparation]
        exact ⟨continues.name, continues.settings, continues.counted,
          continues.knowledge⟩
      cases outcome with
      | error fault => exact preparedContinues
      | ok _ =>
          have same := undeliberated_deliberate prepared
          have sameName := congrArg Agent.name same
          have sameSettings := congrArg Agent.settings same
          have sameCounted := congrArg Agent.counted same
          have sameKnowledge := congrArg Agent.knowledge same
          exact
            { name := sameName.trans preparedContinues.name
              settings := sameSettings.trans preparedContinues.settings
              counted := sameCounted.trans preparedContinues.counted
              knowledge := sameKnowledge.trans preparedContinues.knowledge }

/-- The agent after calls, whatever their outcome. -/
def afterCalls (agent : Agent) (calls : List Call) : Agent :=
  calls.foldl (fun current call => (call.course.runOn current).value.2) agent

theorem continues_afterCalls (agent : Agent) (calls : List Call) :
    agent.Continues (agent.afterCalls calls) := by
  induction calls using List.reverseRecOn with
  | nil => exact ⟨rfl, rfl, rfl, rfl⟩
  | append_singleton earlier call ih =>
      rw [afterCalls, List.foldl_append]
      exact keeps_continues_call agent call _ ih

/-- A formula that is a constant is supported the same by all facts. -/
theorem justify_of_isConstant {formula : Formula}
    (constant : formula.isConstant = true) (left right : FactSet) :
    justify left formula = justify right formula := by
  obtain ⟨degree, found⟩ := Option.isSome_iff_exists.mp constant
  rw [justify.eq_def, justify.eq_def, found]

/-- When no desire rule asks for obligations, a deliberation without any mental
state ends in the same. -/
theorem deliberate_undeliberated {agent final : Agent}
    (success : (deliberate.runOn agent).value = (.ok (), final))
    (constant : ∀ rule ∈ final.desireRules.rules,
      rule.obligation.isConstant = true) :
    (deliberate.runOn final.undeliberated).value = (.ok (), final) := by
  have same : final.undeliberated = agent.undeliberated := by
    rw [← undeliberated_deliberate agent, success]
  have sameRules := congrArg desireRules same
  change final.desireRules = agent.desireRules at sameRules
  have alsoSame : agent.undeliberated = final.undeliberated.undeliberated :=
    same.symm
  apply deliberate_congr alsoSame _ success
  intro rule member
  rw [← sameRules] at member
  rw [justify_of_isConstant (constant rule member) agent.obligations
    final.undeliberated.obligations]
  exact Degree.beq_iff.mpr rfl

/-- After a successful call the agent is the one that is built from its own
program, whatever came before and whether it failed, when the obligation
antecedents of its desire rules are constants. -/
theorem call_ends_as_built {agent final : Agent} {calls : List Call}
    {last : Call}
    (success : (last.course.runOn (agent.afterCalls calls)).value =
      (.ok (), final))
    (constant : ∀ rule ∈ final.desireRules.rules,
      rule.obligation.isConstant = true) :
    final.settings = agent.settings ∧ final.knowledge = agent.knowledge ∧
      (create agent.name final.program agent.settings agent.counted).value =
        .ok final := by
  have continues : agent.Continues final := by
    have kept := keeps_continues_call agent last _
      (continues_afterCalls agent calls)
    rw [success] at kept
    exact kept
  obtain ⟨prepared, _, deliberated⟩ := value_course_eq_ok_iff.mp success
  have again := deliberate_undeliberated deliberated constant
  refine ⟨continues.settings, continues.knowledge, ?_⟩
  rw [← continues.name, ← continues.settings, ← continues.counted,
    value_create_of_agent final.agent_program, again]
  rfl

/-- An agent wishes for fire.  A call that fails leaves it with a wish for wood,
and then it hears a report.  It is the agent that wished for wood at once. -/
theorem call_ends_as_built_wood :
    let fire : Rule := { consequent := .atom ⟨"fire"⟩ }
    let wood : Rule := { consequent := .atom ⟨"wood"⟩ }
    let refused : Call := .replaceRules (some [.rule wood]) (some [.nothing])
    let report : Call := .hear (.text "x") (.truth true)
    ∃ agent final : Agent,
      (create "camper" { desireRules := [.rule fire] } Settings.standard
        true).value = .ok agent ∧
      (refused.course.runOn agent).value.1.isOk = false ∧
      (report.course.runOn (agent.afterCalls [refused])).value =
        (.ok (), final) ∧
      final.desireRules.rules = [wood] ∧
      final.goals.contains wood.consequent = true ∧
      (create agent.name final.program agent.settings agent.counted).value =
        .ok final := by
  intro fire wood refused report
  have observed :
      (create "camper" { desireRules := [.rule fire] } Settings.standard
        true).value.toOption.map
        (fun agent =>
          let heard :=
            (report.course.runOn (agent.afterCalls [refused])).value
          ((refused.course.runOn agent).value.1.isOk, heard.1.isOk,
            heard.2.desireRules.rules,
            heard.2.goals.contains wood.consequent)) =
        some (false, true, [wood], true) := by
    decide +kernel
  obtain ⟨agent, built, seen⟩ := exists_of_observed observed
  simp only [Prod.mk.injEq] at seen
  obtain ⟨failed, succeeded, rules, elected⟩ := seen
  obtain ⟨_, success⟩ := exists_of_isOk succeeded
  let final := (report.course.runOn (agent.afterCalls [refused])).value.2
  have heard : (report.course.runOn (agent.afterCalls [refused])).value =
      (.ok (), final) :=
    Prod.ext success rfl
  have constant : ∀ rule ∈ final.desireRules.rules,
      rule.obligation.isConstant = true := by
    rw [rules]
    decide +kernel
  obtain ⟨_, _, rebuilt⟩ := call_ends_as_built heard constant
  exact ⟨agent, final, built, failed, heard, rules, elected, rebuilt⟩

end Agent

end Possibilistic
