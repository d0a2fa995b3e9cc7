import Mathlib.Data.List.Basic
import Possibilistic.Agent.Deliberation
import Possibilistic.Proofs.Distribution.Comparison
import Possibilistic.Proofs.FactBase.Reports

/-!
# Activations

What activates a rule besides the desires does not change while the utility is
renewed.  A level that an activation reaches is reached again when the utility
reaches it in more worlds, since a guaranteed possibility is a least degree.
-/

namespace Possibilistic

namespace Agent

theorem onlyEnumerates_activation (agent : Agent) (rule : Rule) :
    (agent.activation rule).OnlyEnumerates := by
  apply (FactBase.onlyEnumerates_necessity _ _).bind
  apply (FactBase.onlyEnumerates_necessity _ _).bind
  exact Inquiry.OnlyEnumerates.pure _

theorem onlyEnumerates_weighDesires (agent : Agent) :
    agent.weighDesires.OnlyEnumerates := by
  apply Inquiry.OnlyEnumerates.mapM
  intro rule _
  exact (onlyEnumerates_activation agent rule).bind
    (Inquiry.OnlyEnumerates.pure _)

theorem le_activation_iff {agent : Agent} {rule : Rule} {level : Degree} :
    level ≤ (agent.activation rule).value ↔
      level ≤ (agent.knows rule.knowledge).value ∧
        level ≤ (agent.believes rule.belief).value ∧
          level ≤ agent.desires rule.desire ∧
            level ≤ agent.must rule.obligation := by
  change level ≤ min (min (min _ _) _) _ ↔ _
  rw [Degree.le_min_iff, Degree.le_min_iff, Degree.le_min_iff, and_assoc,
    and_assoc]

/-- The greatest activation, under a utility, of a desire rule whose consequent
holds in a world, zero where there is none. -/
def strongestActivation (agent : Agent) (utility : Distribution)
    (world : Interpretation) : Degree :=
  Degree.maximum <|
    (agent.desireRules.rules.filter fun rule =>
      (rule.consequent.truth world).isOne).map fun rule =>
        ({ agent with utility }.activation rule).value

theorem strongest_weighDesires (agent : Agent) (world : Interpretation) :
    strongest agent.weighDesires.value world =
      agent.strongestActivation agent.utility world := by
  simp only [weighDesires, strongestActivation, strongest, Degree.maximum,
    Inquiry.value_mapM, Inquiry.value_bind, Inquiry.value_pure, List.foldl_map,
    List.foldl_filter]

/-- The desire rules whose activation under a utility reaches a level. -/
def activeRules (agent : Agent) (utility : Distribution) (level : Degree) :
    List Rule :=
  agent.desireRules.rules.filter fun rule =>
    level ≤ ({ agent with utility }.activation rule).value

theorem length_activeRules_le (agent : Agent) (utility : Distribution)
    (level : Degree) :
    (agent.activeRules utility level).length ≤ agent.desireRules.size :=
  List.length_filter_le _ _

theorem le_strongestActivation_iff {agent : Agent} {utility : Distribution}
    {world : Interpretation} {level : Degree} (positive : 0 < level.units) :
    level ≤ agent.strongestActivation utility world ↔
      ∃ rule ∈ agent.activeRules utility level,
        (rule.consequent.truth world).isOne = true := by
  rw [strongestActivation, Degree.le_maximum_iff positive]
  constructor
  · intro ⟨degree, member, reached⟩
    obtain ⟨rule, inFilter, equality⟩ := List.mem_map.mp member
    obtain ⟨present, holds⟩ := List.mem_filter.mp inFilter
    rw [← equality] at reached
    exact ⟨rule, List.mem_filter.mpr ⟨present, decide_eq_true reached⟩, holds⟩
  · intro ⟨rule, active, holds⟩
    obtain ⟨present, reached⟩ := List.mem_filter.mp active
    refine ⟨({ agent with utility }.activation rule).value, ?_,
      of_decide_eq_true reached⟩
    exact List.mem_map_of_mem (List.mem_filter.mpr ⟨present, holds⟩)

section

variable {agent : Agent} {left right : Distribution} {level : Degree}
  (sameAtoms : left.atoms = right.atoms)
  (below : Distribution.BelowAt level left right)

include sameAtoms below

theorem le_desires_of_belowAt {formula : Formula}
    (reached : level ≤ { agent with utility := left }.desires formula) :
    level ≤ { agent with utility := right }.desires formula := by
  simp only [desires] at reached ⊢
  cases known : formula.constant? with
  | some degree => simpa [known] using reached
  | none =>
      simp only [known] at reached ⊢
      have everyWorld := Distribution.le_least_iff.mp reached
      apply Distribution.le_least_iff.mpr
      intro number inRange holds
      rw [← sameAtoms] at inRange holds
      exact below number inRange (everyWorld number inRange holds)

theorem le_activation_of_belowAt {rule : Rule}
    (reached : level ≤
      ({ agent with utility := left }.activation rule).value) :
    level ≤ ({ agent with utility := right }.activation rule).value := by
  obtain ⟨known, believed, desired, required⟩ := le_activation_iff.mp reached
  apply le_activation_iff.mpr
  exact ⟨known, believed, le_desires_of_belowAt sameAtoms below desired,
    required⟩

/-- More worlds that reach a level make more rules active. -/
theorem activeRules_sublist_of_belowAt :
    List.Sublist (agent.activeRules left level)
      (agent.activeRules right level) := by
  apply List.monotone_filter_right
  intro rule active
  exact decide_eq_true
    (le_activation_of_belowAt sameAtoms below (of_decide_eq_true active))

end

end Agent

end Possibilistic
