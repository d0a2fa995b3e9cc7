import Possibilistic.Agent.Deliberation
import Possibilistic.Proofs.Inquiry

/-!
# Elections

An election goes through pairs of a threshold and a formula.  Since a
possibility is remembered as it was found, it elects the formula of the first
pair whose threshold the possibility reaches.
-/

namespace Possibilistic

namespace Agent

/-- The possibilities that are remembered are those that the beliefs give. -/
def Remembers (beliefs : FactBase) (known : ArrivalMap Formula Degree) :
    Prop :=
  ∀ formula possibility, known.get? formula = some possibility →
    possibility = (beliefs.possibility formula).value

theorem remembers_empty (beliefs : FactBase) :
    Remembers beliefs ArrivalMap.empty :=
  nofun

theorem Remembers.insert {beliefs : FactBase}
    {known : ArrivalMap Formula Degree} (faithful : Remembers beliefs known)
    (formula : Formula) :
    Remembers beliefs
      (known.insert formula (beliefs.possibility formula).value) := by
  intro other possibility found
  rw [ArrivalMap.get?_insert] at found
  split at found
  · rename_i same
    cases found
    rw [same]
  · exact faithful other possibility found

section

variable {beliefs : FactBase} {known : ArrivalMap Formula Degree}
  (faithful : Remembers beliefs known)

include faithful

theorem value_elect_cons (threshold : Degree) (formula : Formula)
    (rest : List (Degree × Formula)) :
    (elect beliefs ((threshold, formula) :: rest) known).value =
      if threshold ≤ (beliefs.possibility formula).value then some formula
      else (elect beliefs rest (known.insert formula
        (beliefs.possibility formula).value)).value := by
  rw [elect]
  cases found : known.get? formula with
  | none =>
      simp only [Inquiry.value_bind]
      split <;> rfl
  | some possibility =>
      rw [← faithful formula possibility found]
      simp only [Inquiry.value_bind, Inquiry.value_pure]
      split <;> rfl

theorem value_elect (pairs : List (Degree × Formula)) :
    (elect beliefs pairs known).value =
      (pairs.find? fun (threshold, formula) =>
        threshold ≤ (beliefs.possibility formula).value).map Prod.snd := by
  induction pairs generalizing known with
  | nil => rfl
  | cons pair rest ih =>
      obtain ⟨threshold, formula⟩ := pair
      rw [value_elect_cons faithful, ih (faithful.insert formula),
        List.find?_cons]
      by_cases reached : threshold ≤ (beliefs.possibility formula).value
      · simp [reached]
      · simp [reached]

end

/-- The elected goal is the first candidate, among all for the highest
threshold, then among all for the next, that is as possible as asked. -/
theorem value_electedGoal (agent : Agent) :
    agent.electedGoal.value =
      ((agent.thresholds.flatMap fun threshold =>
          agent.candidates.map fun formula => (threshold, formula)).find?
        fun (threshold, formula) =>
          threshold ≤ (agent.considersPossible formula).value).map Prod.snd :=
  value_elect (remembers_empty _) _

/-- The election first settles the threshold, which is the first that some
candidate reaches, and then takes the first candidate that reaches it. -/
theorem value_electedGoal_eq_bind (agent : Agent) :
    agent.electedGoal.value =
      (agent.thresholds.find? fun threshold =>
          agent.candidates.any fun formula =>
            threshold ≤ (agent.considersPossible formula).value).bind
        fun threshold =>
          agent.candidates.find? fun formula =>
            threshold ≤ (agent.considersPossible formula).value := by
  rw [value_electedGoal]
  generalize agent.candidates = candidates
  induction agent.thresholds with
  | nil => rfl
  | cons threshold lower ih =>
      have any_eq_isSome :
          (candidates.any fun formula =>
              threshold ≤ (agent.considersPossible formula).value) =
            (candidates.find? fun formula =>
              threshold ≤ (agent.considersPossible formula).value).isSome := by
        rw [Bool.eq_iff_iff, List.any_eq_true, List.find?_isSome]
      rw [List.flatMap_cons, List.find?_append, List.find?_map, List.find?_cons,
        any_eq_isSome]
      cases found : candidates.find? fun formula =>
          threshold ≤ (agent.considersPossible formula).value with
      | none =>
          rw [Function.comp_def, found]
          exact ih
      | some formula =>
          rw [Function.comp_def, found]
          exact found.symm

end Agent

end Possibilistic
