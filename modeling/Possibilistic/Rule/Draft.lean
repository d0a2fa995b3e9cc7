import Possibilistic.Datum.Acceptance

/-!
# Drafting rules

A draft collects the conditions of a rule step by step.  Conditions under the
same modality are conjoined, and the last consequent stands.
-/

namespace Possibilistic

structure RuleDraft where
  antecedent : Modality → Option Formula
  consequent : Option Formula

namespace RuleDraft

def empty : RuleDraft :=
  ⟨fun _ => none, none⟩

/-- Adds a condition under a modality. -/
def require (draft : RuleDraft) (modality : Modality) (fact : Formula) :
    RuleDraft :=
  let condition :=
    match draft.antecedent modality with
    | some existing => existing.conj fact
    | none => fact
  { draft with
    antecedent := fun other =>
      if other = modality then some condition else draft.antecedent other }

def conclude (draft : RuleDraft) (fact : Formula) : RuleDraft :=
  { draft with consequent := some fact }

/-- The drafted rule. -/
def build (draft : RuleDraft) : Except Fault Rule :=
  match draft.consequent with
  | none => .error .withoutConsequent
  | some consequent =>
      .ok (Rule.ofAntecedents consequent fun modality =>
        (draft.antecedent modality).getD Formula.top)

end RuleDraft

end Possibilistic
