import Possibilistic.Agent.Deliberation

/-!
# Revision

New evidence revises the beliefs.  Beliefs at or below the level that the
evidence contradicts are given up and the others are rescaled; what was
necessary stays so where the evidence fails; the evidence is added at its trust
unless it is entailed already; redundant beliefs are dropped.  Every change
ends with a deliberation.
-/

namespace Possibilistic

namespace Agent

/-- The degree of a belief among the worlds that the evidence leaves. -/
def rescaled (degree contradiction : Degree) : Binary64 :=
  Binary64.one -
    degree.complement.toBinary64 / contradiction.complement.toBinary64

/-- The beliefs above the level of contradiction, rescaled. -/
def keepAbove (contradiction : Degree) (beliefs : FactSet) :
    Except Fault FactSet :=
  beliefs.items.foldlM
    (fun kept (fact, degree) =>
      if contradiction < degree then
        kept.tellOffered (.formula fact)
          (.number (rescaled degree contradiction))
      else pure kept)
    FactSet.empty

/-- Adds, for every belief, that it or the evidence holds, at the necessity
that the belief had, unless this is entailed. -/
def addAlternatives (previous : FactBase) (evidence : Formula) :
    List (Formula × Degree) → FactBase → Inquiry FactBase
  | [], revised => pure revised
  | (fact, _) :: rest, revised => do
      let degree ← previous.necessity fact
      let alternative := fact.disj evidence
      let entailed ← revised.necessity alternative
      addAlternatives previous evidence rest <|
        if degree ≤ entailed then revised
        else revised.withFacts (revised.facts.tell alternative degree)

/-- Adds the evidence at its trust, unless it is entailed to that degree. -/
def addEvidence (evidence : Formula) (trust : Degree) (revised : FactBase) :
    Inquiry FactBase := do
  let entailed ← revised.necessity evidence
  pure <|
    if trust ≤ entailed then revised
    else revised.withFacts (revised.facts.tell evidence trust)

/-- Replaces the beliefs by their revision. -/
def reviseBeliefs (evidence : Formula) (trust : Degree) :
    Deliberation Unit := do
  let agent ← get
  let previous := agent.base agent.beliefs
  let contradiction ← previous.necessity evidence.negated
  let kept ← MonadExcept.ofExcept (keepAbove contradiction agent.beliefs)
  let extended ←
    addAlternatives previous evidence previous.items (previous.withFacts kept)
  let informed ← addEvidence evidence trust extended
  let revised ← informed.simplified
  set { agent with beliefs := revised.facts }

/-- Revises the beliefs with an offered fact at an offered trust. -/
def updateBeliefs (fact trust : Datum) : Deliberation Unit := do
  let fact ← MonadExcept.ofExcept fact.asFact
  let trust ← MonadExcept.ofExcept (trust.asDegreeFor "trust")
  reviseBeliefs fact trust
  deliberate

/-- Reports an offered fact at an offered truth.  The report is looked at and
leaves knowledge as it is. -/
def hear (fact truth : Datum) : Deliberation Unit := do
  let _ ← MonadExcept.ofExcept fact.asFact
  let _ ← MonadExcept.ofExcept (truth.asDegreeFor "truth")
  deliberate

/-- Swaps in offered rules.  Rules that are not offered stay. -/
def replaceRules (desireRules obligationRules : Option (List Datum)) :
    Deliberation Unit := do
  if let some offered := desireRules then
    let rules ← MonadExcept.ofExcept (RuleBase.ofData offered)
    modify fun agent => { agent with desireRules := rules }
  if let some offered := obligationRules then
    let rules ← MonadExcept.ofExcept (RuleBase.ofData offered)
    modify fun agent => { agent with obligationRules := rules }
  deliberate

end Agent

end Possibilistic
