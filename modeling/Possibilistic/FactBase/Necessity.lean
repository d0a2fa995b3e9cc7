import Possibilistic.FactBase.Basic

/-!
# Necessity

The degrees of a fact base are levels of necessity.  A formula is as necessary
as the highest level whose cut still entails it fully, and as possible as its
negation is not necessary.  A fact is redundant when the others make it as
necessary as its own degree.
-/

namespace Possibilistic

namespace FactBase

/-- The last of ascending levels before the first whose cut does not entail a
formula fully. -/
def highestCut (base : FactBase) (formula : Formula) :
    (levels : List Degree) → (reached : Degree) → Inquiry Degree
  | [], reached => pure reached
  | level :: higher, reached => do
      if (← (base.cut level).models formula).isOne then
        highestCut base formula higher level
      else
        pure reached

/-- How necessary a formula is.  The levels are tried in ascending order, then
the base itself. -/
def necessity (base : FactBase) (formula : Formula) : Inquiry Degree :=
  match formula.constant? with
  | some degree => pure degree
  | none => do
      let reached ← base.highestCut formula base.levels Degree.zero
      if (← base.models formula).isOne then pure Degree.one
      else pure reached

/-- How possible a formula is. -/
def possibility (base : FactBase) (formula : Formula) : Inquiry Degree :=
  match formula.constant? with
  | some degree => pure degree
  | none => Degree.complement <$> base.necessity formula.negated

/-- The base without its first redundant fact, if it has one. -/
def dropRedundant? (base : FactBase) :
    List (Formula × Degree) → Inquiry (Option FactBase)
  | [] => pure none
  | (fact, degree) :: rest => do
      let others := base.withFacts (base.facts.untell fact)
      if degree ≤ (← others.necessity fact) then pure (some others)
      else dropRedundant? base rest

/-- Drops redundant facts one at a time, starting over after each.  Each round
drops a fact, so there are at most as many rounds as facts. -/
def simplifiedWithin : (rounds : Nat) → FactBase → Inquiry FactBase
  | 0, base => pure base
  | rounds + 1, base => do
      match ← base.dropRedundant? base.items with
      | none => pure base
      | some others => simplifiedWithin rounds others

/-- The base without redundant facts. -/
def simplified (base : FactBase) : Inquiry FactBase :=
  simplifiedWithin base.facts.size base

end FactBase

end Possibilistic
