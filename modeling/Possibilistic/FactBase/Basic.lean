import Possibilistic.FactSet.Basic
import Possibilistic.Inquiry
import Possibilistic.Settings

/-!
# Entailment

A fact base is a fact set that answers questions of entailment by visiting the
worlds of the combined vocabulary.  A formula is entailed as far as every world
makes it true or makes the facts false.
-/

namespace Possibilistic

/-- Facts, with the reporting of what their questions cost. -/
structure FactBase where
  facts : FactSet
  /-- Whether entailment checks are counted. -/
  counted : Bool
  /-- An enumeration of more atoms than this is reported. -/
  warnAbove : Int

namespace FactBase

/-- The same reporting over other facts. -/
def withFacts (base : FactBase) (facts : FactSet) : FactBase :=
  { base with facts }

def cut (base : FactBase) (level : Degree) : FactBase :=
  base.withFacts (base.facts.cut level)

def items (base : FactBase) : List (Formula × Degree) :=
  base.facts.items

def levels (base : FactBase) : List Degree :=
  base.facts.levels

/-- The vocabulary of the facts and a formula. -/
def vocabularyWith (base : FactBase) (formula : Formula) : List Atom :=
  Atom.vocabulary (base.facts.mentions ++ formula.mentions)

/-- The degree to which the facts entail a formula, by a search that leaves at
zero. -/
def entailment (base : FactBase) (formula : Formula) : Degree :=
  World.search (base.vocabularyWith formula) Degree.isZero
    (fun least world =>
      min least
        (max (base.facts.truth world).complement (formula.truth world)))
    Degree.one

/-- The degree of entailment as one entailment check. -/
def models (base : FactBase) (formula : Formula) : Inquiry Degree := do
  if base.counted then Inquiry.check
  Inquiry.warnAbove base.warnAbove (base.vocabularyWith formula).length
  pure (base.entailment formula)

end FactBase

end Possibilistic
