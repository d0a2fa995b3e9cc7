/-!
# Settings

The limits of reasoning and of deliberation, with their defaults.
-/

namespace Possibilistic

structure LogicSettings where
  /-- The most atoms that a stored distribution may have. -/
  maxDistributionAtoms : Int := 31
  /-- An enumeration of more atoms than this is reported. -/
  enumerationWarnAtoms : Int := 20
deriving DecidableEq

structure DeliberationSettings where
  maxDesireIterations : Int := 100
  maxObligationIterations : Int := 100
  /-- Whether a phase that meets its limit is an error and not a warning. -/
  strictConvergence : Bool := false
deriving DecidableEq

structure Settings where
  logic : LogicSettings := {}
  deliberation : DeliberationSettings := {}
deriving DecidableEq

namespace Settings

def standard : Settings :=
  {}

/-- The standard limits, never keeping a state that has not settled. -/
def strict : Settings :=
  { deliberation := { strictConvergence := true } }

end Settings

end Possibilistic
