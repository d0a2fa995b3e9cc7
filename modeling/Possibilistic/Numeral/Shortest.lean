import Possibilistic.Numeral.Decimal

/-!
# Shortest decimals

A positive magnitude is written with the fewest significant digits that read
back as the same magnitude; of two such decimals the nearer is taken, and the
even one when both are equally near.  Seventeen digits always suffice.
-/

namespace Possibilistic

-- Powers of natural numbers are those of the core library everywhere.
attribute [local instance (2000)] instPowNat

namespace Decimal

/-- The decimal rounds to the magnitude. -/
def readsBack (units : Nat) (decimal : Decimal) : Bool :=
  let (numerator, denominator) := decimal.quotient
  Binary64.round numerator denominator == units

/-- The power of ten is not above the magnitude. -/
def powerReached (units : Nat) (exponent : Int) : Bool :=
  let (numerator, denominator) := (Decimal.mk 1 exponent).quotient
  numerator ≤ units * denominator

/-- The exponent of the greatest power of ten that is not above a positive
magnitude, estimated from its binary logarithm and corrected by one. -/
def leadingExponent (units : Nat) : Int :=
  let estimate := Int.fdiv (((units.log2 : Int) - 1074) * 30103) 100000
  if powerReached units (estimate + 1) then estimate + 1
  else if powerReached units estimate then estimate
  else estimate - 1

/-- The greatest multiple of a power of ten that is not above the magnitude,
counted in that power. -/
def below (units : Nat) (exponent : Int) : Nat :=
  if 0 ≤ exponent then units / (Binary64.unit * 10 ^ exponent.toNat)
  else units * 10 ^ (-exponent).toNat / Binary64.unit

/-- How the magnitude lies between two neighbouring multiples of a power of
ten: nearer to the lower, halfway, or nearer to the upper. -/
def side (units : Nat) (lower : Nat) (exponent : Int) : Ordering :=
  let (numerator, denominator) := (Decimal.mk (2 * lower + 1) exponent).quotient
  compare (2 * units * denominator) numerator

/-- The better of the neighbours on one decimal grid that read back. -/
def onGrid? (units : Nat) (exponent : Int) : Option Decimal :=
  let lower : Decimal := ⟨below units exponent, exponent⟩
  let upper : Decimal := ⟨below units exponent + 1, exponent⟩
  match readsBack units lower, readsBack units upper with
  | false, false => none
  | true, false => some lower
  | false, true => some upper
  | true, true =>
      match side units lower.significand exponent with
      | .lt => some lower
      | .gt => some upper
      | .eq => some (if lower.significand % 2 = 0 then lower else upper)

/-- The first grid with a decimal that reads back, trying so many grids from
the coarsest; the finest grid's lower neighbour stands for the rest. -/
def firstGrid (units : Nat) : (grids : Nat) → (exponent : Int) → Decimal
  | 0, exponent => ⟨below units exponent, exponent⟩
  | grids + 1, exponent =>
      match onGrid? units exponent with
      | some decimal => decimal
      | none => firstGrid units grids (exponent - 1)

/-- The shortest decimal of a positive magnitude. -/
def shortest (units : Nat) : Decimal :=
  firstGrid units 17 (leadingExponent units)

end Decimal

end Possibilistic
