import Possibilistic.Binary64.Basic

/-!
# Decimals

A decimal is a whole number of a power of ten.  Its exact value is a quotient
of binary64 units, and rounding that quotient once reads the decimal.
-/

namespace Possibilistic

-- Powers of natural numbers are those of the core library everywhere.
attribute [local instance (2000)] instPowNat

/-- The number `significand * 10 ^ exponent`. -/
structure Decimal where
  significand : Nat
  exponent : Int
deriving DecidableEq, Repr

namespace Decimal

/-- The exact value, in binary64 units, as a quotient. -/
def quotient (decimal : Decimal) : Nat × Nat :=
  if 0 ≤ decimal.exponent then
    (decimal.significand * 10 ^ decimal.exponent.toNat * Binary64.unit, 1)
  else
    (decimal.significand * Binary64.unit, 10 ^ (-decimal.exponent).toNat)

/-- The number nearest to the decimal.  Exponents that leave the range whatever
the digits are not expanded. -/
def round (negative : Bool) (decimal : Decimal) : Binary64 :=
  if decimal.significand = 0 then Binary64.ofQuotient negative 0 1
  else if 400 < decimal.exponent then .infinite negative
  else if decimal.exponent + (decimal.significand.log2 + 1) < -400 then
    Binary64.ofQuotient negative 0 1
  else
    let (numerator, denominator) := decimal.quotient
    Binary64.ofQuotient negative numerator denominator

end Decimal

end Possibilistic
