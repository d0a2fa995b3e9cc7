import Possibilistic.Binary64.Rounding

/-!
# Binary64 numbers

A number is not a number at all, infinite, or a sign with a magnitude.  Zero
has both signs.  Every operation computes its exact result over the integers
and rounds it once.  Comparisons look at the exact value, so the two zeros are
equal and nothing compares with the absent number.
-/

namespace Possibilistic

-- Powers of natural numbers are those of the core library everywhere.
attribute [local instance (2000)] instPowNat

namespace Binary64

/-- The units in the number one. -/
@[irreducible] def unit : Nat := (2 : Nat) ^ (1074 : Nat)

/-- The least count of units that is out of range. -/
@[irreducible] def limit : Nat := (2 : Nat) ^ (2098 : Nat)

theorem unit_pos : 0 < unit := by
  unfold unit
  apply Nat.two_pow_pos

theorem limit_pos : 0 < limit := by
  unfold limit
  apply Nat.two_pow_pos

theorem representable_zero : Representable 0 :=
  representable_of_lt (Nat.two_pow_pos 53)

theorem representable_unit : Representable unit := by
  unfold unit
  exact representable_two_pow 1074

theorem representable_double_unit : Representable (unit * 2) := by
  unfold unit
  exact representable_two_pow_mul_two 1074

theorem unit_lt_limit : unit < limit := by
  unfold unit limit
  apply Nat.pow_lt_pow_right Nat.one_lt_two
  omega

end Binary64

/-- A representable count of units below the range's end. -/
structure Magnitude where
  units : Nat
  representable : Binary64.Representable units
  bounded : units < Binary64.limit
deriving DecidableEq

inductive Binary64 where
  | nan
  | infinite (negative : Bool)
  | finite (negative : Bool) (magnitude : Magnitude)
deriving DecidableEq

namespace Binary64

/-- The number nearest to a signed quotient, counted in units; a magnitude out
of range becomes infinite. -/
def ofQuotient (negative : Bool) (numerator denominator : Nat) : Binary64 :=
  if bounded : round numerator denominator < limit then
    .finite negative
      ⟨round numerator denominator,
        representable_round numerator denominator, bounded⟩
  else
    .infinite negative

def zero : Binary64 :=
  .finite false ⟨0, representable_zero, limit_pos⟩

def one : Binary64 :=
  .finite false ⟨unit, representable_unit, unit_lt_limit⟩

def neg : Binary64 → Binary64
  | .nan => .nan
  | .infinite negative => .infinite (!negative)
  | .finite negative magnitude => .finite (!negative) magnitude

def abs : Binary64 → Binary64
  | .nan => .nan
  | .infinite _ => .infinite false
  | .finite _ magnitude => .finite false magnitude

/-- The exact value of a finite number, in units. -/
def signed (negative : Bool) (units : Nat) : Int :=
  if negative then -(units : Int) else units

/-- An exact zero sum is negative only when both terms are. -/
def add : Binary64 → Binary64 → Binary64
  | .nan, _ => .nan
  | _, .nan => .nan
  | .infinite left, .infinite right =>
      if left = right then .infinite left else .nan
  | .infinite left, .finite _ _ => .infinite left
  | .finite _ _, .infinite right => .infinite right
  | .finite left a, .finite right b =>
      let sum := signed left a.units + signed right b.units
      if sum = 0 then ofQuotient (left && right) 0 1
      else ofQuotient (decide (sum < 0)) sum.natAbs 1

def sub (left right : Binary64) : Binary64 :=
  add left (neg right)

def mul : Binary64 → Binary64 → Binary64
  | .nan, _ => .nan
  | _, .nan => .nan
  | .infinite left, .infinite right => .infinite (left ^^ right)
  | .infinite left, .finite right b =>
      if b.units = 0 then .nan else .infinite (left ^^ right)
  | .finite left a, .infinite right =>
      if a.units = 0 then .nan else .infinite (left ^^ right)
  | .finite left a, .finite right b =>
      ofQuotient (left ^^ right) (a.units * b.units) unit

def div : Binary64 → Binary64 → Binary64
  | .nan, _ => .nan
  | _, .nan => .nan
  | .infinite _, .infinite _ => .nan
  | .infinite left, .finite right _ => .infinite (left ^^ right)
  | .finite left _, .infinite right => ofQuotient (left ^^ right) 0 1
  | .finite left a, .finite right b =>
      if b.units = 0 then
        if a.units = 0 then .nan else .infinite (left ^^ right)
      else
        ofQuotient (left ^^ right) (a.units * unit) b.units

instance : Neg Binary64 := ⟨neg⟩
instance : Add Binary64 := ⟨add⟩
instance : Sub Binary64 := ⟨sub⟩
instance : Mul Binary64 := ⟨mul⟩
instance : Div Binary64 := ⟨div⟩

/-- The number nearest to an integer, if it is in range. -/
def ofInt? (value : Int) : Option Binary64 :=
  -- The unit stands first: a product is evaluated along its second factor.
  match ofQuotient (decide (value < 0)) (unit * value.natAbs) 1 with
  | .finite negative magnitude => some (.finite negative magnitude)
  | _ => none

/-- The nearest decimal with so many places, an exact half going to the even
last digit, rounded to binary64 again. -/
def toPlaces (places : Nat) : Binary64 → Binary64
  | .finite negative magnitude =>
      ofQuotient negative
        (nearest (magnitude.units * 10 ^ places) unit * unit) (10 ^ places)
  | other => other

/-- The greatest integer that is not above a finite number. -/
def floor? : Binary64 → Option Int
  | .finite negative magnitude =>
      some (Int.fdiv (signed negative magnitude.units) unit)
  | _ => none

/-- An exact place on the extended number line, in units. -/
inductive Extent where
  | below
  | at (units : Int)
  | above
deriving DecidableEq

def Extent.compare : Extent → Extent → Ordering
  | .below, .below => .eq
  | .below, _ => .lt
  | .at _, .below => .gt
  | .at left, .at right => Ord.compare left right
  | .at _, .above => .lt
  | .above, .above => .eq
  | .above, _ => .gt

/-- Where the number lies; the absent number lies nowhere. -/
def extent? : Binary64 → Option Extent
  | .nan => none
  | .infinite true => some .below
  | .infinite false => some .above
  | .finite negative magnitude => some (.at (signed negative magnitude.units))

/-- Where an integer lies. -/
def Extent.ofInt (value : Int) : Extent :=
  .at (value * unit)

/-- How two places compare, unless one of them is missing. -/
def compareExtents? (left right : Option Extent) : Option Ordering :=
  match left, right with
  | some left, some right => some (left.compare right)
  | _, _ => none

def compare? (left right : Binary64) : Option Ordering :=
  compareExtents? left.extent? right.extent?

def lt (left right : Binary64) : Bool :=
  compare? left right == some .lt

def le (left right : Binary64) : Bool :=
  match compare? left right with
  | some ordering => ordering.isLE
  | none => false

end Binary64

end Possibilistic
