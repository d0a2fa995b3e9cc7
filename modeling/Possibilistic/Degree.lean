import Possibilistic.Numeral.Layout

/-!
# Degrees of truth

A degree is a binary64 number from zero to one.  Zero has both signs; they are
written differently and count as equal.  The complement is one minus the
degree, rounded once, and the smaller or larger of two equal degrees is the
first.
-/

namespace Possibilistic

/-- A representable number of units, at most one, with a sign on zero only. -/
structure Degree where
  units : Nat
  negativeZero : Bool
  representable : Binary64.Representable units
  atMostOne : units ≤ Binary64.unit
  units_of_negativeZero : negativeZero = true → units = 0

namespace Degree

/-- Full truth. -/
def one : Degree :=
  { units := Binary64.unit
    negativeZero := false
    representable := Binary64.representable_unit
    atMostOne := Nat.le_refl _
    units_of_negativeZero := nofun }

/-- A zero of either sign. -/
def signedZero (negative : Bool) : Degree :=
  { units := 0
    negativeZero := negative
    representable := Binary64.representable_zero
    atMostOne := Nat.zero_le _
    units_of_negativeZero := fun _ => rfl }

/-- No truth. -/
def zero : Degree :=
  signedZero false

/-- The degree nearest to a quotient of units that is at most one. -/
def ofQuotient (numerator denominator : Nat) (positive : 0 < denominator)
    (bounded : numerator ≤ Binary64.unit * denominator) : Degree :=
  { units := Binary64.round numerator denominator
    negativeZero := false
    representable := Binary64.representable_round numerator denominator
    atMostOne :=
      Binary64.round_le positive Binary64.representable_unit bounded
    units_of_negativeZero := nofun }

/-- As likely true as false: the truth of an atom nothing is known about. -/
def half : Degree :=
  ofQuotient Binary64.unit 2 (by omega) (by omega)

def toBinary64 (degree : Degree) : Binary64 :=
  .finite degree.negativeZero
    { units := degree.units
      representable := degree.representable
      bounded := Nat.lt_of_le_of_lt degree.atMostOne Binary64.unit_lt_limit }

/-- The degree that a number is, if it is one. -/
def ofBinary64? : Binary64 → Option Degree
  | .finite negative magnitude =>
      if bounded : magnitude.units ≤ Binary64.unit then
        if magnitude.units = 0 then
          some (signedZero negative)
        else if negative then none
        else
          some
            { units := magnitude.units
              negativeZero := false
              representable := magnitude.representable
              atMostOne := bounded
              units_of_negativeZero := nofun }
      else none
  | _ => none

/-- Equality of degrees ignores the sign of zero. -/
instance : BEq Degree :=
  ⟨fun left right => left.units == right.units⟩

instance : LE Degree :=
  ⟨fun left right => left.units ≤ right.units⟩

instance : LT Degree :=
  ⟨fun left right => left.units < right.units⟩

instance (left right : Degree) : Decidable (left ≤ right) :=
  inferInstanceAs (Decidable (left.units ≤ right.units))

instance (left right : Degree) : Decidable (left < right) :=
  inferInstanceAs (Decidable (left.units < right.units))

instance : Min Degree :=
  ⟨fun left right => if right < left then right else left⟩

instance : Max Degree :=
  ⟨fun left right => if left < right then right else left⟩

def isOne (degree : Degree) : Bool :=
  degree.units == Binary64.unit

def isZero (degree : Degree) : Bool :=
  degree.units == 0

/-- One minus the degree. -/
def complement (degree : Degree) : Degree :=
  ofQuotient (Binary64.unit - degree.units) 1 (by omega) (by omega)

/-- How far two degrees are apart. -/
def distance (left right : Degree) : Binary64 :=
  (left.toBinary64 - right.toBinary64).abs

/-- Half of the rounded sum. -/
def mean (left right : Degree) : Degree :=
  ofQuotient (Binary64.round (left.units + right.units) 1) 2 (by omega) <| by
    apply Binary64.round_le (by omega) Binary64.representable_double_unit
    have := left.atMostOne
    have := right.atMostOne
    omega

def text (degree : Degree) : String :=
  degree.toBinary64.text

/-- The degree as diagnostics show it. -/
def shown (degree : Degree) : String :=
  "TruthDegree(" ++ degree.text ++ ")"

/-- Puts a degree into an ascending list, unless an equal one is there. -/
def insertLevel (degree : Degree) : List Degree → List Degree
  | [] => [degree]
  | level :: levels =>
      if degree < level then degree :: level :: levels
      else if level < degree then level :: insertLevel degree levels
      else level :: levels

/-- The distinct degrees of a list, ascending; of equal ones the first. -/
def levels (degrees : List Degree) : List Degree :=
  degrees.foldl (fun levels degree => insertLevel degree levels) []

theorem beq_iff {left right : Degree} :
    (left == right) = true ↔ left.units = right.units := by
  change (left.units == right.units) = true ↔ _
  exact beq_iff_eq

theorem le_iff {left right : Degree} : left ≤ right ↔ left.units ≤ right.units :=
  Iff.rfl

theorem lt_iff {left right : Degree} : left < right ↔ left.units < right.units :=
  Iff.rfl

theorem isOne_iff {degree : Degree} :
    degree.isOne = true ↔ degree.units = Binary64.unit := by
  unfold isOne
  exact beq_iff_eq

theorem isZero_iff {degree : Degree} :
    degree.isZero = true ↔ degree.units = 0 := by
  unfold isZero
  exact beq_iff_eq

theorem units_min (left right : Degree) :
    (min left right).units = min left.units right.units := by
  change (if right.units < left.units then right else left).units = _
  split <;> omega

theorem units_max (left right : Degree) :
    (max left right).units = max left.units right.units := by
  change (if left.units < right.units then right else left).units = _
  split <;> omega

end Degree

end Possibilistic
