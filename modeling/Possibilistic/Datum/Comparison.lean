import Possibilistic.Datum.Basic

/-!
# Comparing offered data

Truth values and numbers compare by value, texts and atoms by code points, and
lists by their first difference.  Other data are not ordered.  Equality never fails:
data of different kinds are different, except that numbers are equal by value.
-/

namespace Possibilistic

namespace Datum

/-- Where a numeric datum lies on the number line.  The outer option tells
whether the datum is numeric, the inner one whether it lies anywhere. -/
def extent? : Datum → Option (Option Binary64.Extent)
  | .truth value => some (some (Binary64.Extent.ofInt (if value then 1 else 0)))
  | .integer value => some (some (Binary64.Extent.ofInt value))
  | .number value => some value.extent?
  | _ => none

/-- How two numeric data compare. -/
def compareNumbers (left right : Option Binary64.Extent) : Option Ordering :=
  Binary64.compareExtents? left right

mutual

def equals : Datum → Datum → Bool
  | .nothing, .nothing => true
  | .text left, .text right => left == right
  | .list left, .list right => equalsAll left right
  | .tuple left, .tuple right => equalsAll left right
  | .atom left, .atom right => left == right
  | .formula left, .formula right => left == right
  | .fact left, .fact right => left == right
  | .interpretation left, .interpretation right => left == right
  | .rule left, .rule right => left == right
  | left, right =>
      match left.extent?, right.extent? with
      | some left, some right => compareNumbers left right == some .eq
      | _, _ => false

def equalsAll : List Datum → List Datum → Bool
  | [], [] => true
  | left :: lefts, right :: rights => equals left right && equalsAll lefts rights
  | _, _ => false

end

mutual

/-- Whether the first datum is below the second; none where they are not
ordered. -/
def below? : Datum → Datum → Option Bool
  | .text left, .text right => some (decide (left < right))
  | .atom left, .atom right => some (decide (left.name < right.name))
  | .list left, .list right => belowAll? left right
  | .tuple left, .tuple right => belowAll? left right
  | left, right =>
      match left.extent?, right.extent? with
      | some left, some right => some (compareNumbers left right == some .lt)
      | _, _ => none

def belowAll? : List Datum → List Datum → Option Bool
  | [], right => some (!right.isEmpty)
  | _ :: _, [] => some false
  | left :: lefts, right :: rights =>
      if equals left right then belowAll? lefts rights else below? left right

end

/-- The first of the least data of a list, starting from one of them. -/
def least? : Datum → List Datum → Option Datum
  | best, [] => some best
  | best, item :: rest => do
      least? (if ← item.below? best then item else best) rest

/-- The first of the greatest data of a list, starting from one of them. -/
def greatest? : Datum → List Datum → Option Datum
  | best, [] => some best
  | best, item :: rest => do
      greatest? (if ← best.below? item then item else best) rest

end Datum

end Possibilistic
