import Possibilistic.Numeral.Shortest

/-!
# The text of numbers

A number is written with its shortest decimal.  Positional notation serves
leading exponents from -4 to 15 and always has a fractional part; beyond them
stands a scientific numeral whose exponent has a sign and at least two digits.
-/

namespace Possibilistic

/-- How decimals are laid out. -/
structure Layout where
  leastPositional : Int
  mostPositional : Int
  exponentDigits : Nat
  absent : String
  infinite : String

namespace Layout

/-- The layout of every number the library writes. -/
def standard : Layout :=
  { leastPositional := -4
    mostPositional := 15
    exponentDigits := 2
    absent := "nan"
    infinite := "inf" }

/-- The significant digits without the trailing zeros. -/
def significantDigits (significand : Nat) : List Char :=
  ((Nat.toDigits 10 significand).reverse.dropWhile (· == '0')).reverse

/-- Digits around a point that stands after so many of them. -/
def positional (digits : List Char) (leading : Int) : List Char :=
  if leading < 0 then
    '0' :: '.' :: List.replicate (-leading - 1).toNat '0' ++ digits
  else
    let whole := leading.toNat + 1
    let fraction := digits.drop whole
    digits.take whole ++ List.replicate (whole - digits.length) '0' ++
      '.' :: (if fraction.isEmpty then ['0'] else fraction)

/-- One digit before the point, which is left out when nothing follows it. -/
def scientific (layout : Layout) (digits : List Char) (leading : Int) :
    List Char :=
  let mantissa :=
    match digits with
    | [] => ['0']
    | [digit] => [digit]
    | digit :: rest => digit :: '.' :: rest
  let exponent := Nat.toDigits 10 leading.natAbs
  mantissa ++ 'e' :: (if leading < 0 then '-' else '+') ::
    List.replicate (layout.exponentDigits - exponent.length) '0' ++ exponent

/-- The text of a positive decimal. -/
def decimalText (layout : Layout) (decimal : Decimal) : List Char :=
  let leading :=
    decimal.exponent + (Nat.toDigits 10 decimal.significand).length - 1
  let digits := significantDigits decimal.significand
  if layout.leastPositional ≤ leading && leading ≤ layout.mostPositional then
    positional digits leading
  else
    layout.scientific digits leading

def signText (negative : Bool) (text : List Char) : String :=
  String.ofList (if negative then '-' :: text else text)

def numberText (layout : Layout) : Binary64 → String
  | .nan => layout.absent
  | .infinite negative => signText negative layout.infinite.toList
  | .finite negative magnitude =>
      signText negative <|
        if magnitude.units = 0 then ['0', '.', '0']
        else layout.decimalText (Decimal.shortest magnitude.units)

end Layout

/-- The text of a number. -/
def Binary64.text (number : Binary64) : String :=
  Layout.standard.numberText number

end Possibilistic
