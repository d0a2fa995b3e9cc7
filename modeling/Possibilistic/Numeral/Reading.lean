import Possibilistic.Numeral.Decimal
import Possibilistic.Text.Blank
import Possibilistic.Text.DecimalDigit

/-!
# Reading numbers

A written number may stand between blanks, may use the decimal digits of any
script, and may have single underscores between its digits.  A fractional
number has digits on at least one side of its point and an optional exponent,
or is one of the words for infinity and the absent number.
-/

namespace Possibilistic

namespace Numeral

/-- The characters without the separating underscores, if each of these stands
between two digits.  `digitBefore` tells whether a digit came just before. -/
def withoutSeparators? : (digitBefore : Bool) → List Char → Option (List Char)
  | _, [] => some []
  | _, ['_'] => none
  | digitBefore, '_' :: c :: rest =>
      if digitBefore && c.isDigit then withoutSeparators? false (c :: rest)
      else none
  | _, c :: rest => (c :: ·) <$> withoutSeparators? c.isDigit rest

/-- The characters of a written number in ASCII, without blanks around it and
without separators. -/
def canonical? (text : String) : Option (List Char) :=
  withoutSeparators? false
    ((Text.trimBlanks text.toList).map Text.asciiDigit)

/-- Takes the sign off. -/
def takeSign : List Char → Bool × List Char
  | '-' :: rest => (true, rest)
  | '+' :: rest => (false, rest)
  | rest => (false, rest)

def takeDigits (characters : List Char) : List Char × List Char :=
  (characters.takeWhile Char.isDigit, characters.dropWhile Char.isDigit)

/-- The number that ASCII digits write in base ten. -/
def digitsValue (digits : List Char) : Nat :=
  digits.foldl (fun value c => value * 10 + (c.toNat - '0'.toNat)) 0

/-- The digits after a point, if there is one, and the rest. -/
def takeFraction : List Char → List Char × List Char
  | '.' :: rest => takeDigits rest
  | rest => ([], rest)

/-- An exponent that reaches to the end, zero where there is none. -/
def exponent? : List Char → Option Int
  | [] => some 0
  | marker :: rest =>
      if marker = 'e' || marker = 'E' then
        let (negative, rest) := takeSign rest
        let (digits, rest) := takeDigits rest
        if digits.isEmpty || !rest.isEmpty then none
        else
          some (if negative then -(digitsValue digits : Int)
            else digitsValue digits)
      else none

/-- A word for infinity or for the absent number. -/
def special? (negative : Bool) (characters : List Char) : Option Binary64 :=
  match String.ofList (characters.map Char.toLower) with
  | "inf" => some (.infinite negative)
  | "infinity" => some (.infinite negative)
  | "nan" => some .nan
  | _ => none

/-- An unsigned decimal. -/
def decimal? (negative : Bool) (characters : List Char) : Option Binary64 :=
  let (whole, afterWhole) := takeDigits characters
  let (fraction, afterFraction) := takeFraction afterWhole
  if whole.isEmpty && fraction.isEmpty then none
  else do
    let exponent ← exponent? afterFraction
    pure (Decimal.round negative
      ⟨digitsValue (whole ++ fraction), exponent - fraction.length⟩)

/-- Reads a fractional number. -/
def number? (text : String) : Option Binary64 := do
  let (negative, unsigned) := takeSign (← canonical? text)
  decimal? negative unsigned <|> special? negative unsigned

/-- The most digits an integer may be read from. -/
def integerDigitLimit : Nat := 4300

/-- Reads an integer. -/
def integer? (text : String) : Option Int := do
  let (negative, digits) := takeSign (← canonical? text)
  if digits.isEmpty || !digits.all Char.isDigit ||
      integerDigitLimit < digits.length then none
  else
    some (if negative then -(digitsValue digits : Int)
      else digitsValue digits)

end Numeral

end Possibilistic
