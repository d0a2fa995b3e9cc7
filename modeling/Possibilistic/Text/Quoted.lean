import Possibilistic.Text.Printable

/-!
# Quoted text

Text inside a diagnostic stands between single quotes, or between double quotes
when it holds a single quote and no double quote.  Inside, a backslash and the
quote in use are escaped, and so is every character that is not printable.
-/

namespace Possibilistic

namespace Text

/-- The quotation mark that a text is written with. -/
def quoteOf (characters : List Char) : Char :=
  if characters.contains '\'' && !characters.contains '"' then '"' else '\''

/-- A number in so many lower-case hexadecimal digits. -/
def hexadecimal (width value : Nat) : List Char :=
  let digits := Nat.toDigits 16 value
  List.replicate (width - digits.length) '0' ++ digits

/-- A code point as the shortest of the three hexadecimal escapes. -/
def escapeCodePoint (value : Nat) : List Char :=
  if value < 0x100 then '\\' :: 'x' :: hexadecimal 2 value
  else if value < 0x10000 then '\\' :: 'u' :: hexadecimal 4 value
  else '\\' :: 'U' :: hexadecimal 8 value

def escape (quote : Char) (c : Char) : List Char :=
  if c = quote || c = '\\' then ['\\', c]
  else if c = '\n' then ['\\', 'n']
  else if c = '\r' then ['\\', 'r']
  else if c = '\t' then ['\\', 't']
  else if isPrintable c then [c]
  else escapeCodePoint c.toNat

def quoted (text : String) : String :=
  let characters := text.toList
  let quote := quoteOf characters
  String.ofList (quote :: characters.flatMap (escape quote) ++ [quote])

end Text

end Possibilistic
