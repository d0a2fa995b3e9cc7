/-!
# Blank characters

The characters that may surround a written number: the ASCII tabulators, line
ends and space, and the spaces of Unicode.  The zero-width space, the byte
order mark and the ASCII separators are not blank.
-/

namespace Possibilistic

namespace Text

/-- Blank characters outside ASCII, as inclusive ranges of code points. -/
def wideBlanks : List (Nat × Nat) :=
  [(0x85, 0x85), (0xa0, 0xa0), (0x1680, 0x1680), (0x2000, 0x200a),
   (0x2028, 0x2029), (0x202f, 0x202f), (0x205f, 0x205f), (0x3000, 0x3000)]

def isBlank (c : Char) : Bool :=
  c == ' ' || (0x9 ≤ c.toNat && c.toNat ≤ 0xd) ||
    wideBlanks.any fun range => range.1 ≤ c.toNat && c.toNat ≤ range.2

/-- The characters between the surrounding blanks. -/
def trimBlanks (characters : List Char) : List Char :=
  ((characters.dropWhile isBlank).reverse.dropWhile isBlank).reverse

theorem isBlank_of_isWhitespace {c : Char} (blank : c.isWhitespace = true) :
    isBlank c = true := by
  simp only [Char.isWhitespace, Bool.or_eq_true,
    decide_eq_true_eq] at blank
  rcases blank with (((rfl | rfl) | rfl) | rfl) <;> rfl

end Text

end Possibilistic
