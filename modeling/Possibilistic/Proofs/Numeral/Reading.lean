import Mathlib.Data.List.TakeDrop
import Possibilistic.Numeral.Reading

/-!
# Reading plain numerals

A numeral of ASCII characters that are neither blank nor separators is read as
it stands.  Its digits are split at the point and at the exponent, and they are
worth what the library's decimal digits are worth.
-/

namespace Possibilistic

-- Powers of natural numbers are those of the core library everywhere.
attribute [local instance (2000)] instPowNat

namespace Numeral

/-- The characters that reading leaves as they are. -/
def IsPlain (c : Char) : Prop :=
  c.toNat < 0x80 ∧ Text.isBlank c = false ∧ c ≠ '_'

instance (c : Char) : Decidable (IsPlain c) :=
  inferInstanceAs (Decidable (_ ∧ _))

theorem isPlain_of_isDigit {c : Char} (digit : c.isDigit = true) :
    IsPlain c := by
  obtain ⟨low, high⟩ : 48 ≤ c.toNat ∧ c.toNat ≤ 57 :=
    Char.isDigit_iff_toNat.mp digit
  refine ⟨by omega, ?_, ?_⟩
  · have notSpace : c ≠ ' ' := by
      rintro rfl
      simp at low
    simp [Text.isBlank, Text.wideBlanks, notSpace]
    omega
  · rintro rfl
    simp at high

theorem withoutSeparators?_of_plain {characters : List Char}
    (plain : ∀ c ∈ characters, IsPlain c) (digitBefore : Bool) :
    withoutSeparators? digitBefore characters = some characters := by
  induction characters generalizing digitBefore with
  | nil => rfl
  | cons c rest ih =>
      obtain ⟨headPlain, restPlain⟩ := List.forall_mem_cons.mp plain
      have separated : c ≠ '_' := headPlain.2.2
      rw [withoutSeparators?]
      · rw [ih restPlain]
        rfl
      · rintro rfl
        exact fun _ => separated rfl
      · intro next later equality
        exact fun _ => separated equality

theorem trimBlanks_of_plain {characters : List Char}
    (plain : ∀ c ∈ characters, IsPlain c) :
    Text.trimBlanks characters = characters := by
  have keeps : ∀ kept : List Char, (∀ c ∈ kept, IsPlain c) →
      kept.dropWhile Text.isBlank = kept := by
    intro kept keptPlain
    cases kept with
    | nil => rfl
    | cons c rest =>
        exact List.dropWhile_cons_of_neg
          (Bool.eq_false_iff.mp (keptPlain c List.mem_cons_self).2.1)
  rw [Text.trimBlanks, keeps characters plain, keeps characters.reverse,
    List.reverse_reverse]
  intro c member
  exact plain c (List.mem_reverse.mp member)

theorem canonical?_of_plain {characters : List Char}
    (plain : ∀ c ∈ characters, IsPlain c) :
    canonical? (String.ofList characters) = some characters := by
  have ascii : characters.map Text.asciiDigit = characters.map id :=
    List.map_congr_left fun c member => if_pos (plain c member).1
  rw [canonical?, String.toList_ofList, trimBlanks_of_plain plain, ascii,
    List.map_id, withoutSeparators?_of_plain plain]

theorem digitsValue_eq (digits : List Char) :
    digitsValue digits = Nat.ofDigitChars 10 digits 0 := by
  simp only [digitsValue, Nat.ofDigitChars, Nat.mul_comm]

theorem digitsValue_append_zeros (digits : List Char) (count : Nat) :
    digitsValue (digits ++ List.replicate count '0') =
      digitsValue digits * 10 ^ count := by
  rw [digitsValue_eq, Nat.ofDigitChars_append,
    Nat.ofDigitChars_replicate_zero, digitsValue_eq, Nat.mul_comm]

theorem digitsValue_zeros_append (count : Nat) (digits : List Char) :
    digitsValue (List.replicate count '0' ++ digits) = digitsValue digits := by
  rw [digitsValue_eq, Nat.ofDigitChars_append,
    Nat.ofDigitChars_replicate_zero, Nat.mul_zero, digitsValue_eq]

theorem digitsValue_toDigits (number : Nat) :
    digitsValue (Nat.toDigits 10 number) = number := by
  rw [digitsValue_eq, Nat.ofDigitChars_ten_toDigits]

/-- Digits in ASCII. -/
def AreDigits (characters : List Char) : Prop :=
  ∀ c ∈ characters, c.isDigit = true

theorem areDigits_toDigits (number : Nat) :
    AreDigits (Nat.toDigits 10 number) :=
  fun _ member =>
    Nat.isDigit_of_mem_toDigits (by omega) (by omega) member

theorem areDigits_zeros (count : Nat) :
    AreDigits (List.replicate count '0') := by
  intro c member
  rw [List.eq_of_mem_replicate member]
  rfl

theorem areDigits_append {left right : List Char} (leftDigits : AreDigits left)
    (rightDigits : AreDigits right) : AreDigits (left ++ right) :=
  List.forall_mem_append.mpr ⟨leftDigits, rightDigits⟩

theorem takeDigits_append {digits rest : List Char}
    (areDigits : AreDigits digits)
    (stops : ∀ c ∈ rest.head?, c.isDigit = false) :
    takeDigits (digits ++ rest) = (digits, rest) := by
  have restTaken : rest.takeWhile Char.isDigit = [] ∧
      rest.dropWhile Char.isDigit = rest := by
    cases rest with
    | nil => exact ⟨rfl, rfl⟩
    | cons c later =>
        have stop := stops c rfl
        simp [stop]
  rw [takeDigits, List.takeWhile_append_of_pos areDigits,
    List.dropWhile_append_of_pos areDigits, restTaken.1, restTaken.2,
    List.append_nil]

/-- An exponent with a sign. -/
theorem exponent?_of_digits {digits : List Char} (areDigits : AreDigits digits)
    (nonempty : digits ≠ []) (negative : Bool) :
    exponent? ('e' :: (if negative then '-' else '+') :: digits) =
      some (if negative then -(digitsValue digits : Int)
        else digitsValue digits) := by
  have taken : takeDigits (digits ++ []) = (digits, []) :=
    takeDigits_append areDigits (by simp)
  rw [List.append_nil] at taken
  cases negative <;>
    simp [exponent?, takeSign, taken, nonempty]

section

variable {whole fraction tail : List Char} {exponent : Int}
  (wholeDigits : AreDigits whole) (nonempty : whole ≠ [])
  (stops : ∀ c ∈ tail.head?, c.isDigit = false)
  (tailRead : exponent? tail = some exponent)

include wholeDigits nonempty stops tailRead

/-- A numeral with a point. -/
theorem decimal?_pointed (fractionDigits : AreDigits fraction)
    (negative : Bool) :
    decimal? negative (whole ++ '.' :: (fraction ++ tail)) =
      some (Decimal.round negative
        ⟨digitsValue (whole ++ fraction), exponent - fraction.length⟩) := by
  have wholeTaken : takeDigits (whole ++ '.' :: (fraction ++ tail)) =
      (whole, '.' :: (fraction ++ tail)) :=
    takeDigits_append wholeDigits (by simp)
  have fractionTaken := takeDigits_append fractionDigits stops
  simp [decimal?, wholeTaken, takeFraction, fractionTaken, nonempty, tailRead]

/-- A numeral without a point. -/
theorem decimal?_whole (unpointed : ∀ c ∈ tail.head?, c ≠ '.')
    (negative : Bool) :
    decimal? negative (whole ++ tail) =
      some (Decimal.round negative ⟨digitsValue whole, exponent⟩) := by
  have wholeTaken := takeDigits_append wholeDigits stops
  have noFraction : takeFraction tail = ([], tail) := by
    cases tail with
    | nil => rfl
    | cons c later =>
        have different : c ≠ '.' := unpointed c rfl
        rw [takeFraction]
        intro rest equality
        exact different (List.cons.inj equality).1
  simp [decimal?, wholeTaken, noFraction, nonempty, tailRead]

end

end Numeral

end Possibilistic
