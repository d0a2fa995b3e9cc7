import Mathlib.Data.List.TakeWhile
import Possibilistic.Numeral.Layout
import Possibilistic.Proofs.Numeral.Reading
import Possibilistic.Proofs.Numeral.Shortest

/-!
# The text of a number reads as the number

The layout writes the significant digits of the shortest decimal around a point
or before an exponent, and leaves its trailing zeros out.  Either way reading
the text finds a decimal of the same value.  Main statement: every number is
read from its text, the sign of zero included.
-/

namespace Possibilistic

-- Powers of natural numbers are those of the core library everywhere.
attribute [local instance (2000)] instPowNat

namespace Layout

open Numeral

/-- An unsigned text whose reading has the value of the decimal. -/
structure Writes (text : List Char) (decimal : Decimal) : Prop where
  plain : ∀ c ∈ text, IsPlain c
  starts : ∃ c ∈ text.head?, c.isDigit = true
  reads : ∀ negative, ∃ found : Decimal, found.value = decimal.value ∧
    decimal? negative text = some (found.round negative)

theorem Writes.congr {text : List Char} {left right : Decimal}
    (writes : Writes text left) (same : left.value = right.value) :
    Writes text right where
  plain := writes.plain
  starts := writes.starts
  reads := same ▸ writes.reads

theorem plain_of_areDigits {digits : List Char} (areDigits : AreDigits digits) :
    ∀ c ∈ digits, IsPlain c :=
  fun c member => isPlain_of_isDigit (areDigits c member)

theorem starts_of_areDigits {digits rest : List Char}
    (areDigits : AreDigits digits) (nonempty : digits ≠ []) :
    ∃ c ∈ (digits ++ rest).head?, c.isDigit = true := by
  cases digits with
  | nil => exact absurd rfl nonempty
  | cons c later => exact ⟨c, rfl, areDigits c List.mem_cons_self⟩

theorem toDigits_eq_significantDigits (significand : Nat) :
    ∃ zeros, Nat.toDigits 10 significand =
      significantDigits significand ++ List.replicate zeros '0' := by
  let reversed := (Nat.toDigits 10 significand).reverse
  refine ⟨(reversed.takeWhile (· == '0')).length, ?_⟩
  have zeros : reversed.takeWhile (· == '0') =
      List.replicate (reversed.takeWhile (· == '0')).length '0' := by
    apply List.eq_replicate_of_mem
    intro c member
    have isZero := List.mem_takeWhile_imp member
    exact beq_iff_eq.mp isZero
  calc
    Nat.toDigits 10 significand = reversed.reverse :=
      (List.reverse_reverse _).symm
    _ = (reversed.takeWhile (· == '0') ++
        reversed.dropWhile (· == '0')).reverse := by
      rw [List.takeWhile_append_dropWhile]
    _ = significantDigits significand ++
        (reversed.takeWhile (· == '0')).reverse := List.reverse_append
    _ = _ := by rw [zeros, List.reverse_replicate, List.length_replicate]

theorem areDigits_significantDigits (significand : Nat) :
    AreDigits (significantDigits significand) := by
  obtain ⟨zeros, digits⟩ := toDigits_eq_significantDigits significand
  have all := areDigits_toDigits significand
  rw [digits] at all
  exact (List.forall_mem_append.mp all).1

theorem digitsValue_significantDigits {significand zeros : Nat}
    (digits : Nat.toDigits 10 significand =
      significantDigits significand ++ List.replicate zeros '0') :
    digitsValue (significantDigits significand) * 10 ^ zeros =
      significand := by
  have value := digitsValue_toDigits significand
  rwa [digits, digitsValue_append_zeros] at value

theorem significantDigits_ne_nil {significand : Nat}
    (positive : significand ≠ 0) : significantDigits significand ≠ [] := by
  intro empty
  obtain ⟨zeros, digits⟩ := toDigits_eq_significantDigits significand
  have value := digitsValue_significantDigits digits
  rw [empty] at value
  simp [digitsValue] at value
  exact positive value.symm

/-- The decimal of significant digits, of which the first has this exponent. -/
def leadingDecimal (digits : List Char) (leading : Int) : Decimal :=
  ⟨digitsValue digits, leading + 1 - digits.length⟩

theorem value_leadingDecimal (decimal : Decimal) :
    (leadingDecimal (significantDigits decimal.significand)
      (decimal.exponent +
        (Nat.toDigits 10 decimal.significand).length - 1)).value =
      decimal.value := by
  obtain ⟨zeros, digits⟩ :=
    toDigits_eq_significantDigits decimal.significand
  have value := digitsValue_significantDigits digits
  have exponent : decimal.exponent +
      (Nat.toDigits 10 decimal.significand).length - 1 + 1 -
        (significantDigits decimal.significand).length =
      decimal.exponent + zeros := by
    rw [digits, List.length_append, List.length_replicate]
    push_cast
    omega
  rw [leadingDecimal, exponent, ← Decimal.value_shift, value]

section

variable {whole tail : List Char} {exponent : Int} {decimal : Decimal}
  (wholeDigits : AreDigits whole) (nonempty : whole ≠ [])
  (tailPlain : ∀ c ∈ tail, IsPlain c)
  (stops : ∀ c ∈ tail.head?, c.isDigit = false)
  (tailRead : exponent? tail = some exponent)

include wholeDigits nonempty tailPlain stops tailRead

theorem writes_pointed {fraction : List Char}
    (fractionDigits : AreDigits fraction)
    (value : (Decimal.mk (digitsValue (whole ++ fraction))
      (exponent - fraction.length)).value = decimal.value) :
    Writes (whole ++ '.' :: (fraction ++ tail)) decimal where
  plain := by
    have point : IsPlain '.' := by decide
    simp only [List.forall_mem_append, List.forall_mem_cons]
    exact ⟨plain_of_areDigits wholeDigits, point,
      plain_of_areDigits fractionDigits, tailPlain⟩
  starts := starts_of_areDigits wholeDigits nonempty
  reads negative :=
    ⟨_, value, decimal?_pointed wholeDigits nonempty stops tailRead
      fractionDigits negative⟩

theorem writes_unpointed (unpointed : ∀ c ∈ tail.head?, c ≠ '.')
    (value : (Decimal.mk (digitsValue whole) exponent).value =
      decimal.value) :
    Writes (whole ++ tail) decimal where
  plain := List.forall_mem_append.mpr
    ⟨plain_of_areDigits wholeDigits, tailPlain⟩
  starts := starts_of_areDigits wholeDigits nonempty
  reads negative :=
    ⟨_, value, decimal?_whole wholeDigits nonempty stops tailRead unpointed
      negative⟩

end

theorem writes_fractional {whole fraction : List Char} {decimal : Decimal}
    (wholeDigits : AreDigits whole) (nonempty : whole ≠ [])
    (fractionDigits : AreDigits fraction)
    (value : (Decimal.mk (digitsValue (whole ++ fraction))
      (-(fraction.length : Int))).value = decimal.value) :
    Writes (whole ++ '.' :: fraction) decimal := by
  have noTail : exponent? [] = some 0 := rfl
  have writes : Writes (whole ++ '.' :: (fraction ++ [])) decimal :=
    writes_pointed wholeDigits nonempty (by simp) (by simp) noTail
      fractionDigits (by rwa [Int.zero_sub])
  rwa [List.append_nil] at writes

section

variable {digits : List Char} (areDigits : AreDigits digits)
  (nonempty : digits ≠ [])

include areDigits nonempty

theorem writes_positional (leading : Int) :
    Writes (positional digits leading) (leadingDecimal digits leading) := by
  have single : AreDigits ['0'] := areDigits_zeros 1
  unfold positional
  split
  · rename_i below
    let zeros := List.replicate (-leading - 1).toNat '0'
    change Writes (['0'] ++ '.' :: (zeros ++ digits)) _
    apply writes_fractional single (by simp)
      (areDigits_append (areDigits_zeros _) areDigits)
    have value : digitsValue (['0'] ++ (zeros ++ digits)) =
        digitsValue digits := by
      rw [← List.append_assoc, ← List.replicate_one,
        List.replicate_append_replicate, digitsValue_zeros_append]
    have exponent : -((zeros ++ digits).length : Int) =
        leading + 1 - digits.length := by
      rw [List.length_append, List.length_replicate]
      omega
    rw [value, exponent, leadingDecimal]
  · rename_i notBelow
    dsimp only
    generalize count_eq : leading.toNat + 1 = count
    have takenDigits : AreDigits (digits.take count) :=
      fun c member => areDigits c (List.mem_of_mem_take member)
    have takenNonempty : digits.take count ≠ [] := by
      simp [← count_eq, nonempty]
    have wholeDigits : AreDigits
        (digits.take count ++ List.replicate (count - digits.length) '0') :=
      areDigits_append takenDigits (areDigits_zeros _)
    have wholeNonempty :
        digits.take count ++ List.replicate (count - digits.length) '0' ≠
          [] := List.append_ne_nil_of_left_ne_nil takenNonempty _
    by_cases short : digits.length ≤ count
    · have nothing : digits.drop count = [] := List.drop_of_length_le short
      rw [nothing]
      apply writes_fractional wholeDigits wholeNonempty single
      have padded : digits.take count ++
          List.replicate (count - digits.length) '0' ++ ['0'] =
            digits ++ List.replicate (count - digits.length + 1) '0' := by
        rw [List.take_of_length_le short, List.append_assoc,
          List.replicate_succ']
      have exponent : -((['0'].length : Nat) : Int) +
          ((count - digits.length + 1 : Nat) : Int) =
            leading + 1 - digits.length := by
        rw [List.length_singleton]
        omega
      rw [padded, digitsValue_append_zeros, Decimal.value_shift, exponent,
        leadingDecimal]
    · have something : (digits.drop count).isEmpty = false := by
        simp
        omega
      have noZeros : count - digits.length = 0 := by omega
      rw [something]
      apply writes_fractional wholeDigits wholeNonempty
        (fun c member => areDigits c (List.mem_of_mem_drop member))
      have exponent : -((digits.drop count).length : Int) =
          leading + 1 - digits.length := by
        rw [List.length_drop]
        omega
      rw [noZeros, List.replicate_zero, List.append_nil,
        List.take_append_drop, exponent, leadingDecimal]

theorem writes_scientific (layout : Layout) (leading : Int) :
    Writes (layout.scientific digits leading)
      (leadingDecimal digits leading) := by
  let written := List.replicate (layout.exponentDigits -
    (Nat.toDigits 10 leading.natAbs).length) '0' ++
      Nat.toDigits 10 leading.natAbs
  let tail := 'e' :: (if leading < 0 then '-' else '+') :: written
  have writtenDigits : AreDigits written :=
    areDigits_append (areDigits_zeros _) (areDigits_toDigits _)
  have writtenNonempty : written ≠ [] :=
    List.append_ne_nil_of_right_ne_nil _ Nat.toDigits_ne_nil
  have writtenValue : digitsValue written = leading.natAbs := by
    rw [digitsValue_zeros_append, digitsValue_toDigits]
  have tailPlain : ∀ c ∈ tail, IsPlain c := by
    have marker : IsPlain 'e' := by decide
    have sign : IsPlain (if leading < 0 then '-' else '+') := by
      split <;> decide
    simp only [tail, List.forall_mem_cons]
    exact ⟨marker, sign, plain_of_areDigits writtenDigits⟩
  have stops : ∀ c ∈ tail.head?, c.isDigit = false := by simp [tail]
  have unpointed : ∀ c ∈ tail.head?, c ≠ '.' := by simp [tail]
  have tailRead : exponent? tail = some leading := by
    have read := exponent?_of_digits writtenDigits writtenNonempty
      (decide (leading < 0))
    simp only [decide_eq_true_eq, writtenValue] at read
    rw [read]
    congr 1
    split <;> omega
  unfold scientific
  dsimp only
  rw [List.append_assoc]
  change Writes (_ ++ tail) _
  cases digits with
  | nil => exact absurd rfl nonempty
  | cons first rest =>
      obtain ⟨firstDigit, restDigits⟩ := List.forall_mem_cons.mp areDigits
      have single : AreDigits [first] := by
        simpa [AreDigits] using firstDigit
      cases rest with
      | nil =>
          apply writes_unpointed single (by simp) tailPlain stops tailRead
            unpointed
          rw [leadingDecimal, List.length_singleton, Nat.cast_one,
            Int.add_sub_cancel]
      | cons second later =>
          apply writes_pointed single (by simp) tailPlain stops tailRead
            restDigits
          have exponent : leading - ((second :: later).length : Int) =
              leading + 1 - (first :: second :: later).length := by
            simp only [List.length_cons]
            omega
          rw [List.singleton_append, exponent, leadingDecimal]

end

/-- The text of a positive decimal, in whatever layout. -/
theorem writes_decimalText (layout : Layout) {decimal : Decimal}
    (positive : decimal.significand ≠ 0) :
    Writes (layout.decimalText decimal) decimal := by
  have areDigits := areDigits_significantDigits decimal.significand
  have nonempty := significantDigits_ne_nil positive
  have value := value_leadingDecimal decimal
  unfold decimalText
  dsimp only
  split
  · exact (writes_positional areDigits nonempty _).congr value
  · exact (writes_scientific areDigits nonempty layout _).congr value

theorem number?_signText {text : List Char} {decimal : Decimal}
    {magnitude : Magnitude} (writes : Writes text decimal)
    (positive : 0 < magnitude.units)
    (back : Decimal.readsBack magnitude.units decimal = true)
    (negative : Bool) :
    number? (signText negative text) = some (.finite negative magnitude) := by
  obtain ⟨found, value, read⟩ := writes.reads negative
  have foundBack := Decimal.readsBack_congr value.symm back
  rw [Decimal.round_of_readsBack positive foundBack] at read
  obtain ⟨first, inHead, digit⟩ := writes.starts
  have notMinus : first ≠ '-' := by
    rintro rfl
    cases digit
  have notPlus : first ≠ '+' := by
    rintro rfl
    cases digit
  have signPlain : ∀ c ∈ (if negative then '-' :: text else text),
      IsPlain c := by
    have minus : IsPlain '-' := by decide
    split
    · exact List.forall_mem_cons.mpr ⟨minus, writes.plain⟩
    · exact writes.plain
  have signTaken : takeSign (if negative then '-' :: text else text) =
      (negative, text) := by
    cases text with
    | nil => cases inHead
    | cons c rest =>
        cases inHead
        cases negative
        · simp [takeSign, notMinus, notPlus]
        · rfl
  rw [number?, signText, canonical?_of_plain signPlain]
  simp only [Option.bind_eq_bind, Option.bind_some, signTaken, read]
  rfl

end Layout

namespace Numeral

/-- Every number is read from its text. -/
theorem number?_text (number : Binary64) :
    number? number.text = some number := by
  cases number with
  | nan => decide +kernel
  | infinite negative => cases negative <;> decide +kernel
  | finite negative magnitude =>
      unfold Binary64.text Layout.numberText
      dsimp only
      split
      · rename_i vanishing
        obtain ⟨units, representable, bounded⟩ := magnitude
        simp only at vanishing
        subst vanishing
        have read : number? (Layout.signText negative ['0', '.', '0']) =
            some (.finite negative
              ⟨0, Binary64.representable_zero, Binary64.limit_pos⟩) := by
          cases negative <;> decide +kernel
        exact read
      · rename_i nonzero
        have positive := Nat.pos_of_ne_zero nonzero
        have back := Decimal.readsBack_shortest magnitude.representable
          positive magnitude.bounded
        exact Layout.number?_signText
          (Layout.writes_decimalText _
            (Decimal.significand_ne_zero positive back))
          positive back negative

end Numeral

end Possibilistic
