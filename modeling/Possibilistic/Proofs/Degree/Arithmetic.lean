import Possibilistic.Proofs.Degree.Complement

/-!
# Degrees as numbers

A degree is recovered from its number.  The arithmetic of numbers agrees with
the complement of degrees, and gives a degree again for a quotient that is at
most one.
-/

namespace Possibilistic

namespace Degree

theorem ofBinary64?_toBinary64 (degree : Degree) :
    ofBinary64? degree.toBinary64 = some degree := by
  have bounded := degree.atMostOne
  simp only [toBinary64, ofBinary64?, dif_pos bounded]
  by_cases vanishing : degree.units = 0
  · rw [if_pos vanishing]
    congr 1
    apply ext_units
    · exact vanishing.symm
    · rfl
  · have sign : degree.negativeZero = false :=
      negativeZero_of_pos (Nat.pos_of_ne_zero vanishing)
    rw [if_neg vanishing, if_neg (by simp [sign])]
    congr 1
    apply ext_units
    · rfl
    · exact sign.symm

theorem toBinary64_of_ofBinary64? {number : Binary64} {degree : Degree}
    (known : ofBinary64? number = some degree) :
    degree.toBinary64 = number := by
  cases number with
  | nan => cases known
  | infinite negative => cases known
  | finite negative magnitude =>
      by_cases bounded : magnitude.units ≤ Binary64.unit
      · rw [ofBinary64?, dif_pos bounded] at known
        by_cases vanishing : magnitude.units = 0
        · rw [if_pos vanishing] at known
          cases known
          cases magnitude
          cases vanishing
          rfl
        · rw [if_neg vanishing] at known
          cases negative with
          | true => cases known
          | false =>
              cases known
              rfl
      · rw [ofBinary64?, dif_neg bounded] at known
        cases known

/-- Every number from zero to one is a degree. -/
theorem exists_ofBinary64?_eq_some {number : Binary64}
    (fromZero : Binary64.zero.le number = true)
    (toOne : number.le Binary64.one = true) :
    ∃ degree, ofBinary64? number = some degree := by
  cases number with
  | nan => cases fromZero
  | infinite negative =>
      cases negative with
      | true => cases fromZero
      | false => cases toOne
  | finite negative magnitude =>
      have notBelow : 0 ≤ Binary64.signed negative magnitude.units :=
        Std.isLE_compare.mp fromZero
      have notAbove :
          Binary64.signed negative magnitude.units ≤ Binary64.unit :=
        Std.isLE_compare.mp toOne
      cases negative with
      | false =>
          have bounded : magnitude.units ≤ Binary64.unit :=
            Int.ofNat_le.mp notAbove
          simp only [ofBinary64?, dif_pos bounded]
          split
          · exact ⟨_, rfl⟩
          · exact ⟨_, rfl⟩
      | true =>
          have vanishing : magnitude.units = 0 := by
            change 0 ≤ -(magnitude.units : Int) at notBelow
            omega
          have bounded : magnitude.units ≤ Binary64.unit := by omega
          simp only [ofBinary64?, dif_pos bounded, if_pos vanishing]
          exact ⟨_, rfl⟩

theorem signed_units (degree : Degree) :
    Binary64.signed degree.negativeZero degree.units = degree.units := by
  cases sign : degree.negativeZero with
  | false => rfl
  | true => simp [Binary64.signed, degree.units_of_negativeZero sign]

/-- Degrees have the order of their numbers. -/
theorem le_toBinary64_iff {left right : Degree} :
    left.toBinary64.le right.toBinary64 = true ↔ left ≤ right := by
  change (Ord.compare (Binary64.signed left.negativeZero left.units)
    (Binary64.signed right.negativeZero right.units)).isLE = true ↔ _
  rw [signed_units, signed_units, Std.isLE_compare, Int.ofNat_le]
  rfl

/-- A number is a degree when it is from zero to one. -/
theorem exists_ofBinary64?_eq_some_iff {number : Binary64} :
    (∃ degree, ofBinary64? number = some degree) ↔
      (Binary64.zero.le number && number.le Binary64.one) = true := by
  constructor
  · rintro ⟨degree, known⟩
    have fromZero : Degree.zero.toBinary64.le degree.toBinary64 = true :=
      le_toBinary64_iff.mpr (Nat.zero_le _)
    have toOne : degree.toBinary64.le Degree.one.toBinary64 = true :=
      le_toBinary64_iff.mpr degree.atMostOne
    rw [toBinary64_of_ofBinary64? known] at fromZero toOne
    exact Bool.and_eq_true_iff.mpr ⟨fromZero, toOne⟩
  · intro inRange
    obtain ⟨fromZero, toOne⟩ := Bool.and_eq_true_iff.mp inRange
    exact exists_ofBinary64?_eq_some fromZero toOne

/-- The complement is the difference that the numbers have. -/
theorem one_sub_toBinary64 (degree : Degree) :
    Binary64.one - degree.toBinary64 = degree.complement.toBinary64 := by
  have bounded := degree.atMostOne
  have inRange : Binary64.round (Binary64.unit - degree.units) 1 <
      Binary64.limit :=
    Nat.lt_of_le_of_lt degree.complement.atMostOne Binary64.unit_lt_limit
  have exact : Binary64.signed false Binary64.unit +
      Binary64.signed (!degree.negativeZero) degree.units =
        ((Binary64.unit - degree.units : Nat) : Int) := by
    cases sign : degree.negativeZero with
    | false => simp [Binary64.signed]; omega
    | true =>
        have := degree.units_of_negativeZero sign
        simp [Binary64.signed, this]
  change Binary64.add Binary64.one (Binary64.neg degree.toBinary64) = _
  simp only [toBinary64, Binary64.one, Binary64.neg, Binary64.add]
  rw [exact]
  by_cases full : Binary64.unit - degree.units = 0
  · have units : degree.complement.units = 0 := by
      rw [units_complement, full]
      exact Binary64.round_zero 1 Nat.one_pos
    simp [full, Binary64.ofQuotient, Binary64.round_zero 1 Nat.one_pos, Binary64.limit_pos, units]
    rfl
  · have positive : ¬((Binary64.unit - degree.units : Nat) : Int) = 0 := by
      omega
    rw [if_neg positive]
    simp only [Binary64.ofQuotient, Int.natAbs_natCast, dif_pos inRange]
    congr 1

/-- A quotient of degrees that is at most one is a degree. -/
theorem toBinary64_div {part whole : Degree}
    (partSign : part.negativeZero = false)
    (wholeSign : whole.negativeZero = false)
    (positive : 0 < whole.units)
    (bounded : part.units * Binary64.unit ≤ Binary64.unit * whole.units) :
    part.toBinary64 / whole.toBinary64 =
      (ofQuotient (part.units * Binary64.unit) whole.units positive
        bounded).toBinary64 := by
  have inRange : Binary64.round (part.units * Binary64.unit) whole.units <
      Binary64.limit :=
    Nat.lt_of_le_of_lt
      (ofQuotient (part.units * Binary64.unit) whole.units positive
        bounded).atMostOne Binary64.unit_lt_limit
  change Binary64.div part.toBinary64 whole.toBinary64 = _
  simp only [toBinary64, Binary64.div, partSign, wholeSign]
  rw [if_neg (Nat.ne_of_gt positive)]
  simp only [Binary64.ofQuotient, dif_pos inRange]
  rfl

theorem complement_pos_of_lt {contradiction degree : Degree}
    (above : contradiction < degree) : 0 < contradiction.complement.units := by
  apply pos_of_isZero_eq_false
  apply Bool.eq_false_iff.mpr
  intro vanishing
  have full := isOne_iff.mp (complement_isZero_iff.mp vanishing)
  have bounded := degree.atMostOne
  rw [lt_iff] at above
  omega

end Degree

end Possibilistic
