/-!
# Rounding to binary64 magnitudes

A magnitude counts units of 2⁻¹⁰⁷⁴, the least positive binary64 number.  A
count is representable when it has at most 53 significant bits.  A quotient is
rounded to the nearest representable count, an exact half going to the even
neighbour.  Main statements: the rounded count is representable, and it does
not pass a representable bound of the quotient.
-/

namespace Possibilistic

-- Powers of natural numbers are those of the core library everywhere.
attribute [local instance (2000)] instPowNat

namespace Binary64

/-- The distance between neighbouring magnitudes just above `count` units. -/
def spacing (count : Nat) : Nat :=
  2 ^ (count.log2 - 52)

/-- The count fits in 53 significant bits. -/
def Representable (count : Nat) : Prop :=
  count % spacing count = 0

instance (count : Nat) : Decidable (Representable count) :=
  inferInstanceAs (Decidable (count % spacing count = 0))

/-- The whole number nearest to a quotient; an exact half goes to the even
neighbour. -/
def nearest (numerator denominator : Nat) : Nat :=
  let quotient := numerator / denominator
  let twice := 2 * (numerator % denominator)
  if twice < denominator then quotient
  else if denominator < twice then quotient + 1
  else if quotient % 2 = 0 then quotient
  else quotient + 1

/-- The representable count nearest to a quotient; an exact half goes to the
neighbour whose last significant bit is zero. -/
def round (numerator denominator : Nat) : Nat :=
  let step := spacing (numerator / denominator)
  nearest numerator (denominator * step) * step

theorem spacing_pos (count : Nat) : 0 < spacing count :=
  Nat.two_pow_pos _

theorem spacing_eq_one {count : Nat} (small : count < (2 : Nat) ^ (53 : Nat)) :
    spacing count = 1 := by
  unfold spacing
  by_cases zero : count = 0
  · subst zero
    rfl
  · have bits : count.log2 < 53 := (Nat.log2_lt zero).mpr small
    have none : count.log2 - 52 = 0 := by omega
    rw [none, Nat.pow_zero]

theorem log2_le_log2 {small large : Nat} (ordered : small ≤ large) :
    small.log2 ≤ large.log2 := by
  by_cases zero : small = 0
  · subst zero
    simp
  · have positive : large ≠ 0 := by omega
    exact (Nat.le_log2 positive).mpr
      (Nat.le_trans (Nat.log2_self_le zero) ordered)

theorem spacing_dvd_spacing {small large : Nat} (ordered : small ≤ large) :
    spacing small ∣ spacing large :=
  Nat.pow_dvd_pow 2 (by have := log2_le_log2 ordered; omega)

theorem representable_of_lt {count : Nat} (small : count < (2 : Nat) ^ (53 : Nat)) :
    Representable count := by
  unfold Representable
  rw [spacing_eq_one small, Nat.mod_one]

theorem representable_two_pow (exponent : Nat) :
    Representable (2 ^ exponent) := by
  unfold Representable spacing
  rw [Nat.log2_two_pow]
  exact Nat.mod_eq_zero_of_dvd (Nat.pow_dvd_pow 2 (Nat.sub_le _ _))

theorem representable_two_pow_mul_two (exponent : Nat) :
    Representable (2 ^ exponent * 2) := by
  rw [← Nat.pow_succ]
  exact representable_two_pow (exponent + 1)

theorem nearest_le_succ (numerator denominator : Nat) :
    nearest numerator denominator ≤ numerator / denominator + 1 := by
  unfold nearest
  dsimp only
  split <;> (try split) <;> (try split) <;> omega

theorem le_nearest (numerator denominator : Nat) :
    numerator / denominator ≤ nearest numerator denominator := by
  unfold nearest
  dsimp only
  split <;> (try split) <;> (try split) <;> omega

theorem nearest_le {numerator denominator bound : Nat}
    (positive : 0 < denominator)
    (bounded : numerator ≤ bound * denominator) :
    nearest numerator denominator ≤ bound := by
  have split := Nat.div_add_mod numerator denominator
  have quotient_le : numerator / denominator ≤ bound :=
    Nat.div_le_of_le_mul (by rw [Nat.mul_comm]; exact bounded)
  by_cases reached : numerator / denominator = bound
  · have exact : numerator % denominator = 0 := by
      rw [reached, Nat.mul_comm] at split
      omega
    unfold nearest
    simp only [exact, reached, Nat.mul_zero, positive, ↓reduceIte, Nat.le_refl]
  · have := nearest_le_succ numerator denominator
    omega

/-- Rounding never passes a representable bound. -/
theorem round_le {numerator denominator bound : Nat}
    (positive : 0 < denominator) (representable : Representable bound)
    (bounded : numerator ≤ bound * denominator) :
    round numerator denominator ≤ bound := by
  unfold round
  dsimp only
  have quotient_le : numerator / denominator ≤ bound :=
    Nat.div_le_of_le_mul (by rw [Nat.mul_comm]; exact bounded)
  have divides : spacing (numerator / denominator) ∣ bound :=
    Nat.dvd_trans (spacing_dvd_spacing quotient_le)
      (Nat.dvd_of_mod_eq_zero representable)
  obtain ⟨steps, equality⟩ := divides
  generalize spacing_equality : spacing (numerator / denominator) = step at *
  have step_positive : 0 < step := by
    rw [← spacing_equality]
    exact spacing_pos _
  have close : nearest numerator (denominator * step) ≤ steps := by
    apply nearest_le (Nat.mul_pos positive step_positive)
    calc
      numerator ≤ bound * denominator := bounded
      _ = steps * (denominator * step) := by
        rw [equality, Nat.mul_comm step steps, Nat.mul_assoc,
          Nat.mul_comm step denominator]
  calc
    nearest numerator (denominator * step) * step ≤ steps * step :=
      Nat.mul_le_mul_right _ close
    _ = bound := by rw [equality, Nat.mul_comm]

theorem representable_mul_two_pow {significand exponent : Nat}
    (small : significand ≤ (2 : Nat) ^ (53 : Nat)) :
    Representable (significand * 2 ^ exponent) := by
  by_cases full : significand = 2 ^ 53
  · rw [full, ← Nat.pow_add]
    exact representable_two_pow _
  · by_cases zero : significand = 0
    · rw [zero, Nat.zero_mul]
      exact representable_of_lt (Nat.two_pow_pos _)
    · unfold Representable spacing
      have bits : (significand * 2 ^ exponent).log2 < 53 + exponent := by
        apply (Nat.log2_lt (Nat.mul_ne_zero zero
          (Nat.ne_of_gt (Nat.two_pow_pos _)))).mpr
        rw [Nat.pow_add]
        exact Nat.mul_lt_mul_of_pos_right (by omega) (Nat.two_pow_pos _)
      exact Nat.mod_eq_zero_of_dvd
        (Nat.dvd_trans (Nat.pow_dvd_pow 2 (by omega))
          (Nat.dvd_mul_left _ _))

/-- Rounding gives a representable count. -/
theorem representable_round (numerator denominator : Nat) :
    Representable (round numerator denominator) := by
  unfold round
  dsimp only
  generalize quotient_equality : numerator / denominator = quotient
  unfold spacing
  apply representable_mul_two_pow
  have near := nearest_le_succ numerator
    (denominator * 2 ^ (quotient.log2 - 52))
  rw [← Nat.div_div_eq_div_mul, quotient_equality] at near
  have below : quotient / 2 ^ (quotient.log2 - 52) < 2 ^ 53 := by
    apply (Nat.div_lt_iff_lt_mul (Nat.two_pow_pos _)).mpr
    rw [← Nat.pow_add]
    exact Nat.lt_of_lt_of_le Nat.lt_log2_self
      (Nat.pow_le_pow_right (by omega) (by omega))
  omega

end Binary64

end Possibilistic
