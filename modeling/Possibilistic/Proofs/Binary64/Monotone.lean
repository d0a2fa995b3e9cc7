import Possibilistic.Binary64.Basic

/-!
# Monotone rounding

A quotient over a fixed denominator rounds monotonically, and a representable
count rounds to itself.  The powers of two separate the ranges of one spacing,
so that two quotients of different spacing have a representable count between
them.
-/

namespace Possibilistic

namespace Binary64

/-- The spacing of a quotient divides every representable bound of the same
size, and otherwise a power of two between the two. -/
theorem exists_spacing_dvd_between {bound quotient : Nat} (nonzero : bound ≠ 0)
    (representable : Representable bound) (bounded : bound ≤ quotient) :
    ∃ multiple, bound ≤ multiple ∧ multiple ≤ quotient ∧
      spacing quotient ∣ multiple := by
  by_cases same : bound.log2 = quotient.log2
  · refine ⟨bound, Nat.le_refl _, bounded, ?_⟩
    have equality : spacing quotient = spacing bound := by
      simp only [spacing, same]
    rw [equality]
    exact Nat.dvd_of_mod_eq_zero representable
  · have quotient_pos : quotient ≠ 0 := by omega
    have smaller : bound.log2 < quotient.log2 := by
      have := log2_le_log2 bounded
      omega
    refine ⟨2 ^ quotient.log2, ?_, Nat.log2_self_le quotient_pos,
      Nat.pow_dvd_pow 2 (Nat.sub_le _ _)⟩
    exact Nat.le_of_lt ((Nat.log2_lt nonzero).mp smaller)

/-- Rounding never falls below a representable bound. -/
theorem le_round {numerator denominator bound : Nat}
    (positive : 0 < denominator) (representable : Representable bound)
    (bounded : bound * denominator ≤ numerator) :
    bound ≤ round numerator denominator := by
  have bound_le : bound ≤ numerator / denominator :=
    (Nat.le_div_iff_mul_le positive).mpr bounded
  by_cases vanishing : bound = 0
  · rw [vanishing]
    exact Nat.zero_le _
  · obtain ⟨multiple, bound_le_multiple, multiple_le, divides⟩ :=
      exists_spacing_dvd_between vanishing representable bound_le
    obtain ⟨steps, equality⟩ := divides
    unfold round
    dsimp only
    generalize spacing_equality :
      spacing (numerator / denominator) = step at *
    have step_positive : 0 < step := by
      rw [← spacing_equality]
      exact spacing_pos _
    have steps_le : steps ≤ nearest numerator (denominator * step) := by
      apply Nat.le_trans _ (le_nearest numerator (denominator * step))
      rw [← Nat.div_div_eq_div_mul]
      apply (Nat.le_div_iff_mul_le step_positive).mpr
      rw [Nat.mul_comm, ← equality]
      exact multiple_le
    calc
      bound ≤ multiple := bound_le_multiple
      _ = steps * step := by rw [equality, Nat.mul_comm]
      _ ≤ nearest numerator (denominator * step) * step :=
        Nat.mul_le_mul_right _ steps_le

theorem nearest_mono {small large : Nat} (denominator : Nat)
    (ordered : small ≤ large) :
    nearest small denominator ≤ nearest large denominator := by
  have quotients : small / denominator ≤ large / denominator :=
    Nat.div_le_div_right ordered
  by_cases same : small / denominator = large / denominator
  · have remainders : small % denominator ≤ large % denominator := by
      have smallParts := Nat.div_add_mod small denominator
      have largeParts := Nat.div_add_mod large denominator
      rw [same] at smallParts
      omega
    simp only [nearest, same]
    generalize large / denominator = quotient
    grind
  · have above := nearest_le_succ small denominator
    have below := le_nearest large denominator
    omega

/-- Over one denominator, rounding keeps the order. -/
theorem round_mono {small large denominator : Nat}
    (positive : 0 < denominator) (ordered : small ≤ large) :
    round small denominator ≤ round large denominator := by
  have quotients : small / denominator ≤ large / denominator :=
    Nat.div_le_div_right ordered
  by_cases same : spacing (small / denominator) = spacing (large / denominator)
  · rw [round, same]
    exact Nat.mul_le_mul_right _ (nearest_mono _ ordered)
  · -- The power of two at the larger quotient lies between the two.
    have quotient_pos : large / denominator ≠ 0 := by
      intro vanishing
      rw [vanishing] at quotients
      exact same (by rw [vanishing, Nat.le_zero.mp quotients])
    have smaller : (small / denominator).log2 < (large / denominator).log2 := by
      have := log2_le_log2 quotients
      apply Nat.lt_of_le_of_ne this
      intro equality
      exact same (by unfold spacing; rw [equality])
    have power_le := Nat.log2_self_le quotient_pos
    have lt_power : small / denominator < 2 ^ (large / denominator).log2 := by
      by_cases vanishing : small / denominator = 0
      · rw [vanishing]
        exact Nat.two_pow_pos _
      · exact (Nat.log2_lt vanishing).mp smaller
    calc
      round small denominator ≤ 2 ^ (large / denominator).log2 := by
        apply round_le positive (representable_two_pow _)
        exact Nat.le_of_lt ((Nat.div_lt_iff_lt_mul positive).mp lt_power)
      _ ≤ round large denominator := by
        apply le_round positive (representable_two_pow _)
        exact (Nat.le_div_iff_mul_le positive).mp power_le

theorem round_self {count : Nat} (representable : Representable count) :
    round count 1 = count :=
  Nat.le_antisymm
    (round_le Nat.one_pos representable (by omega))
    (le_round Nat.one_pos representable (by omega))

theorem round_zero (denominator : Nat) (positive : 0 < denominator) :
    round 0 denominator = 0 :=
  Nat.le_zero.mp (round_le positive representable_zero (by omega))

end Binary64

end Possibilistic
