import Possibilistic.Proofs.Binary64.Monotone

/-!
# Rounding a quotient near a representable count

Rounding depends on the quotient alone, not on how it is written.  A quotient
whose relative distance from a representable count is at most 5·10⁻¹⁷ rounds to
this count, and one that is below one half of a unit vanishes.
-/

namespace Possibilistic

-- Powers of natural numbers are those of the core library everywhere.
attribute [local instance (2000)] instPowNat

namespace Binary64

theorem nearest_scale {factor : Nat} (positive : 0 < factor)
    (numerator denominator : Nat) :
    nearest (numerator * factor) (denominator * factor) =
      nearest numerator denominator := by
  have quotient : numerator * factor / (denominator * factor) =
      numerator / denominator := Nat.mul_div_mul_right _ _ positive
  have remainder : numerator * factor % (denominator * factor) =
      numerator % denominator * factor := Nat.mul_mod_mul_right ..
  simp only [nearest, quotient, remainder, ← Nat.mul_assoc,
    Nat.mul_lt_mul_right positive]

theorem round_scale {factor : Nat} (positive : 0 < factor)
    (numerator denominator : Nat) :
    round (numerator * factor) (denominator * factor) =
      round numerator denominator := by
  have quotient : numerator * factor / (denominator * factor) =
      numerator / denominator := Nat.mul_div_mul_right _ _ positive
  simp only [round, quotient]
  rw [Nat.mul_right_comm, nearest_scale positive]

/-- Equal quotients round to the same count. -/
theorem round_congr {numerator denominator other otherDenominator : Nat}
    (positive : 0 < denominator) (otherPositive : 0 < otherDenominator)
    (same : numerator * otherDenominator = other * denominator) :
    round numerator denominator = round other otherDenominator := by
  rw [← round_scale otherPositive, same,
    Nat.mul_comm denominator otherDenominator, round_scale positive]

theorem round_eq_zero_of_lt {numerator denominator : Nat}
    (small : 2 * numerator < denominator) :
    round numerator denominator = 0 := by
  have quotient : numerator / denominator = 0 :=
    Nat.div_eq_of_lt (by omega)
  have remainder : numerator % denominator = numerator :=
    Nat.mod_eq_of_lt (by omega)
  have single : spacing 0 = 1 := spacing_eq_one (Nat.two_pow_pos 53)
  simp only [round, quotient, single, Nat.mul_one, nearest, remainder, small,
    ↓reduceIte]

theorem nearest_eq_of_near {numerator denominator target : Nat}
    (below : 2 * (target * denominator) < 2 * numerator + denominator)
    (above : 2 * numerator < 2 * (target * denominator) + denominator) :
    nearest numerator denominator = target := by
  have parts := Nat.div_add_mod numerator denominator
  rw [Nat.mul_comm] at parts
  by_cases reached : target * denominator ≤ numerator
  · have quotient : numerator / denominator = target := by
      apply Nat.div_eq_of_lt_le reached
      rw [Nat.succ_mul target denominator]
      omega
    rw [quotient] at parts
    have low : 2 * (numerator % denominator) < denominator := by omega
    simp only [nearest, quotient, low, ↓reduceIte]
  · obtain ⟨lower, rfl⟩ : ∃ lower, target = lower + 1 := by
      apply Nat.exists_eq_succ_of_ne_zero
      intro vanishing
      rw [vanishing, Nat.zero_mul] at reached
      omega
    rw [Nat.succ_mul lower denominator] at below above reached
    have quotient : numerator / denominator = lower := by
      apply Nat.div_eq_of_lt_le
      · omega
      · rw [Nat.succ_mul lower denominator]
        omega
    rw [quotient] at parts
    have notLow : ¬2 * (numerator % denominator) < denominator := by omega
    have high : denominator < 2 * (numerator % denominator) := by omega
    simp only [nearest, quotient, notLow, high, ↓reduceIte]

theorem nearest_mul_le {numerator denominator : Nat} :
    2 * (nearest numerator denominator * denominator) ≤
      2 * numerator + denominator := by
  have parts := Nat.div_add_mod numerator denominator
  rw [Nat.mul_comm] at parts
  simp only [nearest]
  split
  · omega
  · split
    · rw [Nat.succ_mul (numerator / denominator) denominator]
      omega
    · split
      · omega
      · rw [Nat.succ_mul (numerator / denominator) denominator]
        omega

theorem le_nearest_mul_add {numerator denominator : Nat}
    (positive : 0 < denominator) :
    2 * numerator ≤
      2 * (nearest numerator denominator * denominator) + denominator := by
  have parts := Nat.div_add_mod numerator denominator
  have remainder := Nat.mod_lt numerator positive
  rw [Nat.mul_comm] at parts
  simp only [nearest]
  split
  · omega
  · split
    · rw [Nat.succ_mul (numerator / denominator) denominator]
      omega
    · split
      · omega
      · rw [Nat.succ_mul (numerator / denominator) denominator]
        omega

/-- A count is rounded up by at most half of its spacing. -/
theorem round_le_add_half_spacing (count : Nat) :
    2 * round count 1 ≤ 2 * count + spacing count := by
  simp only [round, Nat.div_one, Nat.one_mul]
  exact nearest_mul_le

/-- A count is rounded down by at most half of its spacing. -/
theorem le_round_add_half_spacing (count : Nat) :
    2 * count ≤ 2 * round count 1 + spacing count := by
  simp only [round, Nat.div_one, Nat.one_mul]
  exact le_nearest_mul_add (spacing_pos count)

/-- A count has at most 53 bits at its spacing. -/
theorem lt_spacing_mul (count : Nat) :
    count < spacing count * (2 : Nat) ^ (53 : Nat) := by
  unfold spacing
  rw [← Nat.pow_add]
  exact Nat.lt_of_lt_of_le Nat.lt_log2_self
    (Nat.pow_le_pow_right (by omega) (by omega))

/-- The next representable count is not above the next power of two. -/
theorem add_spacing_le {count : Nat} (representable : Representable count) :
    count + spacing count ≤ (2 : Nat) ^ (count.log2 + 1) := by
  have below : count < (2 : Nat) ^ (count.log2 + 1) := Nat.lt_log2_self
  have powerDivides : spacing count ∣ (2 : Nat) ^ (count.log2 + 1) :=
    Nat.pow_dvd_pow 2 (by omega)
  have divides := Nat.dvd_sub powerDivides
    (Nat.dvd_of_mod_eq_zero representable)
  have := Nat.le_of_dvd (Nat.sub_pos_of_lt below) divides
  omega

section

variable {count numerator denominator error : Nat}
  (representable : Representable count)
  (denominatorPositive : 0 < denominator)
  (above : numerator ≤ count * denominator + error)
  (close : 2 * error * (10 : Nat) ^ (16 : Nat) ≤ count * denominator)

include representable denominatorPositive above close

/-- The quotient is too near the count to have a coarser spacing. -/
theorem spacing_dvd_of_near : spacing (numerator / denominator) ∣ count := by
  have divides := Nat.dvd_of_mod_eq_zero representable
  by_cases coarser : count.log2 < (numerator / denominator).log2
  · exfalso
    have quotientPositive : numerator / denominator ≠ 0 := by
      intro vanishing
      rw [vanishing] at coarser
      simp at coarser
    have power_le : (2 : Nat) ^ (count.log2 + 1) ≤ numerator / denominator :=
      Nat.le_trans (Nat.pow_le_pow_right (by omega) coarser)
        (Nat.log2_self_le quotientPositive)
    have next_le : (count + spacing count) * denominator ≤ numerator :=
      (Nat.le_div_iff_mul_le denominatorPositive).mp
        (Nat.le_trans (add_spacing_le representable) power_le)
    have bits : count * denominator <
        spacing count * denominator * (2 : Nat) ^ (53 : Nat) := by
      rw [Nat.mul_right_comm]
      exact Nat.mul_lt_mul_of_pos_right (lt_spacing_mul count)
        denominatorPositive
    rw [Nat.add_mul] at next_le
    generalize spacing count * denominator = step at *
    generalize count * denominator = whole at *
    omega
  · exact Nat.dvd_trans (Nat.pow_dvd_pow 2 (by omega)) divides

/-- A quotient near a representable count rounds to it. -/
theorem round_eq_of_near (positive : 0 < count)
    (below : count * denominator ≤ numerator + error) :
    round numerator denominator = count := by
  obtain ⟨steps, equality⟩ := spacing_dvd_of_near representable
    denominatorPositive above close
  have bits := lt_spacing_mul (numerator / denominator)
  have bounded : numerator < denominator *
      spacing (numerator / denominator) * (2 : Nat) ^ (53 : Nat) := by
    rw [Nat.mul_assoc, Nat.mul_comm denominator]
    exact (Nat.div_lt_iff_lt_mul denominatorPositive).mp bits
  have wholePositive := Nat.mul_pos positive denominatorPositive
  unfold round
  dsimp only
  generalize spacing (numerator / denominator) = step at *
  have whole : count * denominator = steps * (denominator * step) := by
    rw [equality, Nat.mul_comm step, Nat.mul_assoc, Nat.mul_comm step]
  have near : 2 * error < denominator * step := by
    generalize denominator * step = unit at *
    omega
  have found : nearest numerator (denominator * step) = steps :=
    nearest_eq_of_near (by omega) (by omega)
  rw [found, equality, Nat.mul_comm]

end

end Binary64

end Possibilistic
