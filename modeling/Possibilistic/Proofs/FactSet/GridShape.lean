import Possibilistic.Proofs.Degree.Arithmetic
import Possibilistic.Proofs.FactSet.GridNumbers

/-!
# The grid of an admitted step

A step that is admitted is a number above zero and at most one.  Its grid exists
unless the quotient of one and the step leaves the range, and consists of
degrees that ascend from zero and of a last number, which is a degree as well
unless it is above one.
-/

namespace Possibilistic

-- Powers of natural numbers are those of the core library everywhere.
attribute [local instance (2000)] instPowNat

theorem Magnitude.ext_units {left right : Magnitude}
    (units : left.units = right.units) : left = right := by
  cases left
  cases right
  simp only at units
  subst units
  rfl

namespace Binary64

theorem exists_ofQuotient {negative : Bool} {numerator denominator : Nat}
    (inRange : round numerator denominator < limit) :
    ∃ magnitude : Magnitude,
      ofQuotient negative numerator denominator =
          .finite negative magnitude ∧
        magnitude.units = round numerator denominator :=
  ⟨_, dif_pos inRange, rfl⟩

theorem add_finite {left right : Magnitude} (positive : 0 < left.units) :
    Binary64.finite false left + Binary64.finite false right =
      ofQuotient false (left.units + right.units) 1 := by
  change (if signed false left.units + signed false right.units = 0 then
    ofQuotient (false && false) 0 1
  else
    ofQuotient (decide (signed false left.units + signed false right.units < 0))
      (signed false left.units + signed false right.units).natAbs 1) = _
  have sum : signed false left.units + signed false right.units =
      ((left.units + right.units : Nat) : Int) :=
    rfl
  have nonnegative : ¬((left.units + right.units : Nat) : Int) < 0 := by omega
  rw [sum, if_neg (by omega), decide_eq_false nonnegative, Int.natAbs_natCast]

theorem exists_ofInt? {count : Nat}
    (inRange : round (unit * count) 1 < limit) :
    ∃ magnitude : Magnitude, ofInt? count = some (.finite false magnitude) ∧
      magnitude.units = round (unit * count) 1 := by
  obtain ⟨magnitude, equality, units⟩ := exists_ofQuotient inRange
  have nonnegative : ¬(count : Int) < 0 := by omega
  refine ⟨magnitude, ?_, units⟩
  rw [ofInt?, decide_eq_false nonnegative, Int.natAbs_natCast, equality]

theorem le_finite_iff {left right : Magnitude} :
    (Binary64.finite false left).le (.finite false right) = true ↔
      left.units ≤ right.units := by
  change (Ord.compare (left.units : Int) (right.units : Int)).isLE = true ↔ _
  rw [Std.isLE_compare, Int.ofNat_le]

theorem lt_finite_iff {left right : Magnitude} :
    (Binary64.finite false left).lt (.finite false right) = true ↔
      left.units < right.units := by
  change (some (Ord.compare (left.units : Int) (right.units : Int)) ==
    some .lt) = true ↔ _
  rw [beq_iff_eq, Option.some_inj, Int.compare_eq_lt, Int.ofNat_lt]

theorem le_of_lt {left right : Binary64} (less : left.lt right = true) :
    left.le right = true := by
  have order : compare? left right = some .lt := beq_iff_eq.mp less
  rw [le, order]
  rfl

theorem floor?_finite (magnitude : Magnitude) :
    floor? (.finite false magnitude) =
      some ((magnitude.units / unit : Nat) : Int) :=
  congrArg some (Int.ofNat_fdiv magnitude.units unit).symm

end Binary64

namespace FactSet

open Binary64

private theorem exists_units_of_between {place : Option Extent}
    (above : compareExtents? (some (.at 0)) place = some .lt)
    (below : compareExtents? place (some (.ofInt 1)) = some .lt ∨
      compareExtents? place (some (.ofInt 1)) = some .eq) :
    ∃ units : Int, place = some (.at units) ∧ 0 < units ∧ units ≤ unit := by
  rcases place with _ | _ | units | _
  · cases above
  · cases above
  · refine ⟨units, rfl, Int.compare_eq_lt.mp (Option.some.inj above), ?_⟩
    have reached : units ≤ 1 * unit := by
      rcases below with less | equal
      · exact Int.le_of_lt (Int.compare_eq_lt.mp (Option.some.inj less))
      · exact Int.le_of_eq (Int.compare_eq_eq.mp (Option.some.inj equal))
    omega
  · rcases below with less | equal
    · cases less
    · cases equal

private theorem exists_ofInt?_one :
    ∃ magnitude : Magnitude, ofInt? 1 = some (.finite false magnitude) ∧
      magnitude.units = unit := by
  have kept : round (unit * 1) 1 = unit := by
    rw [Nat.mul_one]
    exact round_self representable_unit
  have inRange : round (unit * 1) 1 < limit := kept.symm ▸ unit_lt_limit
  obtain ⟨magnitude, nearest, units⟩ := exists_ofInt? inRange
  exact ⟨magnitude, nearest, units.trans kept⟩

/-- One is the only integer among the steps. -/
private theorem eq_one_of_between {value : Int} (positive : 0 < value * unit)
    (bounded : value * unit ≤ unit) : value = 1 := by
  have unitPos := unit_pos
  have above : 0 < value := Int.pos_of_mul_pos_left positive (by omega)
  have below : value ≤ 1 :=
    Int.le_of_mul_le_mul_right (by omega) (by omega : (0 : Int) < unit)
  omega

private theorem exists_magnitude_of_asNumber {offered : Datum}
    {step : Binary64} {units : Int}
    (extent : offered.extent? = some (some (.at units)))
    (positive : 0 < units) (bounded : units ≤ unit)
    (accepted : offered.asNumber = .ok step) :
    ∃ magnitude : Magnitude, step = .finite false magnitude ∧
      0 < magnitude.units ∧ magnitude.units ≤ unit := by
  cases offered with
  | truth value =>
      cases value with
      | true =>
          cases accepted
          exact ⟨_, rfl, unit_pos, Nat.le_refl _⟩
      | false =>
          have vanishing : (0 : Int) * unit = units := by
            simpa [Datum.extent?, Extent.ofInt] using extent
          omega
  | integer value =>
      have product : value * unit = units := by
        simpa [Datum.extent?, Extent.ofInt] using extent
      rw [← product] at positive bounded
      obtain ⟨magnitude, nearest, same⟩ := exists_ofInt?_one
      rw [eq_one_of_between positive bounded, Datum.asNumber, nearest]
        at accepted
      cases accepted
      exact ⟨magnitude, rfl, same ▸ unit_pos, same.le⟩
  | number value =>
      cases accepted
      have lies : step.extent? = some (.at units) := Option.some.inj extent
      cases step with
      | nan => cases lies
      | infinite negative => cases negative <;> cases lies
      | finite negative magnitude =>
          have equality : signed negative magnitude.units = units := by
            simpa [extent?] using lies
          cases negative with
          | true =>
              change -(magnitude.units : Int) = units at equality
              omega
          | false =>
              change (magnitude.units : Int) = units at equality
              exact ⟨magnitude, rfl, by omega, by omega⟩
  | nothing | text | list | tuple | atom | formula | fact | interpretation
  | rule => cases extent

/-- An admitted step is a number above zero and at most one. -/
theorem exists_magnitude_of_gridStep {offered : Datum} {step : Binary64}
    (admitted : gridStep offered = .ok step) :
    ∃ magnitude : Magnitude, step = .finite false magnitude ∧
      0 < magnitude.units ∧ magnitude.units ≤ unit := by
  unfold gridStep at admitted
  cases extent : offered.extent? with
  | none =>
      rw [extent] at admitted
      cases admitted
  | some place =>
      rw [extent] at admitted
      dsimp only at admitted
      split at admitted
      · rename_i between
        simp only [Bool.and_eq_true, Bool.or_eq_true, decide_eq_true_eq]
          at between
        obtain ⟨units, rfl, positive, bounded⟩ :=
          exists_units_of_between between.1 between.2
        exact exists_magnitude_of_asNumber extent positive bounded admitted
      · cases admitted

/-- The numbered number on the grid of a step. -/
def gridNumber (step : Magnitude) (number : Nat) : Binary64 :=
  ((ofInt? number).getD nan * .finite false step).toPlaces 10

/-- A number on a grid as a degree, which it is unless it is above one. -/
def gridDegree (step number : Nat) : Degree :=
  { units := min (gridUnits step number) unit
    negativeZero := false
    representable := by
      rcases Nat.le_total (gridUnits step number) unit with below | above
      · rw [Nat.min_eq_left below]
        exact representable_round _ _
      · rw [Nat.min_eq_right above]
        exact representable_unit
    atMostOne := Nat.min_le_right _ _
    units_of_negativeZero := nofun }

theorem gridDegree_zero (step : Nat) : gridDegree step 0 = Degree.zero := by
  apply Degree.ext_units
  · change min (gridUnits step 0) unit = 0
    rw [gridUnits_zero, Nat.zero_min]
  · rfl

theorem gridDegree_mono (step : Nat) {number other : Nat}
    (ordered : number ≤ other) : gridDegree step number ≤ gridDegree step other := by
  have units := gridUnits_mono step ordered
  change min (gridUnits step number) unit ≤ min (gridUnits step other) unit
  omega

theorem toleranceUnits_le : toleranceUnits ≤ unit :=
  round_le (by decide) representable_unit (by omega)

theorem exists_tolerance :
    ∃ magnitude : Magnitude, gridTolerance = .finite false magnitude ∧
      magnitude.units = toleranceUnits := by
  have quotient : gridTolerance = ofQuotient false (1 * unit) (10 ^ 9) := by
    decide +kernel
  have inRange : toleranceUnits < limit :=
    Nat.lt_of_le_of_lt toleranceUnits_le unit_lt_limit
  rw [quotient]
  exact exists_ofQuotient inRange

theorem grid_of_infinite {step : Binary64}
    (overflow : Binary64.one / step = .infinite false) :
    grid step = .error .numberTooLarge := by
  obtain ⟨tolerance, isTolerance, _⟩ := exists_tolerance
  rw [grid, overflow, isTolerance]
  rfl

/-- The quotients of steps that are not too small stay this far below the end
of the range, so that the tolerance does not take them out of it. -/
private def quotientBound : Nat :=
  ((2 : Nat) ^ (51 : Nat) - 1) * (2 : Nat) ^ (2047 : Nat)

private def sumBound : Nat :=
  ((2 : Nat) ^ (52 : Nat) - 1) * (2 : Nat) ^ (2046 : Nat)

private theorem representable_limit : Representable limit := by
  unfold limit
  exact representable_two_pow 2098

private theorem representable_quotientBound : Representable quotientBound := by
  have small : (2 : Nat) ^ (51 : Nat) - 1 ≤ (2 : Nat) ^ (53 : Nat) := by decide
  have shifted := @representable_mul_two_pow _ 2047 small
  rw [quotientBound]
  exact shifted

private theorem representable_sumBound : Representable sumBound := by
  have small : (2 : Nat) ^ (52 : Nat) - 1 ≤ (2 : Nat) ^ (53 : Nat) := by decide
  have shifted := @representable_mul_two_pow _ 2046 small
  rw [sumBound]
  exact shifted

/-- How the bounds lie between one and the end of the range. -/
private theorem bounds_ordered :
    unit * 2 < limit ∧ limit * (2 : Nat) ^ (50 : Nat) = unit * unit ∧
      unit * unit ≤ quotientBound * ((2 : Nat) ^ (50 : Nat) + 1) ∧
      quotientBound + unit ≤ sumBound ∧ sumBound < limit := by
  unfold quotientBound sumBound unit limit
  decide +kernel

section

variable {step : Nat} (positive : 0 < step)

include positive

private theorem stepQuotient_le_bound (large : (2 : Nat) ^ (50 : Nat) < step) :
    stepQuotient step ≤ quotientBound := by
  apply round_le positive representable_quotientBound
  calc
    unit * unit ≤ quotientBound * ((2 : Nat) ^ (50 : Nat) + 1) :=
      bounds_ordered.2.2.1
    _ ≤ quotientBound * step := Nat.mul_le_mul_left _ large

/-- The quotient of one and a step is in range exactly for steps above
2⁻¹⁰²⁴. -/
theorem stepQuotient_lt_limit_iff :
    stepQuotient step < limit ↔ (2 : Nat) ^ (50 : Nat) < step := by
  constructor
  · intro inRange
    by_contra small
    have reached : limit ≤ stepQuotient step := by
      apply le_round positive representable_limit
      rw [← bounds_ordered.2.1]
      exact Nat.mul_le_mul_left _ (Nat.le_of_not_lt small)
    omega
  · intro large
    have below := stepQuotient_le_bound positive large
    have room := bounds_ordered.2.2.2
    omega

/-- The tolerance takes no quotient out of range. -/
theorem sum_lt_limit (inRange : stepQuotient step < limit) :
    round (stepQuotient step + toleranceUnits) 1 < limit := by
  have below := stepQuotient_le_bound positive
    ((stepQuotient_lt_limit_iff positive).mp inRange)
  have tolerance := toleranceUnits_le
  have room := bounds_ordered.2.2.2
  apply Nat.lt_of_le_of_lt _ room.2
  apply round_le Nat.one_pos representable_sumBound
  omega

/-- A grid has another number than zero. -/
theorem lastNumber_pos (bounded : step ≤ unit) : 0 < lastNumber step := by
  apply Nat.div_pos _ unit_pos
  apply le_round Nat.one_pos representable_unit
  have quotient : unit ≤ stepQuotient step :=
    le_round positive representable_unit (Nat.mul_le_mul_left _ bounded)
  omega

end

section

variable {step : Magnitude} (positive : 0 < step.units)
  (bounded : step.units ≤ unit)

include positive

theorem one_div_step :
    Binary64.one / .finite false step =
      ofQuotient false (unit * unit) step.units := by
  change (if step.units = 0 then
    if unit = 0 then Binary64.nan else .infinite (false ^^ false)
  else ofQuotient (false ^^ false) (unit * unit) step.units) = _
  rw [if_neg (Nat.ne_of_gt positive)]
  rfl

/-- A step whose quotient leaves the range has no grid. -/
theorem grid_of_overflow (overflow : ¬stepQuotient step.units < limit) :
    Binary64.one / .finite false step = .infinite false ∧
      grid (.finite false step) = .error .numberTooLarge := by
  have quotient : Binary64.one / .finite false step = .infinite false := by
    rw [one_div_step positive]
    exact dif_neg overflow
  exact ⟨quotient, grid_of_infinite quotient⟩

include bounded

theorem grid_eq_ok (inRange : stepQuotient step.units < limit) :
    grid (.finite false step) =
      .ok ((List.range (lastNumber step.units + 1)).map (gridNumber step)) := by
  obtain ⟨tolerance, isTolerance, toleranceUnits_eq⟩ := exists_tolerance
  obtain ⟨quotient, isQuotient, quotientUnits⟩ :=
    @exists_ofQuotient false (unit * unit) step.units inRange
  obtain ⟨sum, isSum, sumUnits⟩ :=
    @exists_ofQuotient false _ _ (sum_lt_limit positive inRange)
  have quotientPos : 0 < quotient.units := by
    rw [quotientUnits]
    exact Nat.lt_of_lt_of_le unit_pos
      (le_round positive representable_unit (Nat.mul_le_mul_left _ bounded))
  have counted : (Binary64.one / .finite false step + gridTolerance).floor? =
      some (lastNumber step.units : Int) := by
    rw [one_div_step positive, isQuotient, isTolerance, add_finite quotientPos,
      quotientUnits, toleranceUnits_eq]
    change (ofQuotient false (stepQuotient step.units + toleranceUnits)
      1).floor? = _
    rw [isSum, floor?_finite, sumUnits, lastNumber]
  rw [grid, counted]
  rfl

/-- A number on the grid has the units that three roundings leave. -/
theorem exists_gridNumber (inRange : stepQuotient step.units < limit)
    {number : Nat} (earlier : number ≤ lastNumber step.units) :
    ∃ magnitude : Magnitude, gridNumber step number = .finite false magnitude ∧
      magnitude.units = gridUnits step.units number := by
  have sumInRange := sum_lt_limit positive inRange
  have integerInRange : round (unit * number) 1 < limit := by
    apply Nat.lt_of_le_of_lt _ sumInRange
    apply round_le Nat.one_pos (representable_round _ _)
    rw [Nat.mul_one, Nat.mul_comm]
    exact Nat.le_trans (Nat.mul_le_mul_right _ earlier)
      (Nat.div_mul_le_self _ _)
  have multipleInRange : multiple step.units number < limit := by
    apply Nat.lt_of_le_of_lt _ integerInRange
    exact round_le unit_pos (representable_round _ _)
      (Nat.mul_le_mul_left _ bounded)
  have placesInRange : gridUnits step.units number < limit :=
    Nat.lt_of_le_of_lt
      (gridUnits_le_double_unit
        (value_multiple_le_two positive bounded earlier))
      bounds_ordered.1
  obtain ⟨integer, isInteger, integerUnits⟩ := exists_ofInt? integerInRange
  obtain ⟨product, isProduct, productUnits⟩ :=
    @exists_ofQuotient false _ _ multipleInRange
  have multiplied : Binary64.finite false integer * .finite false step =
      .finite false product := by
    change ofQuotient (false ^^ false) (integer.units * step.units) unit = _
    rw [integerUnits]
    exact isProduct
  rw [gridNumber, isInteger, Option.getD_some, multiplied]
  change ∃ magnitude, ofQuotient false
    (nearest (product.units * 10 ^ 10) unit * unit) (10 ^ 10) = _ ∧ _
  rw [productUnits]
  exact exists_ofQuotient placesInRange

theorem gridNumber_eq_toBinary64 (inRange : stepQuotient step.units < limit)
    {number : Nat} (earlier : number ≤ lastNumber step.units)
    (atMostOne : gridUnits step.units number ≤ unit) :
    gridNumber step number = (gridDegree step.units number).toBinary64 := by
  obtain ⟨magnitude, equality, units⟩ :=
    exists_gridNumber positive bounded inRange earlier
  have same : gridUnits step.units number =
      (gridDegree step.units number).units :=
    (Nat.min_eq_left atMostOne).symm
  rw [equality]
  exact congrArg (Binary64.finite false)
    (Magnitude.ext_units (units.trans same))

theorem ofBinary64?_gridNumber (inRange : stepQuotient step.units < limit)
    {number : Nat} (earlier : number ≤ lastNumber step.units)
    (atMostOne : gridUnits step.units number ≤ unit) :
    Degree.ofBinary64? (gridNumber step number) =
      some (gridDegree step.units number) := by
  rw [gridNumber_eq_toBinary64 positive bounded inRange earlier atMostOne,
    Degree.ofBinary64?_toBinary64]

/-- A number on the grid is a degree unless it is above one. -/
theorem ofBinary64?_gridNumber_cases (inRange : stepQuotient step.units < limit)
    {number : Nat} (earlier : number ≤ lastNumber step.units) :
    Degree.ofBinary64? (gridNumber step number) =
          some (gridDegree step.units number) ∧
        Binary64.one.lt (gridNumber step number) = false ∨
      Degree.ofBinary64? (gridNumber step number) = none ∧
        Binary64.one.lt (gridNumber step number) = true := by
  obtain ⟨magnitude, equality, units⟩ :=
    exists_gridNumber positive bounded inRange earlier
  by_cases atMostOne : gridUnits step.units number ≤ unit
  · refine .inl ⟨ofBinary64?_gridNumber positive bounded inRange earlier
      atMostOne, ?_⟩
    rw [equality]
    apply Bool.eq_false_iff.mpr
    intro above
    have := lt_finite_iff.mp above
    change unit < magnitude.units at this
    omega
  · rw [← units] at atMostOne
    rw [equality]
    exact .inr ⟨dif_neg atMostOne,
      lt_finite_iff.mpr (Nat.lt_of_not_le atMostOne)⟩

end

/-- Steps up to this one have grids without a number above one. -/
def twentieth : Binary64 :=
  Decimal.round false ⟨5, -2⟩

theorem value_le_of_le_twentieth {step : Magnitude}
    (small : (Binary64.finite false step).le twentieth = true) :
    value step.units ≤ 1 / 20 + 1 / 10 ^ 13 := by
  have unitPos := unit_cast_pos
  have quotient : twentieth = ofQuotient false (5 * unit) (10 ^ 2) := by
    decide +kernel
  have inRange : round (5 * unit) (10 ^ 2) < limit :=
    Nat.lt_of_le_of_lt
      (round_le (by decide) representable_unit (by omega)) unit_lt_limit
  obtain ⟨magnitude, equality, units⟩ := @exists_ofQuotient false _ _ inRange
  rw [quotient, equality, le_finite_iff, units, ← value_le_iff] at small
  have makes : ((5 * unit : Nat) : ℚ) = 1 / 20 * ((10 ^ 2 : Nat) * unit) := by
    push_cast
    ring
  have rounded := @value_round_le _ (10 ^ 2) _ (by decide) makes
  refine le_trans small (le_trans rounded ?_)
  norm_num

/-- The numbers of a grid: degrees that ascend from zero, and a last number that
is a degree as well unless it is above one. -/
structure IsGrid (below : List Degree) (last : Binary64) : Prop where
  startsAtZero : below.head? = some Degree.zero
  ascending : (below ++ (Degree.ofBinary64? last).toList).Pairwise (· ≤ ·)
  unsigned : ∀ degree ∈ below ++ (Degree.ofBinary64? last).toList,
    degree.negativeZero = false
  isNone_iff : Degree.ofBinary64? last = none ↔ Binary64.one.lt last = true

theorem pairwise_gridDegree (step count : Nat) :
    ((List.range count).map (gridDegree step)).Pairwise (· ≤ ·) := by
  rw [List.pairwise_map]
  exact List.pairwise_lt_range.imp fun ordered =>
    gridDegree_mono step (Nat.le_of_lt ordered)

theorem head?_gridDegree (step : Nat) {count : Nat} (positive : 0 < count) :
    ((List.range count).map (gridDegree step)).head? = some Degree.zero := by
  obtain ⟨others, rfl⟩ := Nat.exists_eq_succ_of_ne_zero positive.ne'
  rw [List.range_succ_eq_map, List.map_cons, List.head?_cons, gridDegree_zero]

theorem negativeZero_gridDegree {step count : Nat} {degree : Degree}
    (member : degree ∈ (List.range count).map (gridDegree step)) :
    degree.negativeZero = false := by
  obtain ⟨_, _, equality⟩ := List.mem_map.mp member
  rw [← equality]
  rfl

/-- What the last number adds to the degrees below it is the next degree or
nothing. -/
theorem exists_gridDegrees_eq {step : Magnitude} (positive : 0 < step.units)
    (bounded : step.units ≤ unit)
    (inRange : stepQuotient step.units < limit) :
    ∃ count,
      (List.range (lastNumber step.units)).map (gridDegree step.units) ++
          (Degree.ofBinary64?
            (gridNumber step (lastNumber step.units))).toList =
        (List.range count).map (gridDegree step.units) := by
  rcases ofBinary64?_gridNumber_cases positive bounded inRange (Nat.le_refl _)
    with ⟨isDegree, _⟩ | ⟨noDegree, _⟩
  · refine ⟨lastNumber step.units + 1, ?_⟩
    rw [isDegree, List.range_succ, List.map_append]
    rfl
  · refine ⟨lastNumber step.units, ?_⟩
    rw [noDegree]
    exact List.append_nil _

theorem isGrid_gridDegree {step : Magnitude} (positive : 0 < step.units)
    (bounded : step.units ≤ unit)
    (inRange : stepQuotient step.units < limit) :
    IsGrid ((List.range (lastNumber step.units)).map (gridDegree step.units))
      (gridNumber step (lastNumber step.units)) := by
  obtain ⟨count, degrees⟩ := exists_gridDegrees_eq positive bounded inRange
  constructor
  · exact head?_gridDegree step.units (lastNumber_pos positive bounded)
  · rw [degrees]
    exact pairwise_gridDegree step.units count
  · rw [degrees]
    exact fun _ => negativeZero_gridDegree
  · rcases ofBinary64?_gridNumber_cases positive bounded inRange
      (Nat.le_refl _) with ⟨isDegree, notAbove⟩ | ⟨noDegree, above⟩
    · simp only [isDegree, notAbove, reduceCtorEq, Bool.false_eq_true]
    · simp only [noDegree, above]

/-- An admitted step whose quotient is in range has a grid, and no number on it
is above one if the step is at most a twentieth. -/
theorem exists_isGrid {step : Magnitude} (positive : 0 < step.units)
    (bounded : step.units ≤ unit)
    (inRange : stepQuotient step.units < limit) :
    ∃ below last,
      grid (.finite false step) = .ok (below.map Degree.toBinary64 ++ [last]) ∧
        IsGrid below last ∧
        ((Binary64.finite false step).le twentieth = true →
          (Degree.ofBinary64? last).isSome = true) := by
  refine ⟨_, _, ?_, isGrid_gridDegree positive bounded inRange, ?_⟩
  · rw [grid_eq_ok positive bounded inRange, List.range_succ, List.map_append,
      List.map_singleton, List.map_map]
    congr 2
    apply List.map_congr_left
    intro number member
    have earlier := List.mem_range.mp member
    exact gridNumber_eq_toBinary64 positive bounded inRange
      (Nat.le_of_lt earlier)
      (gridUnits_le_unit_of_lt_last positive bounded earlier)
  · intro small
    have atMostOne := gridUnits_le_unit_of_small positive bounded
      (value_le_of_le_twentieth small) (Nat.le_refl _)
    rw [ofBinary64?_gridNumber positive bounded inRange (Nat.le_refl _)
      atMostOne]
    rfl

end FactSet

end Possibilistic
