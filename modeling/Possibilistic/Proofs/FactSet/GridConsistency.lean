import Possibilistic.Proofs.FactBase.Inconsistency
import Possibilistic.Proofs.FactSet.GridOptimum

/-!
# Search on a grid and consistency

The worlds of the atoms are points of a grid that has one on it, and then the
search finds nothing less true than the truest world.  A grid that stops below
one misses the world that makes a certain atom true.
-/

namespace Possibilistic

namespace FactSet

open Binary64

section

variable {facts : FactSet}

/-- A world of the atoms is the point of what it assigns to them. -/
theorem truthAt_assigned (world : Interpretation) :
    facts.truthAt (facts.atoms.map world.assigned) = facts.truth world :=
  truth_congr fun _ mentioned =>
    Interpretation.assigned_ofList_zip_map
      (facts.mentions_subset_atoms mentioned)

theorem consistency_le {bound : Degree}
    (truths : ∀ world ∈ World.all facts.atoms, facts.truth world ≤ bound) :
    facts.consistency ≤ bound := by
  apply Degree.le_of_pos
  intro positive
  obtain ⟨world, inAll, reached⟩ :=
    (le_consistency_iff facts.mentions_subset_atoms positive).mp
      (Nat.le_refl _)
  exact Nat.le_trans reached (truths world inAll)

variable {degrees : List Degree} {point : List Degree}

/-- Where zero and one are on the grid, the worlds are. -/
theorem consistency_le_of_isFirstBest
    (firstBest : facts.IsFirstBest degrees point)
    (hasZero : Degree.zero ∈ degrees)
    (hasOne : facts.atoms ≠ [] → Degree.one ∈ degrees) :
    facts.consistency ≤ facts.truthAt point := by
  apply consistency_le
  intro world inAll
  rw [← truthAt_assigned]
  apply firstBest.best _ (List.length_map _)
  intro degree member
  obtain ⟨atom, inAtoms, rfl⟩ := List.mem_map.mp member
  obtain ⟨chosen, assigned⟩ := World.exists_bitDegree_of_mem_all inAll inAtoms
  rw [assigned]
  cases chosen with
  | true => exact hasOne (List.ne_nil_of_mem inAtoms)
  | false => exact hasZero

end

section

variable {below : List Degree} {last : Binary64} (isGrid : IsGrid below last)

include isGrid

/-- A grid comes to one if it has one on it or a last number above. -/
theorem exists_one_le_iff :
    (∃ number ∈ below.map Degree.toBinary64 ++ [last],
        Binary64.one.le number = true) ↔
      Binary64.one.lt last = true ∨
        Degree.one ∈ below ++ (Degree.ofBinary64? last).toList := by
  constructor
  · rintro ⟨number, member, reached⟩
    rcases List.mem_append.mp member with earlier | isLast
    · obtain ⟨degree, inBelow, rfl⟩ := List.mem_map.mp earlier
      rw [Degree.eq_one_of_one_le (Degree.le_toBinary64_iff.mp reached)] at inBelow
      exact .inr (List.mem_append_left _ inBelow)
    · rw [List.mem_singleton.mp isLast] at reached
      cases known : Degree.ofBinary64? last with
      | none => exact .inl (isGrid.isNone_iff.mp known)
      | some degree =>
          rw [← Degree.toBinary64_of_ofBinary64? known] at reached
          rw [Degree.eq_one_of_one_le (Degree.le_toBinary64_iff.mp reached)]
          exact .inr (List.mem_append_right _ List.mem_cons_self)
  · rintro (above | member)
    · exact ⟨last, List.mem_append_right _ List.mem_cons_self,
        le_of_lt above⟩
    · refine ⟨Degree.one.toBinary64, ?_,
        Degree.le_toBinary64_iff.mpr (Nat.le_refl _)⟩
      rcases List.mem_append.mp member with inBelow | isLast
      · exact List.mem_append_left _ (List.mem_map_of_mem inBelow)
      · have known : Degree.ofBinary64? last = some Degree.one :=
          Option.mem_toList.mp isLast
        rw [Degree.toBinary64_of_ofBinary64? known]
        exact List.mem_append_right _ List.mem_cons_self

theorem zero_mem_of_isGrid :
    Degree.zero ∈ below ++ (Degree.ofBinary64? last).toList :=
  List.mem_append_left _ (List.mem_of_mem_head? isGrid.startsAtZero)

/-- A search that full truth keeps from a number above one has found the
greatest truth there is. -/
theorem consistency_le_of_above {facts : FactSet} {point : List Degree}
    (above : Binary64.one.lt last = true)
    (avoids : ¬facts.ReachesAboveOne below last)
    (firstBest : facts.IsFirstBest
      (below ++ (Degree.ofBinary64? last).toList) point) :
    facts.consistency ≤ facts.truthAt point := by
  by_cases hasAtoms : facts.atoms = []
  · exact consistency_le_of_isFirstBest firstBest (zero_mem_of_isGrid isGrid)
      fun atoms => absurd hasAtoms atoms
  · obtain ⟨visited, member, full⟩ :=
      exists_isOne_of_not_reachesAboveOne above hasAtoms avoids
    obtain ⟨length, onGrid⟩ :=
      onGrid_of_mem_firstRow isGrid.startsAtZero hasAtoms member
    have reached : facts.truthAt visited ≤ facts.truthAt point :=
      firstBest.best visited length fun degree inPoint =>
        List.mem_append_left _ (onGrid degree inPoint)
    calc
      facts.consistency.units ≤ Degree.one.units :=
        facts.consistency.atMostOne
      _ ≤ (facts.truthAt visited).units := Degree.isOne_iff_one_le.mp full
      _ ≤ (facts.truthAt point).units := reached

end

/-- Facts are fully true only where a certain one is. -/
theorem one_le_truth_of_certain {facts : FactSet} {formula : Formula}
    {world : Interpretation} (certain : (formula, Degree.one) ∈ facts.items)
    (full : Degree.one ≤ facts.truth world) :
    Degree.one ≤ formula.truth world := by
  rw [truth_eq_minimum, Degree.le_minimum_iff] at full
  have reached := full _ (List.mem_map_of_mem certain)
  apply (Degree.le_max_iff.mp reached).resolve_left
  have vanishing : Degree.one.complement.isZero = true :=
    Degree.complement_isZero_iff.mpr (Degree.isOne_iff.mpr rfl)
  rw [Degree.le_iff, Degree.isZero_iff.mp vanishing]
  exact Nat.not_le_of_lt unit_pos

/-- Certainty of an atom. -/
def certainRain : FactSet :=
  FactSet.empty.tell (.atom ⟨"rain"⟩) Degree.one

theorem one_le_consistency_certainRain :
    Degree.one ≤ certainRain.consistency := by
  decide +kernel

theorem one_mem_of_one_le_truthAt_certainRain {point : List Degree}
    (length : point.length = certainRain.atoms.length)
    (full : Degree.one ≤ certainRain.truthAt point) :
    Degree.one ∈ point := by
  have atoms : certainRain.atoms = [⟨"rain"⟩] := by decide +kernel
  have certain : (Formula.atom ⟨"rain"⟩, Degree.one) ∈ certainRain.items := by
    rw [certainRain, tell, FuzzySet.items_assign_of_not_mem (by decide +kernel)
      List.not_mem_nil]
    exact List.mem_cons_self
  have nonconstant : (⟨"rain"⟩ : Atom).constant? = none := by decide +kernel
  rw [atoms] at length
  obtain ⟨degree, rfl⟩ := List.length_eq_one_iff.mp length
  have reached := one_le_truth_of_certain certain full
  rw [Formula.truth, Interpretation.truth, nonconstant, atoms] at reached
  change Degree.one ≤ degree at reached
  rw [Degree.eq_one_of_one_le reached]
  exact List.mem_cons_self

section

variable {offered : Datum} {step : Binary64}
  (admitted : gridStep offered = .ok step) {below : List Degree}
  {last : Binary64} (isGrid : IsGrid below last)
  (gridded : grid step = .ok (below.map Degree.toBinary64 ++ [last]))

include admitted isGrid gridded

/-- Only a grid that comes to one makes certain rain fully true. -/
theorem comesToOne_of_certainRain
    (reaches : ∀ found, certainRain.satisfying offered = .ok found →
      certainRain.consistency ≤ certainRain.truth found) :
    Binary64.one.lt last = true ∨
      Degree.one ∈ below ++ (Degree.ofBinary64? last).toList := by
  by_cases above : Binary64.one.lt last = true
  · exact .inl above
  · obtain ⟨point, firstBest, found⟩ :=
      exists_isFirstBest_of_not_reachesAboveOne isGrid admitted gridded
        fun reachesAbove => above reachesAbove.1
    have full : Degree.one ≤ certainRain.truthAt point :=
      Nat.le_trans one_le_consistency_certainRain (reaches _ found)
    have listed :=
      one_mem_of_one_le_truthAt_certainRain firstBest.onGrid.1 full
    exact .inr (firstBest.onGrid.2 _ listed)

theorem consistency_le_of_comesToOne
    (comes : Binary64.one.lt last = true ∨
      Degree.one ∈ below ++ (Degree.ofBinary64? last).toList)
    {facts : FactSet} {found : Interpretation}
    (succeeded : facts.satisfying offered = .ok found) :
    facts.consistency ≤ facts.truth found := by
  by_cases reaches : facts.ReachesAboveOne below last
  · rw [satisfying_eq admitted facts gridded,
      search_of_reachesAboveOne isGrid reaches] at succeeded
    cases succeeded
  · obtain ⟨point, firstBest, isFound⟩ :=
      exists_isFirstBest_of_not_reachesAboveOne isGrid admitted gridded reaches
    cases isFound.symm.trans succeeded
    rcases comes with above | hasOne
    · exact consistency_le_of_above isGrid above reaches firstBest
    · exact consistency_le_of_isFirstBest firstBest (zero_mem_of_isGrid isGrid)
        fun _ => hasOne

end

/-- The search at an admitted step makes all facts as true as their truest world
exactly when the grid of the step, if there is one, comes to one. -/
theorem satisfying_reaches_consistency_iff {offered : Datum} {step : Binary64}
    (admitted : gridStep offered = .ok step) :
    (∀ (facts : FactSet) (found : Interpretation),
        facts.satisfying offered = .ok found →
          facts.consistency ≤ facts.truth found) ↔
      ∀ numbers, grid step = .ok numbers →
        ∃ number ∈ numbers, Binary64.one.le number = true := by
  obtain ⟨magnitude, rfl, positive, bounded⟩ :=
    exists_magnitude_of_gridStep admitted
  by_cases inRange : stepQuotient magnitude.units < limit
  · obtain ⟨below, last, gridded, isGrid, _⟩ :=
      exists_isGrid positive bounded inRange
    have comesToOne := exists_one_le_iff isGrid
    constructor
    · intro reaches numbers isGridded
      cases gridded.symm.trans isGridded
      exact comesToOne.mpr
        (comesToOne_of_certainRain admitted isGrid gridded (reaches _))
    · intro comes facts found succeeded
      exact consistency_le_of_comesToOne admitted isGrid gridded
        (comesToOne.mp (comes _ gridded)) succeeded
  · obtain ⟨_, noGrid⟩ := grid_of_overflow positive inRange
    constructor
    · intro _ numbers gridded
      rw [noGrid] at gridded
      cases gridded
    · intro _ facts found succeeded
      rw [satisfying_of_grid_error admitted facts noGrid] at succeeded
      cases succeeded

/-- Two halves come to one. -/
theorem satisfying_reaches_consistency_half :
    let half := Decimal.round false ⟨5, -1⟩
    gridStep (.number half) = .ok half ∧
      ∀ (facts : FactSet) (found : Interpretation),
        facts.satisfying (.number half) = .ok found →
          facts.consistency ≤ facts.truth found := by
  intro half
  have admitted : gridStep (.number half) = .ok half :=
    gridStep_number (by decide +kernel) (by decide +kernel)
  have observed : (grid half).toOption.map
      (fun numbers => numbers.any fun number => Binary64.one.le number) =
        some true := by
    decide +kernel
  refine ⟨admitted, (satisfying_reaches_consistency_iff admitted).mpr ?_⟩
  intro numbers gridded
  rw [gridded] at observed
  exact List.any_eq_true.mp (Option.some.inj observed)

/-- Three tenths do not: the search makes certain rain nine tenths true, and the
world where it rains makes it fully true. -/
theorem satisfying_misses_certain_rain :
    let step := Decimal.round false ⟨3, -1⟩
    gridStep (.number step) = .ok step ∧
      ∃ found, certainRain.satisfying (.number step) = .ok found ∧
        (found.assigned ⟨"rain"⟩).toBinary64 = Decimal.round false ⟨9, -1⟩ ∧
        certainRain.truth found < certainRain.consistency := by
  intro step
  have admitted : gridStep (.number step) = .ok step :=
    gridStep_number (by decide +kernel) (by decide +kernel)
  have observed : (certainRain.satisfying (.number step)).toOption.map
      (fun found =>
        ((found.assigned ⟨"rain"⟩).toBinary64,
          decide (certainRain.truth found < certainRain.consistency))) =
        some (Decimal.round false ⟨9, -1⟩, true) := by
    decide +kernel
  cases outcome : certainRain.satisfying (.number step) with
  | error fault =>
      rw [outcome] at observed
      cases observed
  | ok found =>
      rw [outcome] at observed
      obtain ⟨assigned, less⟩ := Prod.mk.inj (Option.some.inj observed)
      exact ⟨admitted, found, rfl, assigned, of_decide_eq_true less⟩

end FactSet

end Possibilistic
