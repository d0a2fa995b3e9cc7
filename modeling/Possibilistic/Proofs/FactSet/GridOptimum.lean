import Possibilistic.Proofs.FactSet.GridSearch

/-!
# What the search on a grid finds

An admitted step whose quotient is in range has a grid, and the search returns
the lexicographically first of the truest points on it.  It fails in one case:
the last number of the grid is above one, and the search comes to it because no
point before it makes the facts fully true.
-/

namespace Possibilistic

namespace FactSet

open Binary64

/-- A number above zero and at most one is an admitted step. -/
theorem gridStep_number {step : Binary64}
    (positive : Binary64.zero.lt step = true)
    (atMostOne : step.le Binary64.one = true) :
    gridStep (.number step) = .ok step := by
  have above : compareExtents? (some (.at 0)) step.extent? = some .lt :=
    beq_iff_eq.mp positive
  have below : compareExtents? step.extent? (some (.ofInt 1)) = some .lt ∨
      compareExtents? step.extent? (some (.ofInt 1)) = some .eq := by
    have one : compareExtents? step.extent? (some (.ofInt 1)) =
        compare? step Binary64.one :=
      congrArg (fun units => compareExtents? step.extent? (some (.at units)))
        (Int.one_mul unit)
    rw [one]
    rw [Binary64.le] at atMostOne
    generalize compare? step Binary64.one = order at atMostOne ⊢
    cases order with
    | none => cases atMostOne
    | some ordering =>
        cases ordering with
        | lt => exact .inl rfl
        | eq => exact .inr rfl
        | gt => cases atMostOne
  apply if_pos
  simp only [Bool.and_eq_true, Bool.or_eq_true, decide_eq_true_eq]
  exact ⟨above, below⟩

/-- Without a grid there is nothing to search. -/
theorem satisfying_of_grid_error {offered : Datum} {step : Binary64}
    (admitted : gridStep offered = .ok step) (facts : FactSet) {fault : Fault}
    (noGrid : grid step = .error fault) :
    facts.satisfying offered = .error fault := by
  rw [satisfying, admitted]
  change (grid step >>= _) = _
  rw [noGrid]
  rfl

theorem satisfying_eq {offered : Datum} {step : Binary64}
    (admitted : gridStep offered = .ok step) (facts : FactSet)
    {numbers : List Binary64} (gridded : grid step = .ok numbers) :
    facts.satisfying offered =
      (facts.search numbers).map fun best =>
        Interpretation.ofList (facts.atoms.zip best.point) := by
  rw [satisfying, admitted]
  change (grid step >>= _) = _
  rw [gridded]
  change (facts.search numbers >>= _) = _
  cases facts.search numbers <;> rfl

section

variable {facts : FactSet} {below : List Degree} {last : Binary64}
  (isGrid : IsGrid below last)

include isGrid

theorem offersOf_of_not_above (notAbove : Binary64.one.lt last = false) :
    offersOf (below.map Degree.toBinary64 ++ [last]) =
      (below ++ (Degree.ofBinary64? last).toList).map Except.ok := by
  cases known : Degree.ofBinary64? last with
  | none =>
      rw [isGrid.isNone_iff.mp known] at notAbove
      cases notAbove
  | some degree =>
      have accepted : (Datum.number last).asDegree = .ok degree := by
        rw [Datum.asDegree, Datum.asDegreeOf, known]
      have listed := offersOf_toBinary64 below
      rw [offersOf] at listed ⊢
      rw [List.map_append, listed, List.map_append, List.map_singleton,
        accepted]
      rfl

theorem offersOf_of_above (above : Binary64.one.lt last = true) :
    offersOf (below.map Degree.toBinary64 ++ [last]) =
      below.map Except.ok ++
        [Except.error (.degreeOutOfRange (.number last) none)] := by
  have refused : (Datum.number last).asDegree =
      .error (.degreeOutOfRange (.number last) none) := by
    rw [Datum.asDegree, Datum.asDegreeOf, isGrid.isNone_iff.mpr above]
  have listed := offersOf_toBinary64 below
  rw [offersOf] at listed ⊢
  rw [List.map_append, listed, List.map_singleton, refused]

/-- The search fails where it comes to a number above one. -/
theorem search_of_reachesAboveOne (reaches : facts.ReachesAboveOne below last) :
    facts.search (below.map Degree.toBinary64 ++ [last]) =
      .error (.degreeOutOfRange (.number last) none) := by
  obtain ⟨above, hasAtoms, notFull⟩ := reaches
  rw [search_eq_of_refused isGrid.startsAtZero hasAtoms
    (offersOf_of_above isGrid above), if_neg]
  rintro ⟨point, member, full⟩
  rw [notFull point member] at full
  cases full

/-- Otherwise it ends with the choice among the degrees of the grid. -/
theorem search_of_not_reachesAboveOne
    (avoids : ¬facts.ReachesAboveOne below last) :
    facts.search (below.map Degree.toBinary64 ++ [last]) =
      .ok (facts.choice (below ++ (Degree.ofBinary64? last).toList)) := by
  cases above : Binary64.one.lt last with
  | false =>
      exact search_eq_choice (.inl (offersOf_of_not_above isGrid above))
  | true =>
      have noDegree := isGrid.isNone_iff.mpr above
      rw [noDegree, Option.toList_none, List.append_nil]
      by_cases hasAtoms : facts.atoms = []
      · exact search_eq_choice (.inr hasAtoms)
      · rw [search_eq_of_refused isGrid.startsAtZero hasAtoms
          (offersOf_of_above isGrid above), if_pos]
        exact exists_isOne_of_not_reachesAboveOne above hasAtoms avoids

/-- Unless it comes to a number above one, the search of a grid finds its first
best point. -/
theorem exists_isFirstBest_of_not_reachesAboveOne {offered : Datum}
    {step : Binary64} (admitted : gridStep offered = .ok step)
    (gridded : grid step = .ok (below.map Degree.toBinary64 ++ [last]))
    (avoids : ¬facts.ReachesAboveOne below last) :
    ∃ point,
      facts.IsFirstBest (below ++ (Degree.ofBinary64? last).toList) point ∧
      facts.satisfying offered =
        .ok (Interpretation.ofList (facts.atoms.zip point)) := by
  refine ⟨_, isFirstBest_choice ?_ isGrid.ascending isGrid.unsigned, ?_⟩
  · rw [List.head?_append, isGrid.startsAtZero]
    rfl
  · rw [satisfying_eq admitted facts gridded,
      search_of_not_reachesAboveOne isGrid avoids]
    rfl

end

/-- A search at an admitted step either has no grid, because one divided by the
step leaves the range, or it fails at a last number above one that it comes to,
which needs a step above a twentieth, or it finds the lexicographically first of
the truest points. -/
theorem satisfying_finds_first_best {facts : FactSet} {offered : Datum}
    {step : Binary64} (admitted : gridStep offered = .ok step) :
    Binary64.one / step = .infinite false ∧
        facts.satisfying offered = .error .numberTooLarge ∨
      ∃ below last,
        grid step = .ok (below.map Degree.toBinary64 ++ [last]) ∧
        IsGrid below last ∧
        (step.le twentieth = true → Binary64.one.lt last = false) ∧
        (facts.ReachesAboveOne below last ∧
            facts.satisfying offered =
              .error (.degreeOutOfRange (.number last) none) ∨
          ¬facts.ReachesAboveOne below last ∧
            ∃ point,
              facts.IsFirstBest (below ++ (Degree.ofBinary64? last).toList)
                point ∧
              facts.satisfying offered =
                .ok (Interpretation.ofList (facts.atoms.zip point))) := by
  obtain ⟨magnitude, rfl, positive, bounded⟩ :=
    exists_magnitude_of_gridStep admitted
  by_cases inRange : stepQuotient magnitude.units < limit
  · obtain ⟨below, last, gridded, isGrid, small⟩ :=
      exists_isGrid positive bounded inRange
    refine .inr ⟨below, last, gridded, isGrid, ?_, ?_⟩
    · intro atMostTwentieth
      apply Bool.eq_false_iff.mpr
      intro above
      have isDegree := small atMostTwentieth
      rw [isGrid.isNone_iff.mpr above] at isDegree
      cases isDegree
    · by_cases reaches : facts.ReachesAboveOne below last
      · refine .inl ⟨reaches, ?_⟩
        rw [satisfying_eq admitted facts gridded,
          search_of_reachesAboveOne isGrid reaches]
        rfl
      · exact .inr ⟨reaches, exists_isFirstBest_of_not_reachesAboveOne isGrid
          admitted gridded reaches⟩
  · obtain ⟨overflow, noGrid⟩ := grid_of_overflow positive inRange
    exact .inl ⟨overflow, satisfying_of_grid_error admitted facts noGrid⟩

/-- A contradiction is searched to the end in twentieths, where no number is
above one. -/
theorem satisfying_finds_first_best_twentieth :
    let rain : Formula := .atom ⟨"rain"⟩
    let facts := FactSet.empty.tell (rain.conj rain.neg) Degree.one
    gridStep (.number twentieth) = .ok twentieth ∧
      ∃ degrees point, facts.IsFirstBest degrees point ∧
        facts.satisfying (.number twentieth) =
          .ok (Interpretation.ofList (facts.atoms.zip point)) := by
  intro rain facts
  have admitted : gridStep (.number twentieth) = .ok twentieth :=
    gridStep_number (by decide +kernel) (by decide +kernel)
  refine ⟨admitted, ?_⟩
  rcases @satisfying_finds_first_best facts _ _ admitted with
    ⟨overflow, _⟩ | ⟨below, last, _, _, notAbove, outcome⟩
  · have inRange : Binary64.one / twentieth ≠ .infinite false := by
      decide +kernel
    exact absurd overflow inRange
  · have atMostOne := notAbove (by decide +kernel)
    rcases outcome with ⟨⟨above, _⟩, _⟩ | ⟨_, point, firstBest, found⟩
    · rw [atMostOne] at above
      cases above
    · exact ⟨_, point, firstBest, found⟩

/-- The number that was refused as a degree. -/
def refusedNumber? {α : Type} : Except Fault α → Option Binary64
  | .error (.degreeOutOfRange (.number number) none) => some number
  | _ => none

theorem eq_error_of_refusedNumber? {α : Type} {outcome : Except Fault α}
    {number : Binary64} (refused : refusedNumber? outcome = some number) :
    outcome = .error (.degreeOutOfRange (.number number) none) := by
  unfold refusedNumber? at refused
  split at refused
  · cases refused
    rfl
  · cases refused

/-- The step 0.33333333338 is admitted, and where the facts are a contradiction
the search comes to three of its steps, which are above one.  The step 10⁻³⁰⁹
is admitted as well, and even the empty set has no grid of it. -/
theorem satisfying_fails_on_admitted_steps :
    let rain : Formula := .atom ⟨"rain"⟩
    let facts := FactSet.empty.tell (rain.conj rain.neg) Degree.one
    let third := Decimal.round false ⟨33333333338, -11⟩
    let tiny := Decimal.round false ⟨1, -309⟩
    let above := Decimal.round false ⟨10000000001, -10⟩
    gridStep (.number third) = .ok third ∧
      Binary64.one.lt above = true ∧
      facts.satisfying (.number third) =
        .error (.degreeOutOfRange (.number above) none) ∧
      gridStep (.number tiny) = .ok tiny ∧
      FactSet.empty.satisfying (.number tiny) = .error .numberTooLarge := by
  intro rain facts third tiny above
  have admittedThird : gridStep (.number third) = .ok third :=
    gridStep_number (by decide +kernel) (by decide +kernel)
  have admittedTiny : gridStep (.number tiny) = .ok tiny :=
    gridStep_number (by decide +kernel) (by decide +kernel)
  have overflow : Binary64.one / tiny = .infinite false := by
    decide +kernel
  have refused : refusedNumber? (facts.satisfying (.number third)) =
      some above := by
    decide +kernel
  exact ⟨admittedThird, by decide +kernel, eq_error_of_refusedNumber? refused,
    admittedTiny,
    satisfying_of_grid_error admittedTiny _ (grid_of_infinite overflow)⟩

end FactSet

end Possibilistic
