import Possibilistic.FactSet.Basic

/-!
# Search on a grid

A fuzzy interpretation that makes a fact set as true as possible is looked for
on a grid: every atom ranges over the multiples of a step from zero on, rounded
to ten places.  The last atom varies fastest, the first best point wins, and
full truth ends the search.
-/

namespace Possibilistic

namespace FactSet

/-- What is added to the number of steps before it is rounded down. -/
def gridTolerance : Binary64 :=
  Decimal.round false ⟨1, -9⟩

def standardStep : Datum :=
  .number (Decimal.round false ⟨1, -1⟩)

/-- A step above zero and at most one. -/
def gridStep (offered : Datum) : Except Fault Binary64 :=
  match offered.extent? with
  | none => .error .notOrdered
  | some extent =>
      let above := Binary64.compareExtents? (some (.at 0)) extent
      let below := Binary64.compareExtents? extent (some (.ofInt 1))
      if above = some .lt && (below = some .lt || below = some .eq) then
        offered.asNumber
      else .error (.gridStepOutOfRange offered)

/-- The numbers on the grid of a step.  A last one above one is no degree, and
a point that has it is refused when the search comes to it. -/
def grid (step : Binary64) : Except Fault (List Binary64) :=
  match (Binary64.one / step + gridTolerance).floor? with
  | none => .error .numberTooLarge
  | some last =>
      .ok <| (List.range (last + 1).toNat).map fun (i : Nat) =>
        (((Binary64.ofInt? i).getD Binary64.nan) * step).toPlaces 10

/-- The best point so far and its truth. -/
structure BestPoint where
  point : List Degree
  truth : Degree

/-- Tries the grid for so many atoms that are not chosen yet.  The chosen
numbers are listed from the last one back. -/
def searchGrid (facts : FactSet) (atoms : List Atom)
    (grid : List (Except Fault Degree)) :
    (remaining : Nat) → (chosen : List (Except Fault Degree)) → BestPoint →
      Except Fault BestPoint
  | 0, chosen, best => do
      let point ← chosen.reverse.mapM id
      let truth := facts.truth (Interpretation.ofList (atoms.zip point))
      pure (if best.truth < truth then ⟨point, truth⟩ else best)
  | remaining + 1, chosen, best =>
      grid.foldlM
        (fun best value =>
          if best.truth.isOne then pure best
          else searchGrid facts atoms grid remaining (value :: chosen) best)
        best

/-- The best interpretation on the grid of an offered step. -/
def satisfying (facts : FactSet) (step : Datum) :
    Except Fault Interpretation := do
  let grid ← grid (← gridStep step)
  let atoms := facts.atoms
  let best ← facts.searchGrid atoms
    (grid.map fun number => (Datum.number number).asDegree) atoms.length []
    ⟨atoms.map fun _ => Degree.zero, Degree.zero⟩
  pure (Interpretation.ofList (atoms.zip best.point))

end FactSet

end Possibilistic
