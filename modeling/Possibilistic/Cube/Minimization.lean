import Possibilistic.Cube.Basic
import Possibilistic.World

/-!
# Minimal covers

Merging cubes until nothing merges leaves the prime cubes.  A cover takes the
primes that alone cover some given cube, in the order of those cubes, and then
again and again the prime that covers most of what is left, the first of
equals.  The minimal disjunctive form of a formula is the cover of its crisp
models.
-/

namespace Possibilistic

namespace Cube

/-- The list without repetitions; the first of equal cubes stays. -/
def distinct (cubes : List Cube) : List Cube :=
  cubes.foldl
    (fun seen cube => if cube ∈ seen then seen else seen ++ [cube]) []

/-- Every merge of two cubes of a list, the earlier one first. -/
def merges : List Cube → List Cube
  | [] => []
  | cube :: rest => rest.filterMap cube.merge? ++ merges rest

/-- Whether a cube merges with one of a list. -/
def mergesWithin (cubes : List Cube) (cube : Cube) : Bool :=
  cubes.any fun other => (cube.merge? other).isSome

/-- Collects the cubes that merge with no other, round after round.  Each
round frees one more variable of every merged cube. -/
def primesFrom : (rounds : Nat) → (current primes : List Cube) → List Cube
  | 0, _, primes => primes
  | rounds + 1, current, primes =>
      let survivors := current.filter fun cube => !mergesWithin current cube
      primesFrom rounds (distinct (merges current))
        (distinct (primes ++ survivors))

/-- The prime cubes of a list, in the order in which they stop merging. -/
def primes (cubes : List Cube) : List Cube :=
  let most := cubes.foldl (fun most cube => max most cube.cells.length) 0
  primesFrom (most + 1) (distinct cubes) []

/-- The primes that alone cover some cube, in the order of the cubes. -/
def essentials (primes cubes : List Cube) : List Cube :=
  cubes.foldl
    (fun chosen cube =>
      match primes.filter (·.covers cube) with
      | [prime] => if prime ∈ chosen then chosen else chosen ++ [prime]
      | _ => chosen)
    []

/-- How many cubes of a list a cube covers. -/
def coverage (uncovered : List Cube) (cube : Cube) : Nat :=
  uncovered.countP fun other => cube.covers other

/-- The first prime that covers most of a list, among a first one and others. -/
def widest (uncovered : List Cube) (best : Cube) (primes : List Cube) : Cube :=
  primes.foldl
    (fun best prime =>
      if coverage uncovered best < coverage uncovered prime then prime
      else best)
    best

/-- Covers what is left, taking the widest prime each time.  Every step covers
something, so there are at most as many steps as cubes. -/
def coverRest (primes : List Cube) :
    (steps : Nat) → (uncovered cover : List Cube) → List Cube
  | 0, _, cover => cover
  | steps + 1, uncovered, cover =>
      match uncovered, primes with
      | [], _ => cover
      | _, [] => cover
      | _, prime :: others =>
          let best := widest uncovered prime others
          coverRest primes steps
            (uncovered.filter fun cube => !best.covers cube) (cover ++ [best])

/-- A small set of prime cubes that covers every cube of a list. -/
def minimize (cubes : List Cube) : List Cube :=
  let cubes := distinct cubes
  let primes := primes cubes
  let chosen := essentials primes cubes
  let uncovered := cubes.filter fun cube => !chosen.any (·.covers cube)
  coverRest primes uncovered.length uncovered chosen

/-- The cubes of a list, if all of them have the same variables. -/
def overOneVocabulary (cubes : List Cube) : Except Fault (List Cube) :=
  match cubes with
  | [] => .ok []
  | cube :: rest =>
      if rest.all fun other => other.atoms = cube.atoms then
        .ok (cube :: rest)
      else .error .differentVariables

end Cube

/-- The minimal disjunctive form, read off the crisp models: the worlds in
which the formula is fully true. -/
def Formula.minimalDnf (formula : Formula) : Formula :=
  let models := (World.all formula.atoms).filter fun world =>
    (formula.truth world).isOne
  Cube.disjunction (Cube.minimize (models.map Cube.ofInterpretation))

end Possibilistic
