import Possibilistic.Proofs.FactSet.GridPoints
import Possibilistic.Proofs.FactSet.GridShape
import Possibilistic.Proofs.FactSet.Truth

/-!
# The search on a grid

The search visits the points of a grid in their order and keeps a point that is
truer than the best one before it.  So it ends with the first of the truest
points.  It leaves early at full truth, and only then can it miss a number that
is no degree: the first point with such a number has zeros before it.
-/

namespace Possibilistic

namespace FactSet

/-- The truth of facts where their atoms, in order, have the degrees of a
point. -/
def truthAt (facts : FactSet) (point : List Degree) : Degree :=
  facts.truth (Interpretation.ofList (facts.atoms.zip point))

/-- Keeps the truer of the best point and another, the best of equal ones. -/
def consider (facts : FactSet) (best : BestPoint) (point : List Degree) :
    BestPoint :=
  if best.truth < facts.truthAt point then ⟨point, facts.truthAt point⟩
  else best

/-- Considers a point whose coordinates may be refused, unless full truth is
found. -/
def considerOffered (facts : FactSet) (best : BestPoint)
    (offered : List (Except Fault Degree)) : Except Fault BestPoint :=
  if best.truth.isOne then pure best
  else do
    let point ← offered.mapM id
    pure (facts.consider best point)

private theorem foldlM_flatMap {m : Type → Type} [Monad m] [LawfulMonad m]
    {α β γ : Type} (list : List α) (part : α → List β) (step : γ → β → m γ)
    (start : γ) :
    (list.flatMap part).foldlM step start =
      list.foldlM (fun result item => (part item).foldlM step result)
        start := by
  induction list generalizing start with
  | nil => rfl
  | cons head tail ih =>
      rw [List.flatMap_cons, List.foldlM_append, List.foldlM_cons]
      congr 1
      funext result
      exact ih result

private theorem mapM_id_ok (point : List Degree) :
    (point.map Except.ok).mapM (id : Except Fault Degree → _) =
      .ok point := by
  induction point with
  | nil => rfl
  | cons degree rest ih =>
      rw [List.map_cons, List.mapM_cons, ih]
      rfl

private theorem mapM_id_error (degrees : List Degree) (fault : Fault) :
    (degrees.map Except.ok ++ [Except.error fault]).mapM
        (id : Except Fault Degree → _) = .error fault := by
  induction degrees with
  | nil => rfl
  | cons degree rest ih =>
      rw [List.map_cons, List.cons_append, List.mapM_cons, ih]
      rfl

section

variable {facts : FactSet} {best : BestPoint}

theorem consider_of_isOne (full : best.truth.isOne = true)
    (point : List Degree) : facts.consider best point = best := by
  apply if_neg
  rw [Degree.lt_iff, Degree.isOne_iff.mp full]
  exact Nat.not_lt_of_le (facts.truthAt point).atMostOne

theorem foldl_consider_of_isOne (full : best.truth.isOne = true)
    (points : List (List Degree)) :
    points.foldl facts.consider best = best := by
  induction points with
  | nil => rfl
  | cons point rest ih => rw [List.foldl_cons, consider_of_isOne full, ih]

theorem foldlM_considerOffered_of_isOne (full : best.truth.isOne = true)
    (offered : List (List (Except Fault Degree))) :
    offered.foldlM facts.considerOffered best = .ok best := by
  induction offered with
  | nil => rfl
  | cons point rest ih =>
      have kept : facts.considerOffered best point = .ok best := if_pos full
      rw [List.foldlM_cons, kept]
      exact ih

theorem considerOffered_ok (point : List Degree) :
    facts.considerOffered best (point.map Except.ok) =
      .ok (facts.consider best point) := by
  by_cases full : best.truth.isOne = true
  · rw [consider_of_isOne full]
    exact if_pos full
  · rw [considerOffered, if_neg full, mapM_id_ok]
    rfl

/-- Points of degrees are considered one after the other. -/
theorem foldlM_considerOffered_ok (points : List (List Degree)) :
    (points.map (List.map Except.ok)).foldlM facts.considerOffered best =
      .ok (points.foldl facts.consider best) := by
  induction points generalizing best with
  | nil => rfl
  | cons point rest ih =>
      rw [List.map_cons, List.foldlM_cons, considerOffered_ok,
        List.foldl_cons]
      exact ih

theorem considerOffered_error (notFull : best.truth.isOne = false)
    (degrees : List Degree) (fault : Fault) :
    facts.considerOffered best
        (degrees.map Except.ok ++ [Except.error fault]) = .error fault := by
  rw [considerOffered, if_neg (Bool.eq_false_iff.mp notFull), mapM_id_error]
  rfl

/-- The nested loops visit the points of the grid in their order. -/
theorem searchGrid_eq_foldlM {grid : List (Except Fault Degree)}
    (remaining : Nat) (chosen : List (Except Fault Degree))
    (notFull : best.truth.isOne = false) :
    searchGrid facts facts.atoms grid remaining chosen best =
      ((points grid remaining).map fun point =>
        chosen.reverse ++ point).foldlM facts.considerOffered best := by
  induction remaining generalizing chosen best with
  | zero =>
      rw [searchGrid, points, List.map_singleton, List.append_nil,
        List.foldlM_cons, considerOffered,
        if_neg (Bool.eq_false_iff.mp notFull)]
      cases chosen.reverse.mapM id <;> rfl
  | succ remaining ih =>
      have turn : ∀ (result : BestPoint) (value : Except Fault Degree),
          (if result.truth.isOne then pure result
            else searchGrid facts facts.atoms grid remaining (value :: chosen)
              result) =
            ((points grid remaining).map fun point =>
              chosen.reverse ++ value :: point).foldlM facts.considerOffered
                result := by
        intro result value
        cases full : result.truth.isOne with
        | true =>
            rw [foldlM_considerOffered_of_isOne full]
            rfl
        | false =>
            rw [if_neg Bool.false_ne_true, ih (value :: chosen) full,
              List.reverse_cons]
            simp only [List.append_assoc, List.singleton_append]
      rw [searchGrid, points, List.map_flatMap, foldlM_flatMap]
      simp only [turn, List.map_map, Function.comp_def]

end

/-- A listed point that is truer than all before it and as true as all after
it. -/
def IsFirstBestOf (facts : FactSet) (points : List (List Degree))
    (point : List Degree) : Prop :=
  ∃ before after, points = before ++ point :: after ∧
    (∀ other ∈ before, facts.truthAt other < facts.truthAt point) ∧
      ∀ other ∈ after, facts.truthAt other ≤ facts.truthAt point

namespace IsFirstBestOf

variable {facts : FactSet} {points : List (List Degree)}
  {point head : List Degree}

theorem mem (firstBest : facts.IsFirstBestOf points point) :
    point ∈ points := by
  obtain ⟨before, after, rfl, _⟩ := firstBest
  simp

theorem le (firstBest : facts.IsFirstBestOf points point)
    {other : List Degree} (member : other ∈ points) :
    facts.truthAt other ≤ facts.truthAt point := by
  obtain ⟨before, after, rfl, below, notAbove⟩ := firstBest
  rcases List.mem_append.mp member with earlier | inRest
  · exact Nat.le_of_lt (below other earlier)
  · rcases List.mem_cons.mp inRest with rfl | later
    · exact Nat.le_refl _
    · exact notAbove other later

/-- A point that is less true than a later one can stand in front. -/
theorem cons (firstBest : facts.IsFirstBestOf points point)
    (less : facts.truthAt head < facts.truthAt point) :
    facts.IsFirstBestOf (head :: points) point := by
  obtain ⟨before, after, rfl, below, notAbove⟩ := firstBest
  exact ⟨head :: before, after, rfl,
    List.forall_mem_cons.mpr ⟨less, below⟩, notAbove⟩

/-- A point that is no truer than the first can stand behind it. -/
theorem insert {other : List Degree}
    (firstBest : facts.IsFirstBestOf (head :: points) point)
    (notTruer : facts.truthAt other ≤ facts.truthAt head) :
    facts.IsFirstBestOf (head :: other :: points) point := by
  obtain ⟨before, after, split, below, notAbove⟩ := firstBest
  cases before with
  | nil =>
      obtain ⟨rfl, rfl⟩ := List.cons.inj split
      exact ⟨[], other :: points, rfl, nofun,
        List.forall_mem_cons.mpr ⟨notTruer, notAbove⟩⟩
  | cons first before =>
      obtain ⟨rfl, rfl⟩ := List.cons.inj split
      obtain ⟨headBelow, _⟩ := List.forall_mem_cons.mp below
      refine ⟨head :: other :: before, after, rfl, ?_, notAbove⟩
      rw [List.forall_mem_cons, List.forall_mem_cons] at *
      exact ⟨headBelow, Nat.lt_of_le_of_lt notTruer headBelow, below.2⟩

end IsFirstBestOf

section

variable {facts : FactSet}

/-- Considering points one after the other ends with the first best of them. -/
theorem isFirstBestOf_foldl_consider {best : BestPoint}
    (sound : best.truth = facts.truthAt best.point)
    (points : List (List Degree)) :
    (points.foldl facts.consider best).truth =
        facts.truthAt (points.foldl facts.consider best).point ∧
      facts.IsFirstBestOf (best.point :: points)
        (points.foldl facts.consider best).point := by
  induction points generalizing best with
  | nil => exact ⟨sound, [], [], rfl, nofun, nofun⟩
  | cons point rest ih =>
      rw [List.foldl_cons, consider]
      split
      · rename_i truer
        obtain ⟨soundEnd, firstBest⟩ :=
          @ih ⟨point, facts.truthAt point⟩ rfl
        refine ⟨soundEnd, firstBest.cons ?_⟩
        rw [sound] at truer
        exact Nat.lt_of_lt_of_le truer (firstBest.le List.mem_cons_self)
      · rename_i notTruer
        obtain ⟨soundEnd, firstBest⟩ := ih sound
        refine ⟨soundEnd, firstBest.insert ?_⟩
        rw [sound] at notTruer
        exact Nat.le_of_not_lt notTruer

/-- Where the search begins: at zeros, with no truth found. -/
def searchStart (facts : FactSet) : BestPoint :=
  ⟨facts.atoms.map fun _ => Degree.zero, Degree.zero⟩

theorem isOne_searchStart (facts : FactSet) :
    facts.searchStart.truth.isOne = false := by
  apply Bool.eq_false_iff.mpr
  intro full
  have unitPos := Binary64.unit_pos
  have := Degree.isOne_iff.mp full
  change 0 = Binary64.unit at this
  omega

/-- The point that the search starts with is the first one, so its truth is
found in the first turn. -/
theorem consider_searchStart (facts : FactSet) :
    facts.consider facts.searchStart
        (List.replicate facts.atoms.length Degree.zero) =
      ⟨List.replicate facts.atoms.length Degree.zero,
        facts.truthAt (List.replicate facts.atoms.length Degree.zero)⟩ := by
  have zeros : facts.searchStart.point =
      List.replicate facts.atoms.length Degree.zero :=
    List.map_const'
  rw [consider]
  split
  · rfl
  · rename_i notTruer
    have vanishing : facts.truthAt
        (List.replicate facts.atoms.length Degree.zero) = Degree.zero := by
      apply Degree.ext_units
      · change ¬0 < _ at notTruer
        rw [Degree.units_zero]
        omega
      · exact negativeZero_truth facts _
    rw [vanishing, ← zeros]
    rfl

/-- What the search chooses among the points of some degrees. -/
def choice (facts : FactSet) (degrees : List Degree) : BestPoint :=
  (points degrees facts.atoms.length).foldl facts.consider facts.searchStart

/-- From zeros on, the first best point is chosen among any points. -/
theorem isFirstBestOf_foldl_searchStart (facts : FactSet)
    (later : List (List Degree)) :
    let zeros := List.replicate facts.atoms.length Degree.zero
    let chosen := (zeros :: later).foldl facts.consider facts.searchStart
    chosen.truth = facts.truthAt chosen.point ∧
      facts.IsFirstBestOf (zeros :: later) chosen.point := by
  intro zeros chosen
  have turned : chosen =
      later.foldl facts.consider ⟨zeros, facts.truthAt zeros⟩ := by
    simp only [chosen, List.foldl_cons, zeros, consider_searchStart]
  rw [turned]
  exact @isFirstBestOf_foldl_consider facts ⟨zeros, facts.truthAt zeros⟩ rfl
    later

/-- A point of a grid that is as true as any point of the grid and truer than
every lexicographically smaller one. -/
structure IsFirstBest (facts : FactSet) (degrees : List Degree)
    (point : List Degree) : Prop where
  onGrid : point.length = facts.atoms.length ∧
    ∀ degree ∈ point, degree ∈ degrees
  best : ∀ other : List Degree, other.length = facts.atoms.length →
    (∀ degree ∈ other, degree ∈ degrees) →
      facts.truthAt other ≤ facts.truthAt point
  first : ∀ other : List Degree, other.length = facts.atoms.length →
    (∀ degree ∈ other, degree ∈ degrees) →
      other.map Degree.units < point.map Degree.units →
        facts.truthAt other < facts.truthAt point

variable {degrees : List Degree}
  (startsAtZero : degrees.head? = some Degree.zero)

include startsAtZero

theorem isFirstBestOf_choice :
    (facts.choice degrees).truth =
        facts.truthAt (facts.choice degrees).point ∧
      facts.IsFirstBestOf (points degrees facts.atoms.length)
        (facts.choice degrees).point := by
  obtain ⟨rest, rfl⟩ := List.head?_eq_some_iff.mp startsAtZero
  obtain ⟨later, equality⟩ :=
    exists_points_eq_cons Degree.zero rest facts.atoms.length
  rw [choice, equality]
  exact isFirstBestOf_foldl_searchStart facts later

/-- The search chooses the lexicographically first of the truest points. -/
theorem isFirstBest_choice (ascending : degrees.Pairwise (· ≤ ·))
    (unsigned : ∀ degree ∈ degrees, degree.negativeZero = false) :
    facts.IsFirstBest degrees (facts.choice degrees).point := by
  obtain ⟨_, firstBest⟩ := @isFirstBestOf_choice facts degrees startsAtZero
  have ordered := listsSmallerBefore_points ascending unsigned
    facts.atoms.length
  constructor
  · exact mem_points.mp firstBest.mem
  · intro other length onGrid
    exact firstBest.le (mem_points.mpr ⟨length, onGrid⟩)
  · intro other length onGrid smaller
    obtain ⟨before, after, split, below, _⟩ := firstBest
    exact below other (ordered _ _ _ split other
      (mem_points.mpr ⟨length, onGrid⟩) smaller)

end

theorem asDegree_toBinary64 (degree : Degree) :
    (Datum.number degree.toBinary64).asDegree = .ok degree := by
  rw [Datum.asDegree, Datum.asDegreeOf, Degree.ofBinary64?_toBinary64]

/-- The search accepts the grid's numbers as degrees when it comes to them. -/
def offersOf (numbers : List Binary64) : List (Except Fault Degree) :=
  numbers.map fun number => (Datum.number number).asDegree

theorem offersOf_toBinary64 (degrees : List Degree) :
    offersOf (degrees.map Degree.toBinary64) = degrees.map Except.ok := by
  rw [offersOf, List.map_map]
  exact List.map_congr_left fun degree _ => asDegree_toBinary64 degree

/-- The search on the offers of a grid, from its start. -/
def search (facts : FactSet) (numbers : List Binary64) :
    Except Fault BestPoint :=
  searchGrid facts facts.atoms (offersOf numbers) facts.atoms.length []
    facts.searchStart

theorem search_eq_foldlM (facts : FactSet) (numbers : List Binary64) :
    facts.search numbers =
      (points (offersOf numbers) facts.atoms.length).foldlM
        facts.considerOffered facts.searchStart := by
  rw [search, searchGrid_eq_foldlM _ _ (isOne_searchStart facts)]
  simp

/-- A grid of degrees is searched to its end, and so is any grid where there are
no atoms. -/
theorem search_eq_choice {facts : FactSet} {numbers : List Binary64}
    {degrees : List Degree}
    (accepted : offersOf numbers = degrees.map Except.ok ∨ facts.atoms = []) :
    facts.search numbers = .ok (facts.choice degrees) := by
  have listed : points (offersOf numbers) facts.atoms.length =
      (points degrees facts.atoms.length).map (List.map Except.ok) := by
    rcases accepted with allDegrees | noAtoms
    · rw [allDegrees, points_map]
    · rw [noAtoms]
      rfl
  rw [search_eq_foldlM, listed, foldlM_considerOffered_ok, choice]

/-- The points that a search visits before it comes to the last number of the
grid: zeros, and any other number at the end. -/
def firstRow (facts : FactSet) (below : List Degree) : List (List Degree) :=
  below.map fun degree =>
    List.replicate (facts.atoms.length - 1) Degree.zero ++ [degree]

/-- The search comes to a last number above one: there are atoms, and no point
that is visited before makes the facts fully true. -/
def ReachesAboveOne (facts : FactSet) (below : List Degree) (last : Binary64) :
    Prop :=
  Binary64.one.lt last = true ∧ facts.atoms ≠ [] ∧
    ∀ point ∈ facts.firstRow below, (facts.truthAt point).isOne = false

/-- A search that does not come to a last number above one has found full truth
before, unless there are no atoms. -/
theorem exists_isOne_of_not_reachesAboveOne {facts : FactSet}
    {below : List Degree} {last : Binary64}
    (above : Binary64.one.lt last = true) (hasAtoms : facts.atoms ≠ [])
    (avoids : ¬facts.ReachesAboveOne below last) :
    ∃ point ∈ facts.firstRow below, (facts.truthAt point).isOne = true := by
  by_contra notFound
  apply avoids
  refine ⟨above, hasAtoms, ?_⟩
  intro point member
  apply Bool.eq_false_iff.mpr
  intro full
  exact notFound ⟨point, member, full⟩

section

variable {facts : FactSet} {below : List Degree} {last : Binary64}
  (startsAtZero : below.head? = some Degree.zero)
  (hasAtoms : facts.atoms ≠ [])

include startsAtZero hasAtoms

/-- The points of a grid with a last number that is refused begin with the first
row and the first refused point. -/
theorem exists_points_offers_eq (fault : Fault) :
    ∃ later,
      points (below.map Except.ok ++ [Except.error fault])
          facts.atoms.length =
        (facts.firstRow below).map (List.map Except.ok) ++
          ((List.replicate (facts.atoms.length - 1) Degree.zero).map
              Except.ok ++ [Except.error fault]) :: later := by
  obtain ⟨rest, rfl⟩ := List.head?_eq_some_iff.mp startsAtZero
  obtain ⟨count, length⟩ := Nat.exists_eq_succ_of_ne_zero
    (mt List.length_eq_zero_iff.mp hasAtoms)
  obtain ⟨later, equality⟩ := exists_points_succ_eq
    (Except.ok Degree.zero : Except Fault Degree)
    (rest.map Except.ok ++ [Except.error fault]) count
  refine ⟨later, ?_⟩
  rw [length, List.map_cons, List.cons_append, equality, firstRow, length]
  simp [List.map_map, Function.comp_def]

theorem exists_points_eq_firstRow_append :
    ∃ later, points below facts.atoms.length =
      facts.firstRow below ++ later := by
  obtain ⟨rest, rfl⟩ := List.head?_eq_some_iff.mp startsAtZero
  obtain ⟨count, length⟩ := Nat.exists_eq_succ_of_ne_zero
    (mt List.length_eq_zero_iff.mp hasAtoms)
  obtain ⟨later, equality⟩ :=
    exists_points_succ_eq Degree.zero rest count
  refine ⟨later, ?_⟩
  rw [length, equality, firstRow, length]
  rfl

theorem onGrid_of_mem_firstRow {point : List Degree}
    (member : point ∈ facts.firstRow below) :
    point.length = facts.atoms.length ∧ ∀ degree ∈ point, degree ∈ below := by
  obtain ⟨later, complete⟩ :=
    exists_points_eq_firstRow_append startsAtZero hasAtoms
  apply mem_points.mp
  rw [complete]
  exact List.mem_append_left _ member

/-- The best point of the first row is fully true exactly when a point of the
row is. -/
theorem isOne_foldl_firstRow_iff :
    ((facts.firstRow below).foldl facts.consider
        facts.searchStart).truth.isOne = true ↔
      ∃ point ∈ facts.firstRow below,
        (facts.truthAt point).isOne = true := by
  obtain ⟨rest, rfl⟩ := List.head?_eq_some_iff.mp startsAtZero
  have zeros : List.replicate (facts.atoms.length - 1) Degree.zero ++
      [Degree.zero] = List.replicate facts.atoms.length Degree.zero := by
    rw [← List.replicate_succ', Nat.sub_add_cancel
      (List.length_pos_of_ne_nil hasAtoms)]
  rw [firstRow, List.map_cons, zeros]
  obtain ⟨sound, firstBest⟩ := isFirstBestOf_foldl_searchStart facts
    (rest.map fun degree =>
      List.replicate (facts.atoms.length - 1) Degree.zero ++ [degree])
  constructor
  · intro full
    exact ⟨_, firstBest.mem, sound ▸ full⟩
  · rintro ⟨point, member, full⟩
    rw [sound, Degree.isOne_iff_one_le]
    exact Nat.le_trans (Degree.isOne_iff_one_le.mp full) (firstBest.le member)

/-- The search of a grid with a last number that is refused fails when it comes
to this number, and otherwise ends before with the choice among the others. -/
theorem search_eq_of_refused {fault : Fault}
    (offered : offersOf (below.map Degree.toBinary64 ++ [last]) =
      below.map Except.ok ++ [Except.error fault]) :
    facts.search (below.map Degree.toBinary64 ++ [last]) =
      if ∃ point ∈ facts.firstRow below,
          (facts.truthAt point).isOne = true then
        .ok (facts.choice below)
      else .error fault := by
  obtain ⟨later, listed⟩ :=
    exists_points_offers_eq startsAtZero hasAtoms fault
  obtain ⟨others, complete⟩ :=
    exists_points_eq_firstRow_append startsAtZero hasAtoms
  have found := isOne_foldl_firstRow_iff startsAtZero hasAtoms
  rw [search_eq_foldlM, offered, listed, List.foldlM_append,
    foldlM_considerOffered_ok, choice, complete, List.foldl_append]
  generalize (facts.firstRow below).foldl facts.consider facts.searchStart =
    best at found ⊢
  cases full : best.truth.isOne with
  | true =>
      rw [if_pos (found.mp full), foldl_consider_of_isOne full]
      exact foldlM_considerOffered_of_isOne full _
  | false =>
      rw [if_neg (mt found.mpr (Bool.eq_false_iff.mp full))]
      change (((List.replicate (facts.atoms.length - 1) Degree.zero).map
        Except.ok ++ [Except.error fault]) :: later).foldlM
          facts.considerOffered best = _
      rw [List.foldlM_cons, considerOffered_error full]
      rfl

end

end FactSet

end Possibilistic
