import Mathlib.Data.List.TakeWhile
import Possibilistic.Proofs.Numeral.Integer
import Possibilistic.Release

/-!
# The text of a release reads as the release

Far more texts are read as releases than are written: a number may stand between
blanks, have a plus sign and separators, and use the digits of any script.  The
front of a text has no hyphen, though, so every number that is read is natural,
and the digits that it is written with are few enough to be read again.  The tag
is whatever follows the first hyphen.
-/

namespace Possibilistic

-- Powers of natural numbers are those of the core library everywhere.
attribute [local instance (2000)] instPowNat

namespace Release

theorem splitAt_of_not_mem {separator : Char} {piece : List Char}
    (absent : separator ∉ piece) : splitAt separator piece = [piece] := by
  induction piece with
  | nil => rfl
  | cons c rest ih =>
      obtain ⟨different, notInRest⟩ := not_or.mp (mt List.mem_cons.mpr absent)
      rw [splitAt, if_neg (Ne.symm different), ih notInRest]

/-- The pieces around a separator. -/
theorem splitAt_append {separator : Char} {piece : List Char}
    (absent : separator ∉ piece) (rest : List Char) :
    splitAt separator (piece ++ separator :: rest) =
      piece :: splitAt separator rest := by
  induction piece with
  | nil => rw [List.nil_append, splitAt, if_pos rfl]
  | cons c later ih =>
      obtain ⟨different, notInLater⟩ := not_or.mp (mt List.mem_cons.mpr absent)
      rw [List.cons_append, splitAt, if_neg (Ne.symm different),
        ih notInLater]

theorem mem_of_mem_splitAt {separator c : Char} {characters piece : List Char}
    (isPiece : piece ∈ splitAt separator characters) (member : c ∈ piece) :
    c ∈ characters := by
  induction characters generalizing piece with
  | nil =>
      rw [splitAt, List.mem_singleton] at isPiece
      exact isPiece ▸ member
  | cons first rest ih =>
      rw [splitAt] at isPiece
      split at isPiece
      · rcases List.mem_cons.mp isPiece with isEmpty | isLater
        · rw [isEmpty] at member
          cases member
        · exact List.mem_cons_of_mem _ (ih isLater member)
      · split at isPiece
        · rw [List.mem_singleton.mp isPiece] at member
          exact List.mem_cons.mpr (.inl (List.mem_singleton.mp member))
        · rename_i head later split
          rcases List.mem_cons.mp isPiece with isHead | isLater
          · rw [isHead] at member
            rcases List.mem_cons.mp member with isFirst | inHead
            · exact List.mem_cons.mpr (.inl isFirst)
            · apply List.mem_cons_of_mem
              exact ih (split ▸ List.mem_cons_self) inHead
          · apply List.mem_cons_of_mem
            exact ih (split ▸ List.mem_cons_of_mem _ isLater) member

/-- Every number that is read comes from one of the pieces. -/
theorem exists_of_mem_mapM {α β : Type} {read : α → Option β} {items : List α}
    {values : List β} (success : items.mapM read = some values) {value : β}
    (member : value ∈ values) : ∃ item ∈ items, read item = some value := by
  induction items generalizing values with
  | nil =>
      cases success
      cases member
  | cons item rest ih =>
      rw [List.mapM_cons] at success
      obtain ⟨first, firstRead, remaining⟩ := Option.bind_eq_some_iff.mp success
      obtain ⟨others, othersRead, equality⟩ :=
        Option.bind_eq_some_iff.mp remaining
      cases equality
      rcases List.mem_cons.mp member with isFirst | isOther
      · exact ⟨item, List.mem_cons_self, isFirst ▸ firstRead⟩
      · obtain ⟨source, inRest, sourceRead⟩ := ih othersRead isOther
        exact ⟨source, List.mem_cons_of_mem _ inRest, sourceRead⟩

/-- A release whose numbers are read again when they are written. -/
def IsReadable (release : Release) : Prop :=
  ∀ number ∈ [release.major, release.minor, release.patch],
    Numeral.IsReadable number

/-- The part before the first hyphen cannot write a negative number, whatever
else it can write. -/
theorem isReadable_of_parse? {text : String} {release : Release}
    (read : parse? text = some release) : release.IsReadable := by
  obtain ⟨⟨major, minor, patch⟩, numbersRead, assembled⟩ :=
    Option.bind_eq_some_iff.mp read
  cases assembled
  obtain ⟨values, valuesRead, three⟩ := Option.bind_eq_some_iff.mp numbersRead
  split at three
  · cases three
    intro number member
    obtain ⟨piece, isPiece, pieceRead⟩ := exists_of_mem_mapM valuesRead member
    apply Numeral.isReadable_of_integer? _ pieceRead
    intro inPiece
    rw [String.toList_ofList] at inPiece
    have inFront := mem_of_mem_splitAt isPiece inPiece
    have beforeHyphen := List.mem_takeWhile_imp inFront
    exact of_decide_eq_true beforeHyphen rfl
  · cases three

theorem not_mem_toDigits {c : Char} (other : c.isDigit = false)
    (number : Nat) : c ∉ Nat.toDigits 10 number := by
  intro member
  have digit := Numeral.areDigits_toDigits number c member
  rw [other] at digit
  cases digit

section

variable (major minor patch : Nat)

/-- The characters that three natural numbers are written with. -/
def front : List Char :=
  Nat.toDigits 10 major ++ '.' ::
    (Nat.toDigits 10 minor ++ '.' :: Nat.toDigits 10 patch)

theorem hyphen_not_mem_front : '-' ∉ front major minor patch := by
  simp [front, not_mem_toDigits (c := '-') rfl]

theorem splitAt_front : splitAt '.' (front major minor patch) =
    [Nat.toDigits 10 major, Nat.toDigits 10 minor, Nat.toDigits 10 patch] := by
  have unpointed := not_mem_toDigits (c := '.') rfl
  rw [front, splitAt_append (unpointed major), splitAt_append (unpointed minor),
    splitAt_of_not_mem (unpointed patch)]

/-- A text is its numbers, followed by a hyphen and the tag if there is one. -/
theorem toList_text (tag : String) :
    (text ⟨major, minor, patch, tag⟩).toList = front major minor patch ++
      if tag.isEmpty then [] else '-' :: tag.toList := by
  have written : ∀ number : Nat, toString (number : Int) = Nat.repr number :=
    fun _ => rfl
  unfold text
  split <;> simp [written, front, Nat.toList_repr]

variable {major minor patch}

theorem numbers?_front (majorSmall : major < 10 ^ Numeral.integerDigitLimit)
    (minorSmall : minor < 10 ^ Numeral.integerDigitLimit)
    (patchSmall : patch < 10 ^ Numeral.integerDigitLimit) :
    numbers? (front major minor patch) =
      some ((major : Int), (minor : Int), (patch : Int)) := by
  rw [numbers?, splitAt_front]
  simp [Numeral.integer?_toDigits, majorSmall, minorSmall, patchSmall]

end

/-- The tag may have points and hyphens of its own: the front is over before
it begins. -/
theorem parse?_text {release : Release} (readable : release.IsReadable) :
    parse? release.text = some release := by
  obtain ⟨major, minor, patch, tag⟩ := release
  simp only [IsReadable, List.forall_mem_cons] at readable
  obtain ⟨⟨major, majorSmall, rfl⟩, ⟨minor, minorSmall, rfl⟩,
    ⟨patch, patchSmall, rfl⟩, _⟩ := readable
  have unhyphened : ∀ c ∈ front major minor patch, decide (c ≠ '-') = true := by
    rintro c member
    rw [decide_eq_true_eq]
    rintro rfl
    exact hyphen_not_mem_front major minor patch member
  have numbersRead := numbers?_front majorSmall minorSmall patchSmall
  rw [parse?, toList_text, List.takeWhile_append_of_pos unhyphened,
    List.dropWhile_append_of_pos unhyphened]
  split
  · rename_i untagged
    rw [String.isEmpty_iff.mp untagged]
    simp [numbersRead]
  · simp [numbersRead]

theorem parse_eq_ok_iff {text : String} {release : Release} :
    parse text = .ok release ↔ parse? text = some release := by
  unfold parse
  split
  · rename_i read
    simp [read]
  · rename_i unread
    simp [unread]

/-- Reading and writing a release are inverse: a release that any text writes
is read again from its own text, and so is every release of natural numbers
that are short enough, whatever its tag. -/
theorem parse_and_text_are_inverse :
    (∀ (written : String) (release : Release),
      parse written = .ok release → parse release.text = parse written) ∧
    (∀ (major minor patch : Nat) (tag : String),
      major < 10 ^ Numeral.integerDigitLimit →
      minor < 10 ^ Numeral.integerDigitLimit →
      patch < 10 ^ Numeral.integerDigitLimit →
        parse (text ⟨major, minor, patch, tag⟩) =
          .ok ⟨major, minor, patch, tag⟩) := by
  constructor
  · intro written release read
    rw [read, parse_eq_ok_iff]
    exact parse?_text (isReadable_of_parse? (parse_eq_ok_iff.mp read))
  · intro major minor patch tag majorSmall minorSmall patchSmall
    apply parse_eq_ok_iff.mpr
    apply parse?_text
    simp only [IsReadable, List.forall_mem_cons]
    exact ⟨⟨major, majorSmall, rfl⟩, ⟨minor, minorSmall, rfl⟩,
      ⟨patch, patchSmall, rfl⟩, List.forall_mem_nil _⟩

theorem parse_and_text_are_inverse_candidate :
    parse " +1_0.\u0663.05-rc.1-x" = .ok ⟨10, 3, 5, "rc.1-x"⟩ ∧
    parse (text ⟨10, 3, 5, "rc.1-x"⟩) = parse " +1_0.\u0663.05-rc.1-x" ∧
    parse (text ⟨0, 3, 0, "-a.b-"⟩) = .ok ⟨0, 3, 0, "-a.b-"⟩ := by
  have read : parse " +1_0.\u0663.05-rc.1-x" = .ok ⟨10, 3, 5, "rc.1-x"⟩ :=
    parse_eq_ok_iff.mpr (by decide +kernel)
  have below : ∀ number < 10, number < 10 ^ Numeral.integerDigitLimit :=
    fun number small => Nat.lt_of_lt_of_le small
      (Nat.le_self_pow (by decide) 10)
  exact ⟨read, parse_and_text_are_inverse.1 _ _ read,
    parse_and_text_are_inverse.2 0 3 0 "-a.b-" (below 0 (by decide))
      (below 3 (by decide)) (below 0 (by decide))⟩

end Release

end Possibilistic
