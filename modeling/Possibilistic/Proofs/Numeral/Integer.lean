import Mathlib.Data.List.Induction
import Possibilistic.Proofs.Numeral.Reading

/-!
# Reading integers

Only a hyphen makes an integer negative, and no other character is taken for
one.  An integer of a text without hyphens is therefore natural, and it has no
more digits than are read: it can be written and read again.
-/

namespace Possibilistic

-- Powers of natural numbers are those of the core library everywhere.
attribute [local instance (2000)] instPowNat

namespace Numeral

theorem digitsValue_lt {digits : List Char} (areDigits : AreDigits digits) :
    digitsValue digits < 10 ^ digits.length := by
  induction digits using List.reverseRecOn with
  | nil => exact Nat.zero_lt_one
  | append_singleton digits last ih =>
      obtain ⟨earlierDigits, lastDigit⟩ := List.forall_mem_append.mp areDigits
      have below := ih earlierDigits
      have bounds :=
        Char.isDigit_iff_toNat.mp (lastDigit last List.mem_cons_self)
      have ten : last.toNat - '0'.toNat < 10 :=
        Nat.sub_lt_right_of_lt_add bounds.1 (Nat.lt_succ_of_le bounds.2)
      have value : digitsValue (digits ++ [last]) =
          digitsValue digits * 10 + (last.toNat - '0'.toNat) := by
        rw [digitsValue, List.foldl_append]
        rfl
      rw [value, List.length_append, List.length_singleton, Nat.pow_succ]
      omega

theorem mem_of_withoutSeparators? {digitBefore : Bool}
    {characters kept : List Char}
    (success : withoutSeparators? digitBefore characters = some kept)
    {c : Char} (member : c ∈ kept) : c ∈ characters := by
  induction characters generalizing digitBefore kept with
  | nil =>
      cases success
      cases member
  | cons first rest ih =>
      by_cases separator : first = '_'
      · subst separator
        cases rest with
        | nil => cases success
        | cons next later =>
            rw [withoutSeparators?] at success
            split at success
            · exact List.mem_cons_of_mem _ (ih success member)
            · cases success
      · rw [withoutSeparators?] at success
        · obtain ⟨others, read, equality⟩ :=
            Option.map_eq_some_iff.mp success
          subst equality
          rcases List.mem_cons.mp member with isFirst | isLater
          · rw [isFirst]
            exact List.mem_cons_self
          · exact List.mem_cons_of_mem _ (ih read isLater)
        · rintro rfl _
          exact separator rfl
        · rintro next later rfl _
          exact separator rfl

theorem mem_of_mem_trimBlanks {characters : List Char} {c : Char}
    (member : c ∈ Text.trimBlanks characters) : c ∈ characters := by
  have inTail := List.mem_reverse.mp member
  have inReversed := (List.dropWhile_suffix _).subset inTail
  exact (List.dropWhile_suffix _).subset (List.mem_reverse.mp inReversed)

/-- Only a hyphen is read as a hyphen. -/
theorem asciiDigit_eq_hyphen_iff {c : Char} :
    Text.asciiDigit c = '-' ↔ c = '-' := by
  constructor
  · intro equality
    unfold Text.asciiDigit at equality
    split at equality
    · exact equality
    · split at equality
      · exact absurd equality (Nat.digitChar_ne '-' rfl)
      · exact equality
  · rintro rfl
    rfl

theorem hyphen_not_mem_canonical? {text : String} {characters : List Char}
    (absent : '-' ∉ text.toList)
    (canonical : canonical? text = some characters) : '-' ∉ characters := by
  intro member
  obtain ⟨c, inText, isHyphen⟩ :=
    List.mem_map.mp (mem_of_withoutSeparators? canonical member)
  rw [asciiDigit_eq_hyphen_iff.mp isHyphen] at inText
  exact absent (mem_of_mem_trimBlanks inText)

theorem takeSign_of_not_mem {characters : List Char}
    (absent : '-' ∉ characters) : (takeSign characters).1 = false := by
  unfold takeSign
  split
  · exact absurd List.mem_cons_self absent
  · rfl
  · rfl

/-- A natural number with no more digits than are read. -/
def IsReadable (number : Int) : Prop :=
  ∃ natural : Nat, natural < 10 ^ integerDigitLimit ∧ number = natural

/-- A number that is read from a text without a hyphen can be read again from
its own digits. -/
theorem isReadable_of_integer? {text : String} {value : Int}
    (absent : '-' ∉ text.toList) (read : integer? text = some value) :
    IsReadable value := by
  obtain ⟨characters, canonical, rest⟩ := Option.bind_eq_some_iff.mp read
  have unsigned :=
    takeSign_of_not_mem (hyphen_not_mem_canonical? absent canonical)
  generalize takeSign characters = taken at rest unsigned
  obtain ⟨negative, digits⟩ := taken
  cases unsigned
  dsimp only at rest
  split at rest
  · cases rest
  · rename_i accepted
    simp only [Bool.or_eq_true, not_or, Bool.not_eq_true', Bool.not_eq_false,
      decide_eq_true_eq, Nat.not_lt] at accepted
    obtain ⟨⟨_, allDigits⟩, few⟩ := accepted
    have below := digitsValue_lt (List.all_eq_true.mp allDigits)
    have bounded : digitsValue digits < 10 ^ integerDigitLimit :=
      Nat.lt_of_lt_of_le below (Nat.pow_le_pow_right (by decide) few)
    exact ⟨digitsValue digits, bounded, (Option.some.inj rest).symm⟩

theorem takeSign_of_areDigits {digits : List Char}
    (areDigits : AreDigits digits) : takeSign digits = (false, digits) := by
  unfold takeSign
  split
  · cases areDigits '-' List.mem_cons_self
  · cases areDigits '+' List.mem_cons_self
  · rfl

theorem integer?_toDigits {number : Nat}
    (small : number < 10 ^ integerDigitLimit) :
    integer? (String.ofList (Nat.toDigits 10 number)) = some number := by
  have areDigits : ∀ c ∈ Nat.toDigits 10 number, c.isDigit = true :=
    areDigits_toDigits number
  have few : (Nat.toDigits 10 number).length ≤ integerDigitLimit :=
    (Nat.length_toDigits_le_iff (by decide) (by decide)).mpr small
  have canonical : canonical? (String.ofList (Nat.toDigits 10 number)) =
      some (Nat.toDigits 10 number) :=
    canonical?_of_plain fun c member => isPlain_of_isDigit (areDigits c member)
  rw [integer?, canonical]
  simpa [takeSign_of_areDigits areDigits, few, digitsValue_toDigits,
    Nat.toDigits_ne_nil] using areDigits

end Numeral

end Possibilistic
