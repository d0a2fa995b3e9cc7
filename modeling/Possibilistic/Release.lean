import Possibilistic.Fault

/-!
# Releases

A release has three numbers and an optional tag.  Its text is split at the
first hyphen; the part before is split at every point and must give exactly
three integers, the part after is the tag.
-/

namespace Possibilistic

structure Release where
  major : Int
  minor : Int
  patch : Int
  tag : String := ""
deriving DecidableEq

namespace Release

/-- The pieces between the occurrences of a separator. -/
def splitAt (separator : Char) : List Char → List (List Char)
  | [] => [[]]
  | c :: rest =>
      if c = separator then [] :: splitAt separator rest
      else
        match splitAt separator rest with
        | [] => [[c]]
        | piece :: pieces => (c :: piece) :: pieces

/-- The three integers that points separate. -/
def numbers? (front : List Char) : Option (Int × Int × Int) := do
  match ← (splitAt '.' front).mapM fun piece =>
      Numeral.integer? (String.ofList piece) with
  | [major, minor, patch] => some (major, minor, patch)
  | _ => none

def parse? (text : String) : Option Release := do
  let front := text.toList.takeWhile (· ≠ '-')
  let tag := (text.toList.dropWhile (· ≠ '-')).drop 1
  let (major, minor, patch) ← numbers? front
  pure { major, minor, patch, tag := String.ofList tag }

/-- The release that a text writes, with the fault of a text that writes
none. -/
def parse (text : String) : Except Fault Release :=
  match parse? text with
  | some release => .ok release
  | none => .error .unreadableNumber

def text (release : Release) : String :=
  let numbers := toString release.major ++ "." ++ toString release.minor ++
    "." ++ toString release.patch
  if release.tag.isEmpty then numbers else numbers ++ "-" ++ release.tag

/-- The release of this library. -/
def current : Release :=
  { major := 0, minor := 2, patch := 0 }

end Release

end Possibilistic
