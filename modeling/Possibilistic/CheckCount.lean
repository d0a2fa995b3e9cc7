/-!
# Counting checks

A count of entailment checks that several inquiries may add to.
-/

namespace Possibilistic

structure CheckCount where
  value : Int
deriving DecidableEq

namespace CheckCount

def zero : CheckCount :=
  ⟨0⟩

def increment (count : CheckCount) (amount : Int := 1) : CheckCount :=
  ⟨count.value + amount⟩

/-- The value held, and the count at zero. -/
def reset (count : CheckCount) : Int × CheckCount :=
  (count.value, zero)

def shown (count : CheckCount) : String :=
  "EntailmentCounter(" ++ toString count.value ++ ")"

end CheckCount

end Possibilistic
