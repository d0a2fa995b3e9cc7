import Possibilistic.Errand

/-!
# The command line

Prints the report of the errand.
-/

open Possibilistic in
/-- Prints the lines of the errand's report, or why there is none. -/
def main : IO UInt32 := do
  match Errand.lines with
  | .ok lines =>
      for line in lines do
        IO.println line
      pure 0
  | .error fault =>
      IO.eprintln (fault.message?.getD "")
      pure 1
