/-!
# Runs of characters

Sets of characters given by the lengths of the runs of their codes.
-/

namespace Skiff

/-- How many codes in a row are out of a set and in it, by turns and from code zero on. -/
abbrev CodeRuns := List Nat

/-- Whether a code is in the set. Behind the first run, in and out have changed places. -/
def CodeRuns.has : CodeRuns → Nat → Bool
  | [], _ => false
  | run :: runs, code => run ≤ code && !CodeRuns.has runs (code - run)

end Skiff
