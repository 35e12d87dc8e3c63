/-!
# Ranges of code points

Properties of characters above ASCII are kept as ascending tables of inclusive ranges. Case
mappings are kept as runs of code points that move by one distance.
-/

namespace Canonmark

abbrev RangeTable := List (Nat × Nat)

/-- Membership in an ascending table; the search stops at the first range that starts later. -/
def RangeTable.contains : RangeTable → Nat → Bool
  | [], _ => false
  | (lo, hi) :: ranges, n =>
      if n < lo then false else n ≤ hi || RangeTable.contains ranges n

/-- Every `step`-th code point from `lo` to `hi` has an image, that of `lo` being `image`. -/
structure CaseRun where
  lo : Nat
  hi : Nat
  step : Nat
  image : Nat

namespace CaseRun

def image? (run : CaseRun) (n : Nat) : Option Nat :=
  if run.lo ≤ n ∧ n ≤ run.hi ∧ (n - run.lo) % run.step = 0 then
    some (run.image + (n - run.lo))
  else none

def lookup? (runs : List CaseRun) (n : Nat) : Option Nat :=
  runs.findSome? (·.image? n)

end CaseRun

end Canonmark
