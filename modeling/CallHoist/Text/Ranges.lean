/-!
# Ranges of code points

A property of characters is written as the list of its ranges of code points, in ascending order.
-/

namespace CallHoist.Text

/-- Whether one of the ranges holds a code point. The ranges ascend, so the search ends at the first that lies above. -/
def inRanges : List (Nat × Nat) → Nat → Bool
  | [], _ => false
  | (lo, hi) :: rest, n =>
    if n < lo then false
    else if n ≤ hi then true
    else inRanges rest n

end CallHoist.Text
