/-!
Character classes given as tables of code-point ranges.

A table lists closed ranges in increasing order, so a lookup may stop at the first range that
starts above the code point.
-/

namespace ModuleBundler.Text

/-- Membership of a code point in a table of closed ranges sorted by their lower ends. -/
def inRanges : List (Nat × Nat) → Nat → Bool
  | [], _ => false
  | (lo, hi) :: rest, n => if n < lo then false else n ≤ hi || inRanges rest n

end ModuleBundler.Text
