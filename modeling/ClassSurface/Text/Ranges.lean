/-! # Text.Ranges — sets of code points given by ranges

A table is an ascending list of disjoint closed ranges of code points.
-/

namespace ClassSurface.Text

/-- Looks a character up in an ascending table; the search ends at the first range beyond it. -/
def inRanges : List (Nat × Nat) → Char → Bool
  | [], _ => false
  | (lo, hi) :: rest, c => if c.toNat < lo then false else c.toNat ≤ hi || inRanges rest c

end ClassSurface.Text
