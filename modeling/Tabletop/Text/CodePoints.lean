/-!
# Sets of code points

A property of characters, such as being whitespace, is a set of code points given by its ranges.
-/

namespace Tabletop.Text

/-- A set of code points: closed ranges in ascending order, none touching another. -/
structure CodePoints where
  ranges : List (Nat × Nat)

/-- Look `n` up in ascending ranges. The search ends at the first range that lies beyond `n`. -/
def CodePoints.search (n : Nat) : List (Nat × Nat) → Bool
  | [] => false
  | (lo, hi) :: ranges => lo ≤ n && (n ≤ hi || search n ranges)

/-- Does the character belong to the set? -/
def CodePoints.contains (set : CodePoints) (c : Char) : Bool :=
  search c.toNat set.ranges

end Tabletop.Text
