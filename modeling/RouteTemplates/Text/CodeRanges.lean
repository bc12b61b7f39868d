/-!
# Ranges of code points

Classes of characters are given as tables of closed ranges in ascending order.
The order lets a search stop at the first range that begins beyond the code
point sought, so the characters at the front of a table, ASCII above all, cost
next to nothing.
-/

namespace RouteTemplates

/-- Closed ranges of code points in ascending order. -/
abbrev CodeRanges := List (Nat × Nat)

namespace CodeRanges

/-- Whether one of the ranges holds the code point. -/
def covers : CodeRanges → Nat → Bool
  | [], _ => false
  | (low, high) :: more, n => if n < low then false else n ≤ high || covers more n

end CodeRanges
end RouteTemplates
