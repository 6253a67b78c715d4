/-!
# Text — Ranges

A class of characters as ranges of code points in rising order.  `covers` decides membership, and
`start?` also says where the range found begins.  A search ends at the first range that starts beyond
the code point, so the common characters are found at once.
-/

namespace Stencil.Text

/-- Ranges of code points, both ends included, disjoint and in rising order. -/
abbrev Ranges := List (Nat × Nat)

namespace Ranges

/-- Is the code point in one of the ranges? -/
def covers : Ranges → Nat → Bool
  | [], _ => false
  | (lo, hi) :: rest, n => decide (lo ≤ n) && (decide (n ≤ hi) || covers rest n)

/-- The first code point of the range that holds the given one. -/
def start? : Ranges → Nat → Option Nat
  | [], _ => none
  | (lo, hi) :: rest, n => if lo ≤ n then (if n ≤ hi then some lo else start? rest n) else none

end Ranges

end Stencil.Text
