import Stencil.Number.Shortest

/-!
# Number

The numbers of a template: integers of any size and doubles.  Two numbers are the same if their
exact values are, whatever their kinds: `1` is `1.0` and `0.0` is `-0.0`, but no integer is
infinite, and the value that is no number is the same as nothing, itself included (`same_iff`).
-/

namespace Stencil

/-- A number of a template. -/
inductive Number
  | integer (value : Int)
  | float (value : Binary64)
  deriving DecidableEq

namespace Number

/-- An exact value: a count of units of 2⁻¹⁰⁷⁴, an infinity, or no number. -/
inductive Value
  | exact (units : Int)
  | infinite (negative : Bool)
  | nan
  deriving DecidableEq

/-- The exact value of a number. -/
def value : Number → Value
  | integer n => .exact (n * Binary64.one)
  | float (.finite negative rank) =>
    .exact (if negative then -(Binary64.units rank : Int) else Binary64.units rank)
  | float (.infinite negative) => .infinite negative
  | float .nan => .nan

/-- Do the numbers have one exact value? -/
def same (a b : Number) : Bool := a.value != .nan && a.value == b.value

theorem same_iff {a b : Number} : same a b = true ↔ a.value ≠ .nan ∧ a.value = b.value := by
  simp [same]

end Number

end Stencil
