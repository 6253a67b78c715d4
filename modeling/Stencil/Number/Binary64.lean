/-!
# Number — Binary64

Double-precision numbers as plain data.  The finite magnitudes are numbered from zero in rising
order, and a magnitude is its number, its *rank*.  Every magnitude is a whole count of *units* of
2⁻¹⁰⁷⁴, so the value of a number is exact integer arithmetic: `units` gives the count for a rank,
and `nearestRank` goes back from any ratio of units, to the even rank at a tie.

* `units_of_lt`: below twice 2⁵² rank and count are the same.
* `units_lt_units_succ`: a larger rank is a larger magnitude.
-/

namespace Stencil

/-- The count of fractions of one exponent, which is 2⁵². -/
def Binary64.fractions : Nat := 4503599627370496

/-- The count of finite magnitudes: 2047 exponents with all their fractions. -/
def Binary64.ranks : Nat := 2047 * fractions

/-- A double-precision number: a sign with the rank of a magnitude, an infinity, or no number. -/
inductive Binary64
  | finite (negative : Bool) (rank : Fin Binary64.ranks)
  | infinite (negative : Bool)
  | nan
  deriving DecidableEq

namespace Binary64

/-- The magnitude of a rank as a count of units of 2⁻¹⁰⁷⁴. -/
def units (rank : Nat) : Nat :=
  if rank < fractions then rank
  else (fractions + rank % fractions) <<< (rank / fractions - 1)

theorem units_of_lt {rank : Nat} (h : rank < 2 * fractions) : units rank = rank := by
  unfold units
  unfold fractions at *
  by_cases small : rank < 4503599627370496
  · exact if_pos small
  · have hq : rank / 4503599627370496 - 1 = 0 := by omega
    rw [if_neg small, hq, Nat.shiftLeft_zero]
    omega

/-- A larger rank is a larger magnitude. -/
theorem units_lt_units_succ (rank : Nat) : units rank < units (rank + 1) := by
  by_cases small : rank + 1 < 2 * fractions
  · rw [units_of_lt small, units_of_lt (by omega)]
    omega
  · unfold units
    unfold fractions at *
    rw [if_neg (by omega), if_neg (by omega), Nat.shiftLeft_eq, Nat.shiftLeft_eq]
    by_cases carry : rank % 4503599627370496 = 4503599627370495
    · have hr : (rank + 1) % 4503599627370496 = 0 := by omega
      have hq : (rank + 1) / 4503599627370496 - 1 = rank / 4503599627370496 - 1 + 1 := by omega
      rw [carry, hr, hq]
      generalize rank / 4503599627370496 - 1 = e
      rw [Nat.pow_succ 2 e, Nat.mul_comm (2 ^ e), ← Nat.mul_assoc]
      exact Nat.mul_lt_mul_of_pos_right (by decide) (Nat.two_pow_pos _)
    · have hr : (rank + 1) % 4503599627370496 = rank % 4503599627370496 + 1 := by omega
      have hq : (rank + 1) / 4503599627370496 = rank / 4503599627370496 := by omega
      rw [hr, hq]
      exact Nat.mul_lt_mul_of_pos_right (by omega) (Nat.two_pow_pos _)

/-- The count of units in one, which is 2¹⁰⁷⁴. -/
def one : Nat := 1 <<< 1074

/-- The power of ten with an exponent, and one if the exponent is negative. -/
def tenPower (exponent : Int) : Nat := Nat.pow 10 exponent.toNat

/-- The whole number nearest to `n / d`, the even one at a tie. -/
def roundHalfEven (n d : Nat) : Nat :=
  let q := n / d
  let twice := 2 * (n % d)
  if twice < d then q else if d < twice then q + 1 else q + q % 2

/-- The rank nearest to `n / d` units.  Magnitudes of one exponent are 2ˢ units apart, where `s`
is zero as long as the count has at most 53 binary digits. -/
def nearestRank (n d : Nat) : Nat :=
  let s := Nat.log2 (n / d) - 52
  s * fractions + roundHalfEven n (d <<< s)

/-- The number nearest to `n / d`; beyond the largest rank lies infinity. -/
def ofRatio (negative : Bool) (n d : Nat) : Binary64 :=
  let rank := nearestRank (n * one) d
  if h : rank < ranks then finite negative ⟨rank, h⟩ else infinite negative

/-- Zero with a sign. -/
def zero (negative : Bool) : Binary64 := finite negative ⟨0, by decide⟩

/-- The whole number that decimal digits write. -/
def digitsValue (digits : List Nat) : Nat := digits.foldl (fun n d => 10 * n + d) 0

/-- The number nearest to `digits · 10 ^ exponent`.  A value of 10³¹⁰ and more is beyond every
finite magnitude and one below 10⁻³³⁰ rounds to zero, whatever its digits are. -/
def ofDecimal (negative : Bool) (digits : List Nat) (exponent : Int) : Binary64 :=
  let significant := digits.dropWhile (· == 0)
  let top := significant.length + exponent
  if significant.isEmpty ∨ top < -330 then zero negative
  else if top > 310 then infinite negative
  else ofRatio negative (digitsValue significant * tenPower exponent) (tenPower (-exponent))

end Binary64

end Stencil
