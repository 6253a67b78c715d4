import Stencil.Number.Binary64

/-!
# Number — Shortest

The shortest decimal that reads back as a given magnitude, and its text.

A decimal reads back if it lies between the midpoints to the two neighbouring magnitudes; the
midpoints themselves count for an even rank, because ties go to the even rank.  With `n` digits
only two decimals can be nearest: those on either side of the value.  The search takes one digit,
then two, and so on; seventeen digits always suffice.  Of two decimals that read back the nearer
is taken, and the even one at a tie.

All is exact: magnitudes are counts of units of 2⁻¹⁰⁷⁴, and decimals are compared with them in half
units.
-/

namespace Stencil.Binary64

/-- The decimal `digits · 10 ^ exponent`. -/
structure Decimal where
  digits : Nat
  exponent : Int

/-- Does the decimal read back as the magnitude of this rank? -/
def readsBack (rank : Nat) (d : Decimal) : Bool :=
  let lower := (units (rank - 1) + units rank) * tenPower (-d.exponent)
  let upper := (units rank + units (rank + 1)) * tenPower (-d.exponent)
  let value := d.digits * tenPower d.exponent * (2 * one)
  if rank % 2 = 0 then decide (lower ≤ value ∧ value ≤ upper)
  else decide (lower < value ∧ value < upper)

/-- The exponent of the first digit of a positive magnitude: the largest `p` such that `10 ^ p` is
not beyond it. -/
def leadingExponent (rank : Nat) : Int :=
  ((Nat.toDigits 10 (units rank * tenPower 324 / one)).length : Int) - 325

/-- The shortest choice among the decimals with a given last exponent, if one reads back. -/
def nearestOn? (rank : Nat) (exponent : Int) : Option Decimal :=
  let n := units rank * tenPower (-exponent)
  let d := one * tenPower exponent
  let below : Decimal := ⟨n / d, exponent⟩
  let above : Decimal := ⟨n / d + 1, exponent⟩
  let nearer := if roundHalfEven n d = n / d then below else above
  [nearer, below, above].find? (readsBack rank)

/-- The shortest decimal with at most `tries` more digits, from the given last exponent on. -/
def searchFrom (rank : Nat) : Nat → Int → Decimal
  | 0, exponent => ⟨units rank * tenPower (-exponent) / (one * tenPower exponent), exponent⟩
  | tries + 1, exponent => (nearestOn? rank exponent).getD (searchFrom rank tries (exponent - 1))

/-- The shortest decimal that reads back as a positive magnitude. -/
def shortest (rank : Nat) : Decimal := searchFrom rank 17 (leadingExponent rank)

/-! ### Text -/

/-- How a number is laid out: the exponents of the first digit that are written without an
exponent part, and the least width of an exponent. -/
structure Layout where
  leastPositional : Int
  mostPositional : Int
  exponentWidth : Nat

/-- From 0.0001 to below 10¹⁶ a number is written out; the exponents of others have two digits or
more. -/
def layout : Layout := ⟨-4, 15, 2⟩

/-- The decimal digits of a number, filled up with zeros on the left. -/
def paddedDigits (width n : Nat) : List Char :=
  let digits := Nat.toDigits 10 n
  List.replicate (width - digits.length) '0' ++ digits

/-- The text of `0.digits · 10 ^ point` without an exponent, with a digit on either side of the
point. -/
def positionalText (digits : List Char) (point : Int) : List Char :=
  if point ≤ 0 then '0' :: '.' :: List.replicate (-point).toNat '0' ++ digits
  else
    let whole := digits.take point.toNat
    let part := digits.drop point.toNat
    whole ++ List.replicate (point.toNat - whole.length) '0' ++ '.' ::
      (if part.isEmpty then ['0'] else part)

/-- The text of `0.digits · 10 ^ point` with one digit before the point and an exponent. -/
def exponentText (l : Layout) (digits : List Char) (point : Int) : List Char :=
  let part := digits.drop 1
  let exponent := point - 1
  digits.take 1 ++ (if part.isEmpty then [] else '.' :: part) ++
    'e' :: (if exponent < 0 then '-' else '+') :: paddedDigits l.exponentWidth exponent.natAbs

/-- The text of a decimal; zeros at the end of its digits are left out. -/
def Decimal.text (l : Layout) (d : Decimal) : List Char :=
  let digits := Nat.toDigits 10 d.digits
  let point := digits.length + d.exponent
  let significant := (digits.reverse.dropWhile (· == '0')).reverse
  if l.leastPositional ≤ point - 1 ∧ point - 1 ≤ l.mostPositional then
    positionalText significant point
  else exponentText l significant point

/-- The text of a magnitude. -/
def magnitudeText (rank : Nat) : List Char :=
  if rank = 0 then ['0', '.', '0'] else (shortest rank).text layout

/-- The text of a number, with the given words for infinity and for no number. -/
def text (infinity noNumber : String) : Binary64 → String
  | finite negative rank =>
    String.ofList (if negative then '-' :: magnitudeText rank else magnitudeText rank)
  | infinite negative => if negative then "-" ++ infinity else infinity
  | nan => noNumber

end Stencil.Binary64
