/-!
# Text — Hexadecimal

Numbers in lower-case hexadecimal, filled up with zeros to a least width.
-/

namespace Stencil.Text

/-- The hexadecimal digits of `n`, at least `width` of them. -/
def hexadecimal (width n : Nat) : List Char :=
  let digits := Nat.toDigits 16 n
  List.replicate (width - digits.length) '0' ++ digits

end Stencil.Text
