import Stencil.Text.Ranges

/-!
# Text — Blank

The blank characters and the trimming of a text.  Between tokens the template language knows only
the four `isSpacing` characters; all of `isBlank` counts where a whole line is judged.  Every
spacing character is blank (`isBlank_of_isSpacing`).
-/

namespace Stencil.Text

/-- The code points of the blank characters. -/
def blanks : Ranges :=
  [(0x9, 0xD), (0x1C, 0x20), (0x85, 0x85), (0xA0, 0xA0), (0x1680, 0x1680), (0x2000, 0x200A),
   (0x2028, 0x2029), (0x202F, 0x202F), (0x205F, 0x205F), (0x3000, 0x3000)]

/-- Is the character blank? -/
def isBlank (c : Char) : Bool := blanks.covers c.toNat

/-- The characters that may stand between two tokens of a tag: space, tab, return and newline. -/
def isSpacing : Char → Bool
  | ' ' | '\t' | '\r' | '\n' => true
  | _ => false

theorem isBlank_of_isSpacing {c : Char} (h : isSpacing c = true) : isBlank c = true := by
  unfold isSpacing at h
  split at h
  · decide
  · decide
  · decide
  · decide
  · contradiction

/-- A text without the characters in `drop` at either end. -/
def trim (drop : Char → Bool) (cs : List Char) : List Char :=
  ((cs.dropWhile drop).reverse.dropWhile drop).reverse

end Stencil.Text
