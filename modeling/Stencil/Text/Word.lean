import Stencil.Text.Letter
import Stencil.Text.Digit

/-!
# Text — Word

The characters of words.  A word starts with a letter or `_` and goes on with letters, numerics and
`_`; what may start a word may also continue one (`isWord_of_startsWord`).
-/

namespace Stencil.Text

/-- May the character start a word? -/
def startsWord (c : Char) : Bool := isLetter c || c == '_'

/-- May the character stand inside a word? -/
def isWord (c : Char) : Bool := isLetter c || isNumeric c || c == '_'

theorem isWord_of_startsWord {c : Char} (h : startsWord c = true) : isWord c = true := by
  simp only [startsWord, Bool.or_eq_true] at h
  rcases h with h | h <;> simp [isWord, h]

end Stencil.Text
