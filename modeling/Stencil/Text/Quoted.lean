import Stencil.Text.Hexadecimal
import Stencil.Text.Printable

/-!
# Text — Quoted

A text as a message shows it: between quotation marks, with escapes for what could not be seen.
The mark is the single one, except around a text that has single marks and no double ones.
A backslash, the mark in use, newline, return and tab are escaped by a backslash; any other
character that is not printable is shown by its code point in two, four or eight digits.
-/

namespace Stencil.Text.Quoted

/-- The mark in use unless a text calls for the other. -/
def singleMark : Char := '\x27'

/-- The mark around a text that has single marks and no double ones. -/
def doubleMark : Char := '\x22'

/-- The quotation mark around a text. -/
def mark (cs : List Char) : Char :=
  if cs.contains singleMark && !cs.contains doubleMark then doubleMark else singleMark

/-- The code point of a character in the shortest of the three escapes that can hold it. -/
def escapeCode (c : Char) : List Char :=
  if c.toNat < 0x100 then '\\' :: 'x' :: hexadecimal 2 c.toNat
  else if c.toNat < 0x10000 then '\\' :: 'u' :: hexadecimal 4 c.toNat
  else '\\' :: 'U' :: hexadecimal 8 c.toNat

/-- A character as it is shown between two marks `m`. -/
def shown (m c : Char) : List Char :=
  if c = '\\' ∨ c = m then ['\\', c]
  else if c = '\n' then ['\\', 'n']
  else if c = '\r' then ['\\', 'r']
  else if c = '\t' then ['\\', 't']
  else if isPrintable c then [c]
  else escapeCode c

/-- A text between its marks. -/
def chars (cs : List Char) : List Char :=
  mark cs :: cs.flatMap (shown (mark cs)) ++ [mark cs]

end Quoted

/-- A text between quotation marks, with escapes. -/
def quoted (text : String) : String := String.ofList (Quoted.chars text.toList)

/-- At most the first `limit` characters of the quoted text. -/
def quotedUpTo (limit : Nat) (text : String) : String :=
  String.ofList ((Quoted.chars text.toList).take limit)

end Stencil.Text
