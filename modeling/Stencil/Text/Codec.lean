import Stencil.Text.Hexadecimal
import Stencil.Text.Printable
import Stencil.Text.Word

/-!
# Text — Codec

Encodings, as far as a writer of texts sees them: some characters can be written, and others cannot.
A text is written in whole, or not at all for the first characters in it that cannot be
(`Codec.fault?`).

The bytes of an argument need not be text.  A byte that belongs to no character is then taken as a
character of its own, which has no meaning in a template and which UTF-8 cannot write.  Since Unicode
has no such character, another one stands in for it (`StandIns`), one that a template treats alike.
-/

namespace Stencil.Text

/-- An encoding. -/
structure Codec where
  name : String
  /-- Can the character be written? -/
  encodes : Char → Bool
  /-- Why it cannot. -/
  reason : String

namespace Codec

/-- Characters in a row that cannot be written, and the place of the first of them. -/
structure Fault where
  codec : Codec
  position : Nat
  refused : List Char

/-- Names the one character, or the first and last position of several.  The character is named by
itself: whoever prints the sentence spells it out. -/
def Fault.message (fault : Fault) : String :=
  let place := match fault.refused with
    | [c] => s!"character '{c}' in position {fault.position}"
    | cs => s!"characters in position {fault.position}-{fault.position + cs.length - 1}"
  s!"'{fault.codec.name}' codec can't encode {place}: {fault.codec.reason}"

/-- The first characters of a text that cannot be written, if there are any. -/
def fault? (codec : Codec) (text : String) : Option Fault :=
  match text.toList.dropWhile codec.encodes with
  | [] => none
  | c :: cs => some ⟨codec, (text.toList.takeWhile codec.encodes).length,
      c :: cs.takeWhile (!codec.encodes ·)⟩

end Codec

/-- Characters that stand in for bytes which belong to no character.  They are shown in a message as
they are, and neither the syntax of templates nor that of the arguments knows any of them. -/
structure StandIns where
  table : List (Char × UInt8)
  inert : ∀ entry ∈ table,
    0x80 ≤ entry.1.toNat ∧ isWord entry.1 = false ∧ isPrintable entry.1 = true

namespace StandIns

/-- Every argument is text. -/
def none : StandIns := ⟨[], nofun⟩

/-- The byte that a character stands in for. -/
def byte? (s : StandIns) (c : Char) : Option UInt8 := s.table.lookup c

/-- UTF-8 writes every character but those that stand in for a byte. -/
def utf8 (s : StandIns) : Codec :=
  ⟨"utf-8", fun c => (s.byte? c).isNone, "surrogates not allowed"⟩

end StandIns

end Stencil.Text
