import Stencil.Text.Hexadecimal

/-!
# Text — Utf8

Bytes as UTF-8 text.  `decode` reads the bytes from left to right and stops at the first sequence
that is not well formed.  A fault names the longest part of that sequence which could still have
become a character: the lead byte and the continuation bytes that fit it.
-/

namespace Stencil.Text.Utf8

/-- Why a sequence of bytes is not a character. -/
inductive Reason
  /-- No character begins with this byte. -/
  | start
  /-- The next byte does not continue the character. -/
  | continuation
  /-- The bytes end inside a character. -/
  | ending
  deriving DecidableEq

/-- The sentence for a reason. -/
def Reason.message : Reason → String
  | start => "invalid start byte"
  | continuation => "invalid continuation byte"
  | ending => "unexpected end of data"

/-- An ill-formed sequence: where it begins, its bytes, and what is wrong with it. -/
structure Fault where
  position : Nat
  bytes : List UInt8
  reason : Reason
  deriving DecidableEq

/-- Names the one byte, or the first and last position of several. -/
def Fault.message (fault : Fault) : String :=
  let place := match fault.bytes with
    | [byte] =>
      s!"byte 0x{String.ofList (hexadecimal 2 byte.toNat)} in position {fault.position}"
    | bytes => s!"bytes in position {fault.position}-{fault.position + bytes.length - 1}"
  s!"'utf-8' codec can't decode {place}: {fault.reason.message}"

/-- A character of which some bytes are read: the bounds of the next byte, the count of bytes that
follow the next one, the bits so far, and the bytes so far in reverse. -/
structure Pending where
  low : UInt8
  high : UInt8
  later : Nat
  bits : Nat
  reversed : List UInt8

/-- What the first byte of a character says. -/
inductive Lead
  | whole (c : Char)
  | partly (pending : Pending)
  | unfit

/-- The second byte is bounded so that no character has two spellings, none is a surrogate and none
lies beyond the last code point. -/
def Lead.ofByte (b : UInt8) : Lead :=
  let n := b.toNat
  if n < 0x80 then whole (Char.ofNat n)
  else if n < 0xC2 then unfit
  else if n < 0xE0 then partly ⟨0x80, 0xBF, 0, n - 0xC0, [b]⟩
  else if n < 0xF0 then
    partly ⟨if n = 0xE0 then 0xA0 else 0x80, if n = 0xED then 0x9F else 0xBF, 1, n - 0xE0, [b]⟩
  else if n < 0xF5 then
    partly ⟨if n = 0xF0 then 0x90 else 0x80, if n = 0xF4 then 0x8F else 0xBF, 2, n - 0xF0, [b]⟩
  else unfit

/-- Reads on at a position, inside a character or between two. -/
def decodeFrom : Nat → Option Pending → List UInt8 → Except Fault (List Char)
  | _, none, [] => .ok []
  | position, some p, [] =>
    .error ⟨position - p.reversed.length, p.reversed.reverse, .ending⟩
  | position, none, b :: rest =>
    match Lead.ofByte b with
    | .whole c => (decodeFrom (position + 1) none rest).map (c :: ·)
    | .partly p => decodeFrom (position + 1) (some p) rest
    | .unfit => .error ⟨position, [b], .start⟩
  | position, some p, b :: rest =>
    if p.low ≤ b ∧ b ≤ p.high then
      let bits := p.bits * 64 + (b.toNat - 0x80)
      match p.later with
      | 0 => (decodeFrom (position + 1) none rest).map (Char.ofNat bits :: ·)
      | later + 1 =>
        decodeFrom (position + 1) (some ⟨0x80, 0xBF, later, bits, b :: p.reversed⟩) rest
    else .error ⟨position - p.reversed.length, p.reversed.reverse, .continuation⟩

/-- The characters that the bytes spell, or the first fault. -/
def decode (bytes : List UInt8) : Except Fault (List Char) := decodeFrom 0 none bytes

/-- The bytes of a text. -/
def encode (text : String) : List UInt8 := text.toUTF8.toList

end Stencil.Text.Utf8
