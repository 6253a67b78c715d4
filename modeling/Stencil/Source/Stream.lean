import Stencil.Source.Place

/-!
# Source — Stream

Characters to be read.  A `Cursor` is a place with the text from there on, and only moves forward.
A `Stream` also keeps the whole text, so that it can look back and return to a marked place; what is
left at a marked place depends on its position alone (`rest_reset`).
-/

namespace Stencil

/-- A place and the text from there on. -/
structure Cursor where
  place : Place
  rest : List Char
  deriving DecidableEq

namespace Cursor

/-- The cursor behind `passed`, where `rest` is left. -/
def past (c : Cursor) (passed rest : List Char) : Cursor := ⟨c.place.after passed, rest⟩

/-- The next character and the cursor behind it. -/
def next? (c : Cursor) : Option (Char × Cursor) :=
  match c.rest with
  | [] => none
  | ch :: rest => some (ch, c.past [ch] rest)

end Cursor

/-- The message of an attempt to read at a place that has no character. -/
def Place.pastEndMessage (p : Place) : String :=
  s!"CharacterStreamError: Attempted to read past end of source at position=<{p.position}>, " ++
    s!"line=<{p.line}>"

/-- A text with a cursor in it. -/
structure Stream where
  source : List Char
  cursor : Cursor
  deriving DecidableEq

namespace Stream

/-- A stream that stands at a place, even one beyond the end of its text. -/
def openAt (source : String) (place : Place) : Stream :=
  ⟨source.toList, place, source.toList.drop place.position⟩

/-- The next character and the stream behind it. -/
def next? (s : Stream) : Option (Char × Stream) :=
  s.cursor.next?.map fun (c, cursor) => (c, { s with cursor })

/-- The character at a distance from the cursor, which may lie behind it. -/
def peek? (s : Stream) (offset : Int) : Option Char :=
  match (s.cursor.place.position : Int) + offset with
  | .ofNat index => s.source[index]?
  | .negSucc _ => none

/-- Is `text` next?  The empty text is next everywhere up to the end. -/
def startsWith (s : Stream) (text : List Char) : Bool :=
  decide (s.cursor.place.position ≤ s.source.length) && text.isPrefixOf s.cursor.rest

/-- Is nothing left? -/
def atEnd (s : Stream) : Bool := decide (s.source.length ≤ s.cursor.place.position)

/-- The place to return to. -/
def mark (s : Stream) : Place := s.cursor.place

/-- The stream at a marked place. -/
def reset (s : Stream) (place : Place) : Stream :=
  { s with cursor := ⟨place, s.source.drop place.position⟩ }

theorem mark_reset (s : Stream) (place : Place) : (s.reset place).mark = place := rfl

theorem rest_reset (s : Stream) (place : Place) :
    (s.reset place).cursor.rest = s.source.drop place.position := rfl

end Stream

end Stencil
