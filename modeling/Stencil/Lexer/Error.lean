import Stencil.Source.Stream
import Stencil.Text.Quoted
import Stencil.Token.Vocabulary

/-!
# Lexer — Error

Why a text cannot be cut into tokens.  A comment or a string that does not end is reported where it
begins, a tag that does not end where the text ends, and an unknown character where it stands.
-/

namespace Stencil.Lexer

/-- A fault in a text, with its line and column.  Reading past the end is no fault of the text: it
only answers a caller who asks for a character where none is left. -/
inductive Error
  | unterminatedComment (line column : Int)
  | unterminatedString (line column : Int)
  | unterminatedTag (tag : Tag) (line column : Int)
  | unexpectedCharacter (c : Char) (line column : Int)
  | pastEnd (place : Place)
  deriving DecidableEq

/-- The sentence for a fault. -/
def Error.message : Error → String
  | unterminatedComment line column => s!"Unterminated comment at line {line}, col {column}"
  | unterminatedString line column => s!"Unterminated string at line {line}, col {column}"
  | unterminatedTag tag line column =>
    s!"Unterminated tag, expected {Text.quoted (String.ofList tag.closer)} at line {line}, " ++
      s!"col {column}"
  | unexpectedCharacter c line column =>
    s!"Unexpected character {Text.quoted (String.ofList [c])} at line {line}, col {column}"
  | pastEnd place => place.pastEndMessage

end Stencil.Lexer
