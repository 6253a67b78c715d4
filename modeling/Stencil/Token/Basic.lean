import Stencil.Text.Quoted
import Stencil.Token.Kind

/-!
# Token

A token is a kind, a value and the line and column of its first character.  Line 0 stands for a
token without a place, such as the one that stands for the end of the input; a message names the
place of a token only if it has one (`describe_endOfInput`).
-/

namespace Stencil

/-- A token of a template. -/
structure Token where
  kind : Token.Kind
  value : String
  line : Int
  column : Int
  deriving DecidableEq

namespace Token

/-- The token that stands for the end of the input. -/
def endOfInput : Token := ⟨.endOfInput, "EOF", 0, 0⟩

/-- The token in a message: its kind, its quoted value and its place. -/
def description (t : Token) : String :=
  let place := if t.line = 0 then "" else s!" at line {t.line}, col {t.column}"
  s!"{t.kind.name} ({Text.quoted t.value}){place}"

/-- A token, or none, in a message. -/
def describe : Option Token → String
  | none => "end of input"
  | some t => t.description

/-- The token in a listing: its kind and its value as it is. -/
def listed (t : Token) : String := s!"Token({t.kind.name}, {t.value})"

/-- A list of tokens in a listing. -/
def listing (ts : List Token) : String := "[" ++ ", ".intercalate (ts.map listed) ++ "]"

end Token

end Stencil
