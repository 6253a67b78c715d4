import Stencil.Lexer.Basic
import Stencil.Parser.Grammar

/-!
# Template

From the text of a template to its tree.  The whole text is cut into tokens before any of them is
parsed, so a fault in the text comes before every error of structure (`read_of_tokenize_error`).
-/

namespace Stencil.Template

/-- Why a text has no tree. -/
inductive Failure
  | lexical (error : Lexer.Error)
  | structural (failure : Parser.Failure)
  deriving DecidableEq

/-- The sentence for a failure. -/
def Failure.message : Failure → String
  | lexical e => e.message
  | structural (.malformed e) => e.message
  | structural (.numeral e) => e.message

/-- The sentence as it is reported to a user.  Where the limit of nesting is met says nothing about
the template, so that token is left out. -/
def Failure.report : Failure → String
  | structural (.malformed ⟨.nestingTooDeep, _⟩) => "Nesting too deep"
  | failure => failure.message

/-- The tokens of a template. -/
def tokens (source : String) : Except Failure (List Token) :=
  (tokenize source).mapError .lexical

/-- The tree of tokens. -/
def tree (ts : List Token) : Except Failure Node := (parse ts).mapError .structural

/-- The tree of a template. -/
def read (source : String) : Except Failure Node := do tree (← tokens source)

theorem read_of_tokenize_error {source : String} {e : Lexer.Error}
    (h : tokenize source = .error e) : read source = .error (.lexical e) := by
  unfold read tokens
  rw [h]
  rfl

end Stencil.Template
