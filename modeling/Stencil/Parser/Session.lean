import Stencil.Parser.Grammar

/-!
# Parser — Session

A list of tokens with a position in it, to be parsed rule by rule.  Every token taken moves the
position on by one.  It is moved on behind the last token as well, where the token taken is the one
that stands for the end; a rule that fails leaves it where it was then.
-/

namespace Stencil.Parser

/-- Tokens and a position in them. -/
structure Session where
  tokens : List Token
  position : Nat

namespace Session

/-- The start of a list of tokens. -/
def ofTokens (ts : List Token) : Session := ⟨dropEnd ts, 0⟩

/-- The tokens from the position on. -/
def left (s : Session) : List Token := s.tokens.drop s.position

/-- The session one token on, even if there is none. -/
def next (s : Session) : Session := { s with position := s.position + 1 }

instance : TokenStream Session where
  left := left
  next := next

/-- The result of a rule, and the session behind it. -/
def run {α : Type} (rule : ParserOn Session α) (s : Session) : Except Failure α × Session :=
  match EStateM.run rule s with
  | .ok a after => (.ok a, after)
  | .error e after => (.error e, after)

/-- Do these kinds come next?  No kinds come next as long as the position is not beyond the end. -/
def sees (kinds : List Token.Kind) (s : Session) : Bool :=
  decide (s.position + kinds.length ≤ s.tokens.length) && beginsWith kinds s.left

end Session

end Stencil.Parser
