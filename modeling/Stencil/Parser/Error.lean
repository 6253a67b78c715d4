import Stencil.Number.Numeral
import Stencil.Token.Basic

/-!
# Parser — Error

Why tokens are not a template.  An error has a cause and the token at which the parser noticed it;
one made by hand may have no token.  A number that cannot be read is no error of the template's
structure, but ends the parsing all the same (`Failure.numeral`).
-/

namespace Stencil.Parser

/-- What is wrong with the structure of a template. -/
inductive Cause
  /-- Nothing of the kind `context` begins with the token. -/
  | unexpectedToken (context : String)
  /-- A token of another kind had to come. -/
  | expectedToken (expected : Token.Kind)
  /-- The variable of a loop is no name. -/
  | loopVariable (found : String)
  /-- What stands before `=` among arguments is no name. -/
  | keywordTarget (found : String)
  | testName (found : String)
  | filterName (found : String)
  | propertyName (found : String)
  /-- A slice has more than three parts. -/
  | sliceParts (count : Int)
  | emptyIndex
  | nestingTooDeep
  /-- Any other cause, in words. -/
  | general (message : String)
  deriving DecidableEq

/-- A structural error. -/
structure Error where
  cause : Cause
  token : Option Token
  deriving DecidableEq

/-- The name of the class of errors that a cause belongs to. -/
def Cause.name : Cause → String
  | unexpectedToken _ => "UnexpectedToken"
  | expectedToken _   => "ExpectedToken"
  | loopVariable _    => "InvalidLoopVariable"
  | keywordTarget _   => "InvalidKeywordArgumentTarget"
  | testName _        => "InvalidTestName"
  | filterName _      => "InvalidFilterName"
  | propertyName _    => "InvalidPropertyAccess"
  | sliceParts _      => "MalformedSlice"
  | emptyIndex        => "EmptyIndexExpression"
  | nestingTooDeep    => "NestingTooDeep"
  | general _         => "ParserError"

namespace Error

/-- The kind of token found where another had to come. -/
def actual (e : Error) : Token.Kind := (e.token.map Token.kind).getD .endOfInput

/-- The sentence for an error. -/
def message (e : Error) : String :=
  let token := Token.describe e.token
  match e.cause with
  | .unexpectedToken context =>
    let place := if context.isEmpty then "" else s!" in {context}"
    s!"Unexpected token{place}: {token}"
  | .expectedToken expected => s!"Expected {expected.name}, got {token}"
  | .loopVariable found => s!"Expected identifier for the loop variable, got {found}"
  | .keywordTarget found => s!"Expected identifier for keyword argument, got {found}"
  | .testName found => s!"Expected identifier for the test, got {found}"
  | .filterName found => s!"Expected identifier for the filter, got {found}"
  | .propertyName found => s!"Expected identifier following dot operator, got {found}"
  | .sliceParts count => s!"Expected 0-3 arguments for slice expression, got {count}"
  | .emptyIndex => s!"Expected at least one argument for member/slice expression near {token}"
  | .nestingTooDeep => s!"Nesting too deep near {token}"
  | .general message => message

end Error

/-- Why parsing ended without a tree. -/
inductive Failure
  | malformed (error : Error)
  | numeral (error : Numeral.Error)
  deriving DecidableEq

end Stencil.Parser
