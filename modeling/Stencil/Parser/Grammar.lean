import Stencil.Parser.Basic

/-!
# Parser — Grammar

The grammar of templates, a function for each of its rules.  From the loosest expression to the
tightest these are

* `expression`: a disjunction, or `a if b else c`;
* `disjunction`, `conjunction`, `negation`: `or`, `and` and `not`;
* `comparison`, `sum`, `product`: operators that group from the left;
* `tested`, `filtered`: `x is name` and `x | name`, both with arguments;
* `chained`: a primary with `.name`, `[...]` and `(...)` in any order;
* `primary`: literals, names and what stands between brackets.

A template is a row of pieces (`piece`): text, output tags, and statement tags with the pieces
inside them.  At most two tokens are looked at before a rule is chosen, and no choice is revised.

The first argument of every rule is the count of rules that may still be entered inside one another.
Where it is used up the nesting is too deep; what stands side by side does not use it up.
-/

namespace Stencil

namespace Parser

variable {σ : Type} [TokenStream σ]

/-- Ends the parsing where too many rules would be inside one another. -/
def tooDeep : ParserOn σ Node := failHere .nestingTooDeep

/-- The kinds of operators that compare and look for members, which share a tier. -/
def isComparison : Token.Kind → Bool
  | .comparison | .kwIn | .kwNotIn => true
  | _ => false

/-- The truth value that a word stands for; upper and lower case are the same. -/
def truthValue (word : String) : Bool := word.toList.map Char.toLower == "true".toList

/-- Takes a name of one of the kinds; any other token is an error, which describes it. -/
def nameOf (kinds : List Token.Kind) (cause : String → Cause) : ParserOn σ Node := do
  let token ← current
  if token.kind ∈ kinds then
    let _ ← advance
    return .identifier token.value
  else fail (cause token.description) token

/-- Takes the tag that ends a block. -/
def endTag (keyword : Token.Kind) : ParserOn σ Unit := do
  let _ ← expect .openStatement
  let _ ← expect keyword
  let _ ← expect .closeStatement

/-! ### Rules -/

mutual

/-- `a`, or `a if b else c`. -/
def expression : Nat → ParserOn σ Node
  | 0 => tooDeep
  | depth + 1 => do
    let value ← disjunction depth
    if (← current).kind = .kwIf then
      let _ ← advance
      let test ← disjunction depth
      let _ ← expect .kwElse
      let alternative ← disjunction depth
      return .conditional test [value] [alternative]
    else return value

/-- Operands with `or` between them. -/
def disjunction : Nat → ParserOn σ Node
  | 0 => tooDeep
  | depth + 1 => infixed (· = .kwOr) (conjunction depth)

/-- Operands with `and` between them. -/
def conjunction : Nat → ParserOn σ Node
  | 0 => tooDeep
  | depth + 1 => infixed (· = .kwAnd) (negation depth)

/-- A comparison, or `not` and a negation. -/
def negation : Nat → ParserOn σ Node
  | 0 => tooDeep
  | depth + 1 => do
    if (← current).kind = .kwNot then
      let operator ← advance
      return .unary operator.value (← negation depth)
    else comparison depth

/-- Operands with comparisons, `in` or `not in` between them. -/
def comparison : Nat → ParserOn σ Node
  | 0 => tooDeep
  | depth + 1 => infixed isComparison (sum depth)

/-- Operands with additive operators between them. -/
def sum : Nat → ParserOn σ Node
  | 0 => tooDeep
  | depth + 1 => infixed (· = .additive) (product depth)

/-- Operands with multiplicative operators between them. -/
def product : Nat → ParserOn σ Node
  | 0 => tooDeep
  | depth + 1 => infixed (· = .multiplicative) (tested depth)

/-- An operand with tests.  The words for truth values may be names of tests. -/
def tested : Nat → ParserOn σ Node
  | 0 => tooDeep
  | depth + 1 =>
    extend
      (fun operand kind =>
        if kind = .kwIs then
          some do
            let _ ← advance
            let negated := decide ((← current).kind = .kwNot)
            if negated then
              let _ ← advance
            let name ← nameOf [.identifier, .boolean] .testName
            return .test operand negated (← applied depth name)
        else none)
      (filtered depth)

/-- An operand with filters. -/
def filtered : Nat → ParserOn σ Node
  | 0 => tooDeep
  | depth + 1 =>
    extend
      (fun operand kind =>
        if kind = .pipe then
          some do
            let _ ← advance
            let name ← nameOf [.identifier] .filterName
            return .filter operand (← applied depth name)
        else none)
      (chained depth)

/-- The name of a test or filter, called if arguments follow it. -/
def applied : Nat → Node → ParserOn σ Node
  | 0, _ => tooDeep
  | depth + 1, name => do
    if (← current).kind = .leftParen then call depth name else return name

/-- A primary with all that is attached to it. -/
def chained : Nat → ParserOn σ Node
  | 0 => tooDeep
  | depth + 1 =>
    extend
      (fun node kind =>
        match kind with
        | .dot | .leftBracket => some (member depth node)
        | .leftParen => some (call depth node)
        | _ => none)
      (primary depth)

/-- Behind an object: a dot and a name, or a bracket with an index or a slice. -/
def member : Nat → Node → ParserOn σ Node
  | 0, _ => tooDeep
  | depth + 1, object => do
    if (← advance).kind = .dot then
      return .member object (← nameOf [.identifier] .propertyName) false
    else
      let property ← index depth
      let _ ← expect .rightBracket
      return .member object property true

/-- What stands between brackets behind an object. -/
def index : Nat → ParserOn σ Node
  | 0 => tooDeep
  | depth + 1 => subscript (expression depth)

/-- Arguments behind a callee, and the arguments that follow at once for what is called then. -/
def call : Nat → Node → ParserOn σ Node
  | 0, _ => tooDeep
  | depth + 1, callee =>
    extend
      (fun node kind =>
        if kind = .leftParen then some (return .call node (← arguments depth)) else none)
      (return .call callee (← arguments depth))

/-- A list of arguments with its parentheses. -/
def arguments : Nat → ParserOn σ (List Node)
  | 0 => return [← tooDeep]
  | depth + 1 => do
    let _ ← expect .leftParen
    delimited .rightParen (argument depth)

/-- An expression, or a name, `=` and an expression. -/
def argument : Nat → ParserOn σ Node
  | 0 => tooDeep
  | depth + 1 => do
    let start ← current
    let node ← expression depth
    if (← current).kind = .equals then
      let _ ← advance
      if node.isIdentifier then return .keyword node (← expression depth)
      else fail (.keywordTarget node.kind) start
    else return node

/-- A literal, a name, or what stands between brackets. -/
def primary : Nat → ParserOn σ Node
  | 0 => tooDeep
  | depth + 1 => do
    let token ← current
    if ← atEnd then fail (.unexpectedToken "expression") token
    match token.kind with
    | .number =>
      let _ ← advance
      match Numeral.read token.value with
      | .ok value => return .number value
      | .error e => throw (.numeral e)
    | .string =>
      let _ ← advance
      return .string token.value
    | .boolean =>
      let _ ← advance
      return .boolean (truthValue token.value)
    | .identifier =>
      let _ ← advance
      return .identifier token.value
    | .leftParen =>
      let _ ← advance
      let node ← expression depth
      let _ ← expect .rightParen
      return node
    | .leftBracket =>
      let _ ← advance
      return .array (← delimited .rightBracket (expression depth))
    | .leftBrace =>
      let _ ← advance
      return .object (← delimited .rightBrace (entry depth))
    | _ => fail (.unexpectedToken "expression") token

/-- A key, a colon and a value. -/
def entry : Nat → ParserOn σ (Node × Node)
  | 0 => return (← tooDeep, .bare)
  | depth + 1 => do
    let key ← expression depth
    let _ ← expect .colon
    return (key, ← expression depth)

/-- A piece of a template: text, an output tag, or a statement. -/
def piece : Nat → ParserOn σ Node
  | 0 => tooDeep
  | depth + 1 => do
    let token ← current
    match token.kind with
    | .text =>
      let _ ← advance
      return .string token.value
    | .openStatement => statement depth
    | .openExpression => output depth
    | _ => fail (.unexpectedToken "") token

/-- An expression between the marks of an output tag. -/
def output : Nat → ParserOn σ Node
  | 0 => tooDeep
  | depth + 1 => do
    let _ ← expect .openExpression
    let node ← expression depth
    let _ ← expect .closeExpression
    return node

/-- A statement tag, with the tag that ends its block if it has one. -/
def statement : Nat → ParserOn σ Node
  | 0 => tooDeep
  | depth + 1 => do
    let _ ← expect .openStatement
    let token ← current
    match token.kind with
    | .kwSet =>
      let _ ← advance
      let node ← assignment depth
      let _ ← expect .closeStatement
      return node
    | .kwIf =>
      let _ ← advance
      let node ← branches depth
      endTag .kwEndif
      return node
    | .kwFor =>
      let _ ← advance
      let node ← loop depth
      endTag .kwEndfor
      return node
    | _ => fail (.unexpectedToken "statement") token

/-- A target, `=` and a value, which may itself be an assignment.  An expression alone is left as it
is. -/
def assignment : Nat → ParserOn σ Node
  | 0 => tooDeep
  | depth + 1 => do
    let target ← expression depth
    if (← current).kind = .equals then
      let _ ← advance
      return .assignment target (← assignment depth)
    else return target

/-- A test and its branches, up to the tag that ends the block.  A further test stands alone in the
alternative. -/
def branches : Nat → ParserOn σ Node
  | 0 => tooDeep
  | depth + 1 => do
    let test ← expression depth
    let _ ← expect .closeStatement
    let body ← pieces [.kwElif, .kwElse, .kwEndif] .kwEndif (piece depth)
    if ← sees [.openStatement, .kwElif] then
      let _ ← advance
      let _ ← advance
      return .conditional test body [← branches depth]
    else if ← sees [.openStatement, .kwElse] then
      let _ ← advance
      let _ ← advance
      let _ ← expect .closeStatement
      return .conditional test body (← pieces [.kwEndif] .kwEndif (piece depth))
    else return .conditional test body []

/-- A variable, what it runs over, and the pieces up to the tag that ends the block. -/
def loop : Nat → ParserOn σ Node
  | 0 => tooDeep
  | depth + 1 => do
    let start ← current
    let target ← chained depth
    if target.isIdentifier then
      let _ ← expect .kwIn
      let iterable ← expression depth
      let _ ← expect .closeStatement
      return .loop target iterable (← pieces [.kwEndfor] .kwEndfor (piece depth))
    else fail (.loopVariable target.kind) start

end

/-! ### Templates -/

/-- The most rules inside one another. -/
def depthLimit : Nat := 1000

/-- A whole template. -/
def program : ParserOn σ Node := return .program (← all (piece depthLimit))

/-- The tokens without an end of the input at their end. -/
def dropEnd (ts : List Token) : List Token :=
  if ts.getLast?.any (·.kind = .endOfInput) then ts.dropLast else ts

end Parser

/-- The tree of a list of tokens. -/
def parse (ts : List Token) : Except Parser.Failure Node :=
  match Parser.program.run (Parser.dropEnd ts) with
  | .ok node _ => .ok node
  | .error e _ => .error e

end Stencil
