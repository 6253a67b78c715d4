import Stencil.Node.Basic
import Stencil.Parser.Error

/-!
# Parser

A parser reads a stream of tokens.  It comes to a result, or to an error where it noticed one, and to
the stream as it is then.  The token at hand behind the last one is `Token.endOfInput`.

The rules are written for every kind of stream.  One is the list of the tokens left, of which nothing
is left behind the last; another is a list with a position in it (`Session`), which is moved on by
every token taken, also behind the last.

Repetition is in four combinators.  Each makes at most as many rounds as tokens are left when it
starts: a round that does not end the repetition takes a token, so when the rounds are used up no
token is left, and the combinator ends as it does at the end of the input.
-/

namespace Stencil

/-- A stream shows the tokens that are left, and moves on by one. -/
class TokenStream (σ : Type) where
  left : σ → List Token
  next : σ → σ

/-- The list of the tokens left. -/
instance : TokenStream (List Token) where
  left ts := ts
  next := List.tail

/-- A computation on a stream of tokens. -/
abbrev ParserOn (σ : Type) := EStateM Parser.Failure σ

/-- A computation on the tokens that are left. -/
abbrev Parser := ParserOn (List Token)

namespace Parser

variable {σ : Type} [TokenStream σ]

/-! ### Tokens -/

/-- The first token, or the end of the input. -/
def front : List Token → Token
  | [] => .endOfInput
  | t :: _ => t

/-- The tokens that are left. -/
def remaining : ParserOn σ (List Token) := fun s => .ok (TokenStream.left s) s

/-- The token at hand. -/
def current : ParserOn σ Token := fun s => .ok (front (TokenStream.left s)) s

/-- Takes the token at hand. -/
def advance : ParserOn σ Token := fun s => .ok (front (TokenStream.left s)) (TokenStream.next s)

/-- Is no token left? -/
def atEnd : ParserOn σ Bool := fun s => .ok (TokenStream.left s).isEmpty s

/-- Do the tokens begin with these kinds? -/
def beginsWith : List Token.Kind → List Token → Bool
  | [], _ => true
  | _ :: _, [] => false
  | kind :: kinds, t :: ts => decide (t.kind = kind) && beginsWith kinds ts

/-- Do these kinds come next? -/
def sees (kinds : List Token.Kind) : ParserOn σ Bool := fun s =>
  .ok (beginsWith kinds (TokenStream.left s)) s

/-! ### Errors -/

/-- Ends with an error at a token. -/
def fail {α : Type} (cause : Cause) (token : Token) : ParserOn σ α :=
  throw (.malformed ⟨cause, some token⟩)

/-- Ends with an error at the token at hand. -/
def failHere {α : Type} (cause : Cause) : ParserOn σ α := do fail cause (← current)

/-- Takes the token at hand if it has the kind. -/
def expect (kind : Token.Kind) : ParserOn σ Token := do
  let token ← current
  if (← atEnd) ∨ token.kind ≠ kind then fail (.expectedToken kind) token else advance

/-! ### Repetition -/

/-- Goes on from a node by steps as long as the token at hand begins one. -/
def extendFor (step : Node → Token.Kind → Option (ParserOn σ Node)) : Nat → Node → ParserOn σ Node
  | 0, node => return node
  | rounds + 1, node => do
    match step node (← current).kind with
    | some next => extendFor step rounds (← next)
    | none => return node

/-- A node and all steps that go on from it. -/
def extend (step : Node → Token.Kind → Option (ParserOn σ Node)) (first : ParserOn σ Node) :
    ParserOn σ Node := do
  let node ← first
  extendFor step (← remaining).length node

/-- Operands with operators of one tier between them, grouped from the left. -/
def infixed (operators : Token.Kind → Bool) (operand : ParserOn σ Node) : ParserOn σ Node :=
  extend
    (fun left kind =>
      if operators kind then
        some do
          let operator ← advance
          let right ← operand
          return .binary operator.value left right
      else none)
    operand

/-- The items of `delimited` in at most so many rounds. -/
def delimitedFor {α : Type} (close : Token.Kind) (item : ParserOn σ α) : Nat → ParserOn σ (List α)
  | 0 => do let _ ← expect close; return []
  | rounds + 1 => do
    if (← current).kind = close then
      let _ ← expect close
      return []
    if ← atEnd then failHere (.expectedToken close)
    let x ← item
    let kind := (← current).kind
    if kind = .comma then
      let _ ← advance
    else if kind ≠ close then failHere (.expectedToken .comma)
    return x :: (← delimitedFor close item rounds)

/-- Items with commas between them, up to a closing token and with it.  A comma may stand before the
closing token. -/
def delimited {α : Type} (close : Token.Kind) (item : ParserOn σ α) : ParserOn σ (List α) := do
  delimitedFor close item (← remaining).length

/-- The pieces of `pieces` in at most so many rounds. -/
def piecesFor (ends : List Token.Kind) (missing : Token.Kind) (item : ParserOn σ Node) :
    Nat → ParserOn σ (List Node)
  | 0 => failHere (.expectedToken missing)
  | rounds + 1 => do
    let left ← remaining
    if ends.any fun kind => beginsWith [.openStatement, kind] left then return []
    if ← atEnd then failHere (.expectedToken missing)
    let node ← item
    return node :: (← piecesFor ends missing item rounds)

/-- Pieces of a template up to a statement tag that begins with one of the kinds `ends`.  Where the
tokens end before, one of the kind `missing` had to come. -/
def pieces (ends : List Token.Kind) (missing : Token.Kind) (item : ParserOn σ Node) :
    ParserOn σ (List Node) := do
  piecesFor ends missing item (← remaining).length

/-- The pieces of `all` in at most so many rounds. -/
def allFor (item : ParserOn σ Node) : Nat → ParserOn σ (List Node)
  | 0 => return []
  | rounds + 1 => do
    if ← atEnd then return []
    let node ← item
    return node :: (← allFor item rounds)

/-- Pieces of a template up to the end. -/
def all (item : ParserOn σ Node) : ParserOn σ (List Node) := do allFor item (← remaining).length

/-! ### Subscripts -/

/-- What stands between brackets: the parts of a slice that a colon follows, and what follows the
last colon.  Without a colon this is an index. -/
structure Subscript where
  beforeColons : List (Option Node)
  last : Option Node

/-- The parts up to the closing bracket, which is left, in at most so many rounds. -/
def subscriptFor (expression : ParserOn σ Node) : Nat → ParserOn σ Subscript
  | 0 => failHere (.expectedToken .rightBracket)
  | rounds + 1 => do
    let kind := (← current).kind
    if kind = .rightBracket then return ⟨[], none⟩
    if ← atEnd then failHere (.expectedToken .rightBracket)
    if kind = .colon then
      let _ ← advance
      let later ← subscriptFor expression rounds
      return { later with beforeColons := none :: later.beforeColons }
    let node ← expression
    let kind := (← current).kind
    if kind = .colon then
      let _ ← advance
      let later ← subscriptFor expression rounds
      return { later with beforeColons := some node :: later.beforeColons }
    if kind = .rightBracket then return ⟨[], some node⟩
    failHere (.expectedToken .rightBracket)

/-- The index or slice before the closing bracket, which is left. -/
def subscript (expression : ParserOn σ Node) : ParserOn σ Node := do
  let parts ← subscriptFor expression (← remaining).length
  match parts.beforeColons, parts.last with
  | [], none => failHere .emptyIndex
  | [], some index => return index
  | before, last =>
    match before ++ (last.map some).toList with
    | [start] => return .slice start none none
    | [start, stop] => return .slice start stop none
    | [start, stop, step] => return .slice start stop step
    | parts => failHere (.sliceParts parts.length)

end Parser

end Stencil
