import Stencil.Token.Kind

/-!
# Token — Vocabulary

The fixed spellings of the template language: the marks that open and close tags, keywords, operators
and punctuation, and the escapes of string literals.  No operator is longer than two characters
(`length_le_two_of_mem_operators`).
-/

namespace Stencil

/-- The two kinds of tags. -/
inductive Tag
  | statement
  | expression
  deriving DecidableEq

namespace Tag

/-- The spelling that opens a tag. -/
def opener : Tag → List Char
  | statement => ['{', '%']
  | expression => ['{', '{']

/-- The spelling that closes a tag. -/
def closer : Tag → List Char
  | statement => ['%', '}']
  | expression => ['}', '}']

/-- The kind of the token that opens a tag. -/
def openKind : Tag → Token.Kind
  | statement => .openStatement
  | expression => .openExpression

/-- The kind of the token that closes a tag. -/
def closeKind : Tag → Token.Kind
  | statement => .closeStatement
  | expression => .closeExpression

end Tag

namespace Vocabulary

/-- The reserved words. -/
def keywords : List (List Char × Token.Kind) :=
  [("set".toList, .kwSet), ("if".toList, .kwIf), ("elif".toList, .kwElif),
    ("else".toList, .kwElse), ("endif".toList, .kwEndif), ("for".toList, .kwFor),
    ("endfor".toList, .kwEndfor), ("in".toList, .kwIn), ("is".toList, .kwIs),
    ("not".toList, .kwNot), ("and".toList, .kwAnd), ("or".toList, .kwOr),
    ("true".toList, .boolean), ("false".toList, .boolean)]

/-- The operators and the punctuation inside a tag. -/
def operators : List (List Char × Token.Kind) :=
  [(['=', '='], .comparison), (['!', '='], .comparison), (['<'], .comparison),
    (['>'], .comparison), (['<', '='], .comparison), (['>', '='], .comparison),
    (['+'], .additive), (['-'], .additive),
    (['*'], .multiplicative), (['/'], .multiplicative), (['/', '/'], .multiplicative),
    (['%'], .multiplicative), (['~'], .multiplicative),
    (['.'], .dot), (['['], .leftBracket), ([']'], .rightBracket), (['('], .leftParen),
    ([')'], .rightParen), (['{'], .leftBrace), (['}'], .rightBrace), ([','], .comma),
    ([':'], .colon), (['='], .equals), (['|'], .pipe)]

/-- The characters that may follow a backslash in a string literal, and what the two stand for. -/
def escapes : List (Char × Char) :=
  [('n', '\n'), ('t', '\t'), ('r', '\r'), ('b', '\x08'), ('f', '\x0c'), ('v', '\x0b'),
    ('\x27', '\x27'), ('\x22', '\x22'), ('\\', '\\')]

theorem length_le_two_of_mem_operators :
    ∀ entry ∈ operators, 0 < entry.1.length ∧ entry.1.length ≤ 2 := by
  decide

/-- What a backslash and the character after it stand for; an unknown escape stands for itself. -/
def escapeMeaning (c : Char) : List Char :=
  match escapes.lookup c with
  | some meaning => [meaning]
  | none => ['\\', c]

/-- The kind of a word: a reserved word has its own, any other is an identifier. -/
def wordKind (word : List Char) : Token.Kind := (keywords.lookup word).getD .identifier

end Vocabulary

end Stencil
