/-!
# Token — Kind

The kinds of tokens and their names.  Thirty-seven kinds have names of their own; a token made by hand
may have another name, which is `other`.  A kind is found by its name
(`ofName_name`).
-/

namespace Stencil.Token

/-- What a token is. -/
inductive Kind
  | text
  | openStatement | closeStatement | openExpression | closeExpression
  | kwSet | kwIf | kwElif | kwElse | kwEndif | kwFor | kwEndfor
  | kwIn | kwNotIn | kwIs | kwNot | kwAnd | kwOr
  | number | string | boolean | identifier
  | comparison | additive | multiplicative
  | dot | leftBracket | rightBracket | leftParen | rightParen | leftBrace | rightBrace
  | comma | colon | equals | pipe
  | endOfInput
  | other (name : String)
  deriving DecidableEq

namespace Kind

/-- The name of a kind. -/
def name : Kind → String
  | text           => "TEXT"
  | openStatement  => "OPEN_STATEMENT"
  | closeStatement => "CLOSE_STATEMENT"
  | openExpression => "OPEN_EXPRESSION"
  | closeExpression => "CLOSE_EXPRESSION"
  | kwSet          => "SET"
  | kwIf           => "IF"
  | kwElif         => "ELIF"
  | kwElse         => "ELSE"
  | kwEndif        => "ENDIF"
  | kwFor          => "FOR"
  | kwEndfor       => "ENDFOR"
  | kwIn           => "IN"
  | kwNotIn        => "NOT_IN"
  | kwIs           => "IS"
  | kwNot          => "NOT"
  | kwAnd          => "AND"
  | kwOr           => "OR"
  | number         => "NUMBER"
  | string         => "STRING"
  | boolean        => "BOOLEAN"
  | identifier     => "IDENT"
  | comparison     => "COMPARISON_OP"
  | additive       => "ADDITIVE_OP"
  | multiplicative => "MULTIPLICATIVE_OP"
  | dot            => "DOT"
  | leftBracket    => "LBRACK"
  | rightBracket   => "RBRACK"
  | leftParen      => "LPAREN"
  | rightParen     => "RPAREN"
  | leftBrace      => "LBRACE"
  | rightBrace     => "RBRACE"
  | comma          => "COMMA"
  | colon          => "COLON"
  | equals         => "EQUALS"
  | pipe           => "PIPE"
  | endOfInput     => "EOF"
  | other name     => name

/-- The kinds that have a name of their own. -/
def known : List Kind :=
  [text, openStatement, closeStatement, openExpression, closeExpression,
    kwSet, kwIf, kwElif, kwElse, kwEndif, kwFor, kwEndfor,
    kwIn, kwNotIn, kwIs, kwNot, kwAnd, kwOr,
    number, string, boolean, identifier, comparison, additive, multiplicative,
    dot, leftBracket, rightBracket, leftParen, rightParen, leftBrace, rightBrace,
    comma, colon, equals, pipe, endOfInput]

/-- The kind with a given name. -/
def ofName (name : String) : Kind :=
  (known.find? (·.name == name)).getD (other name)

/-- The name of the kind found for a name is that name. -/
theorem name_ofName (s : String) : (ofName s).name = s := by
  unfold ofName
  cases h : known.find? (·.name == s) with
  | none => rfl
  | some k => simpa using List.find?_some h

/-- A known kind is found by its name. -/
theorem ofName_name {k : Kind} (h : k ∈ known) : ofName k.name = k := by
  revert k
  decide

/-- Does an operand come next after a token of this kind?  After such a token a minus sign before a
digit belongs to the number. -/
def awaitsOperand : Kind → Bool
  | openStatement | openExpression | comparison | additive | multiplicative
  | leftParen | leftBracket | leftBrace | comma | colon | equals | pipe
  | kwIn | kwNotIn | kwIs | kwNot | kwAnd | kwOr | kwIf | kwElif | kwElse | kwSet => true
  | _ => false

end Kind

end Stencil.Token
