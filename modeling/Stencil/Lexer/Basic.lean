import Stencil.Lexer.Error
import Stencil.Lexer.Lexeme
import Stencil.Token.Basic

/-!
# Lexer

The lexer cuts a text into tokens.  Outside tags it takes plain text up to the next tag and drops
comments; inside a tag it drops spacing and takes words, numbers, string literals, operators and
the mark that closes the tag.  Besides the cursor its state is the open tag, the depth of braces
inside that tag (two closing braces close an expression tag only at depth zero), and the kind of the
last token (a minus sign before a digit belongs to the number where an operand has to come).

All characters are taken one by one by `advance`, which fails where none is left.  An operation that
fails leaves the lexer where the failure was noticed.
-/

namespace Stencil

/-- The state of a lexer. -/
structure Lexer where
  cursor : Cursor
  openTag : Option Tag
  braceDepth : Nat
  lastKind : Option Token.Kind
  deriving DecidableEq

/-- A step of a lexer: a result or an error, and the lexer as it is then. -/
abbrev Lexing := EStateM Lexer.Error Lexer

namespace Lexer

/-- A lexer outside tags. -/
def openAt (cursor : Cursor) : Lexer := ⟨cursor, none, 0, none⟩

/-- A lexer at the start of a text. -/
def ofText (source : String) : Lexer := openAt ⟨.start, source.toList⟩

/-! ### The cursor -/

/-- What is left to read. -/
def remaining : Lexing (List Char) := return (← get).cursor.rest

/-- The place of the cursor. -/
def place : Lexing Place := return (← get).cursor.place

/-- The next character. -/
def advance : Lexing Char := do
  match (← get).cursor.next? with
  | some (c, cursor) => modify ({ · with cursor }); return c
  | none => throw (.pastEnd (← place))

/-- Takes as many characters as a spelling has. -/
def pass : List Char → Lexing Unit
  | [] => return
  | _ :: spelling => do
    let _ ← advance
    pass spelling

/-- Takes all characters that are left. -/
def passAll : Lexing Unit := do pass (← remaining)

/-- Makes a token and remembers its kind. -/
def emit (kind : Token.Kind) (value : List Char) (line column : Int) : Lexing Token := do
  modify ({ · with lastKind := some kind })
  return ⟨kind, String.ofList value, line, column⟩

/-! ### Outside tags -/

/-- Takes plain text up to the next tag or comment. -/
def readText : Lexing Token := do
  let start ← place
  let (text, _) := Lexeme.text (← remaining)
  pass text
  emit .text text start.line start.column

/-- Drops a comment: two characters, whatever they are, and all up to the first closing mark. -/
def skipComment : Lexing Unit := do
  let start ← place
  let _ ← advance
  let _ ← advance
  match Lexeme.commentEnd? (← remaining) with
  | some (inside, _) => pass (inside ++ ['#', '}'])
  | none => passAll; throw (.unterminatedComment start.line start.column)

/-- Drops at most `rounds` comments. -/
def skipComments : Nat → Lexing Unit
  | 0 => return
  | rounds + 1 => do
    match ← remaining with
    | '{' :: '#' :: _ => skipComment; skipComments rounds
    | _ => return

/-- Opens a tag. -/
def enter (tag : Tag) (start : Place) : Lexing Token := do
  pass tag.opener
  modify ({ · with openTag := some tag, braceDepth := 0 })
  emit tag.openKind tag.opener start.line start.column

/-- The next token outside tags, which may be the end of the input. -/
def nextOutside : Lexing Token := do
  skipComments (← remaining).length
  let start ← place
  match ← remaining with
  | [] => return ⟨.endOfInput, "EOF", start.line, start.column⟩
  | '{' :: '%' :: _ => enter .statement start
  | '{' :: '{' :: _ => enter .expression start
  | _ => readText

/-! ### Inside tags -/

/-- Drops spacing. -/
def skipSpacing : Lexing Unit := do pass ((← remaining).takeWhile Text.isSpacing)

/-- Takes a word, which may be empty.  The words `not` and `in` make one token, which stands for
both with one space between. -/
def readWord (line column : Int) : Lexing Token := do
  let cs ← remaining
  let word := cs.takeWhile Text.isWord
  let after := cs.dropWhile Text.isWord
  pass word
  match if word = ['n', 'o', 't'] then Lexeme.memberWord? after else none with
  | some (spacing, _) =>
    pass (spacing ++ ['i', 'n'])
    emit .kwNotIn ['n', 'o', 't', ' ', 'i', 'n'] line column
  | none => emit (Vocabulary.wordKind word) word line column

/-- Takes a number, which may be empty, behind what is already taken of it. -/
def readNumber (line column : Int) (taken : List Char) : Lexing Token := do
  let (number, _) := Lexeme.number (← remaining)
  pass number
  emit .number (taken ++ number) line column

/-- Takes a string literal.  Its first character, whatever it is, is the quote. -/
def readString (line column : Int) : Lexing Token := do
  let quote ← advance
  match Lexeme.quotation? quote (← remaining) with
  | some q => pass q.spelling; emit .string q.value line column
  | none => passAll; throw (.unterminatedString line column)

/-- Takes the longest operator, if there is one. -/
def matchOperator : Lexing (Option Token) := do
  let start ← place
  match Lexeme.operator? (← remaining) with
  | some (kind, spelling, _) =>
    pass spelling
    some <$> emit kind spelling start.line start.column
  | none => return none

/-- The depth of braces behind a token. -/
def depthAfter (depth : Nat) : Token.Kind → Nat
  | .leftBrace => depth + 1
  | .rightBrace => depth - 1
  | _ => depth

/-- What is left behind the mark that closes the tag, if the mark is next and closes it. -/
def closing? (tag : Tag) (depth : Nat) : List Char → Option (List Char)
  | '%' :: '}' :: rest => if tag = .statement then some rest else none
  | '}' :: '}' :: rest => if tag = .expression ∧ depth = 0 then some rest else none
  | _ => none

/-- Closes a tag. -/
def leave (tag : Tag) (start : Place) : Lexing Token := do
  pass tag.closer
  modify ({ · with openTag := none })
  emit tag.closeKind tag.closer start.line start.column

/-- Does a number with a minus sign come next, given the kind of the last token? -/
def startsNegative (lastKind : Option Token.Kind) : List Char → Bool
  | '-' :: c :: _ => Text.isDigit c && lastKind.any Token.Kind.awaitsOperand
  | _ => false

/-- Takes an operator and counts it if it is a brace. -/
def readOperator (c : Char) (start : Place) : Lexing Token := do
  match ← matchOperator with
  | some token =>
    modify fun lexer => { lexer with braceDepth := depthAfter lexer.braceDepth token.kind }
    return token
  | none => throw (.unexpectedCharacter c start.line start.column)

/-- The next token inside a tag. -/
def nextInside (tag : Tag) : Lexing Token := do
  skipSpacing
  let lexer ← get
  let start := lexer.cursor.place
  match lexer.cursor.rest with
  | [] => throw (.unterminatedTag tag start.line start.column)
  | c :: rest =>
    match closing? tag lexer.braceDepth (c :: rest) with
    | some _ => leave tag start
    | none =>
      if Text.startsWord c then readWord start.line start.column
      else if Text.isDigit c then readNumber start.line start.column []
      else if startsNegative lexer.lastKind (c :: rest) then
        let _ ← advance
        readNumber start.line start.column ['-']
      else if c = '\x22' ∨ c = '\x27' then readString start.line start.column
      else readOperator c start

/-! ### Tokens -/

/-- The next token.  At the end of a text outside tags it is the end of the input, again and
again. -/
def next : Lexing Token := do
  match (← get).openTag with
  | none => nextOutside
  | some tag => nextInside tag

/-- At most `rounds` tokens, up to the end of the input. -/
def drain : Nat → Lexing (List Token)
  | 0 => return []
  | rounds + 1 => do
    let token ← next
    if token.kind = .endOfInput then return []
    else return token :: (← drain rounds)

/-- The tokens up to the end of the input.  Each takes a character at least. -/
def tokens : Lexing (List Token) := do drain ((← remaining).length + 1)

end Lexer

/-- The tokens of a template. -/
def tokenize (source : String) : Except Lexer.Error (List Token) :=
  match Lexer.tokens.run (Lexer.ofText source) with
  | .ok tokens _ => .ok tokens
  | .error e _ => .error e

end Stencil
