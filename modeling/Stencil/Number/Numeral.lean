import Stencil.Number.Basic
import Stencil.Text.Blank
import Stencil.Text.Digit
import Stencil.Text.Quoted

/-!
# Number — Numeral

Numbers as they are written.  A numeral with a point is a double, any other is an integer.  Both
may have blanks around them and a sign; their digits are decimal digits of any script, with single
`_` between digits.

The lexer lets digits without a place value into a number, and hands over numerals of any length;
so a numeral can be refused here, for one of the three reasons of `Numeral.Error`.
-/

namespace Stencil.Numeral

/-- Why a numeral is refused. -/
inductive Error
  | integer (text : String)
  | tooLong (digits : Nat)
  | float (text : String)
  deriving DecidableEq

/-- The most digits of an integer, leading zeros included. -/
def digitLimit : Nat := 4300

/-- An integer is shown by at most this many characters. -/
def shownLimit : Nat := 200

/-- The sentence for a refused numeral. -/
def Error.message : Error → String
  | integer text => s!"invalid literal for int() with base 10: {Text.quotedUpTo shownLimit text}"
  | tooLong digits =>
    s!"Exceeds the limit ({digitLimit} digits) for integer string conversion: value has " ++
      s!"{digits} digits; use sys.set_int_max_str_digits() to increase the limit"
  | float text => s!"could not convert string to float: {Text.quoted text}"

/-- The blanks that may stand around a numeral: all but the four separator controls. -/
def isMargin (c : Char) : Bool := Text.isBlank c && !(0x1C ≤ c.toNat && c.toNat ≤ 0x1F)

/-- Is the text after a sign negative, and what is that text? -/
def sign : List Char → Bool × List Char
  | '-' :: rest => (true, rest)
  | '+' :: rest => (false, rest)
  | cs => (false, cs)

/-- The digits that go on a run of digits, where a single `_` may stand before each, and the text
after them. -/
def moreDigits : List Char → List Nat × List Char
  | [] => ([], [])
  | [c] =>
    match Text.decimalValue? c with
    | some d => ([d], [])
    | none => ([], [c])
  | c :: next :: rest =>
    match Text.decimalValue? c with
    | some d => let (ds, after) := moreDigits (next :: rest); (d :: ds, after)
    | none =>
      match c, Text.decimalValue? next with
      | '_', some d => let (ds, after) := moreDigits rest; (d :: ds, after)
      | _, _ => ([], c :: next :: rest)

/-- The run of digits at the front of a text, and the text after it.  The run starts with a
digit. -/
def digitRun : List Char → List Nat × List Char
  | '_' :: rest => ([], '_' :: rest)
  | cs => moreDigits cs

/-- Reads an integer.  Whether its `_` are in place is judged before its length, and its length
before what follows the digits. -/
def integer (text : String) : Except Error Int :=
  let (negative, body) := sign (Text.trim isMargin text.toList)
  let (digits, after) := digitRun body
  if after.head? = some '_' then .error (.integer text)
  else if digitLimit < digits.length then .error (.tooLong digits.length)
  else if digits.isEmpty ∨ ¬ after.isEmpty then .error (.integer text)
  else
    let n : Int := Binary64.digitsValue digits
    .ok (if negative then -n else n)

/-- The exponent part of a double: nothing, or `e`, a sign and digits to the end. -/
def exponent? : List Char → Option Int
  | [] => some 0
  | c :: rest =>
    if c = 'e' ∨ c = 'E' then
      let (negative, body) := sign rest
      match digitRun body with
      | (d :: ds, []) =>
        let n : Int := Binary64.digitsValue (d :: ds)
        some (if negative then -n else n)
      | _ => none
    else none

/-- The digits and the exponent of a double without its sign. -/
def decimal? (cs : List Char) : Option (List Nat × Int) :=
  let (whole, after) := digitRun cs
  let (part, after) := match after with
    | '.' :: rest => digitRun rest
    | _ => ([], after)
  if whole.isEmpty ∧ part.isEmpty then none
  else (exponent? after).map fun e => (whole ++ part, e - part.length)

/-- Reads a double, rounded to nearest. -/
def float (text : String) : Except Error Binary64 :=
  let (negative, body) := sign (Text.trim isMargin text.toList)
  match decimal? body with
  | some (digits, exponent) => .ok (Binary64.ofDecimal negative digits exponent)
  | none => .error (.float text)

/-- Reads a numeral; a point makes it a double. -/
def read (text : String) : Except Error Number :=
  if '.' ∈ text.toList then (float text).map .float else (integer text).map .integer

end Stencil.Numeral
