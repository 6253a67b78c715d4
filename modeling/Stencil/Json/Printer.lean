import Stencil.Json.Basic
import Stencil.Text.Hexadecimal

/-!
# Json — Printer

The text of a JSON value, on one line (`compact`) or indented by two spaces a level (`indented`).
A string is written as it is but for quotation marks, backslashes and the characters below the
space.  An empty array or object is written without a line break.
-/

namespace Stencil.Json

/-- A character inside a string. -/
def escaped (c : Char) : List Char :=
  if c = '\x22' then ['\\', '\x22']
  else if c = '\\' then ['\\', '\\']
  else if c = '\n' then ['\\', 'n']
  else if c = '\r' then ['\\', 'r']
  else if c = '\t' then ['\\', 't']
  else if c = '\x08' then ['\\', 'b']
  else if c = '\x0c' then ['\\', 'f']
  else if c.toNat < 0x20 then '\\' :: 'u' :: Text.hexadecimal 4 c.toNat
  else [c]

/-- A string with its quotation marks. -/
def stringText (text : String) : String :=
  String.ofList ('\x22' :: text.toList.flatMap escaped ++ ['\x22'])

/-- A number; a double that is not finite has a word. -/
def numberText : Number → String
  | .integer n => toString n
  | .float x => x.text "Infinity" "NaN"

/-- The words of the two truth values. -/
def booleanText (value : Bool) : String := if value then "true" else "false"

mutual

/-- The value on one line. -/
def compact : Json → String
  | null => "null"
  | boolean b => booleanText b
  | number n => numberText n
  | string s => stringText s
  | array elements => "[" ++ ", ".intercalate (compactElements elements) ++ "]"
  | object fields => "\x7b" ++ ", ".intercalate (compactFields fields) ++ "\x7d"

/-- The elements of an array, each on one line. -/
def compactElements : List Json → List String
  | [] => []
  | j :: rest => compact j :: compactElements rest

/-- The fields of an object, each a name, a colon and a value. -/
def compactFields : List (String × Json) → List String
  | [] => []
  | (name, j) :: rest => (stringText name ++ ": " ++ compact j) :: compactFields rest

end

/-- The start of a line at a level. -/
def lineAt (level : Nat) : String := String.ofList ('\n' :: List.replicate (2 * level) ' ')

/-- Items between brackets, each on a line of its own. -/
def block (level : Nat) (opening closing : String) : List String → String
  | [] => opening ++ closing
  | items =>
    opening ++ lineAt (level + 1) ++ ("," ++ lineAt (level + 1)).intercalate items ++
      lineAt level ++ closing

mutual

/-- The value as it is written at a level of indentation. -/
def indentedAt (level : Nat) : Json → String
  | null => "null"
  | boolean b => booleanText b
  | number n => numberText n
  | string s => stringText s
  | array elements => block level "[" "]" (indentedElements (level + 1) elements)
  | object fields => block level "\x7b" "\x7d" (indentedFields (level + 1) fields)

/-- The elements of an array at a level. -/
def indentedElements (level : Nat) : List Json → List String
  | [] => []
  | j :: rest => indentedAt level j :: indentedElements level rest

/-- The fields of an object at a level. -/
def indentedFields (level : Nat) : List (String × Json) → List String
  | [] => []
  | (name, j) :: rest =>
    (stringText name ++ ": " ++ indentedAt level j) :: indentedFields level rest

end

/-- The value over several lines. -/
def indented (j : Json) : String := indentedAt 0 j

end Stencil.Json
