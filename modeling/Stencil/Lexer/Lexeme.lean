import Stencil.Text.Blank
import Stencil.Text.Word
import Stencil.Token.Vocabulary

/-!
# Lexer — Lexeme

The spellings that can stand at the front of a text, as plain functions of that text.  Each function
splits the text into what it recognises and what is left, and loses nothing:

* `text_append`: a run of plain text and the rest make up the text;
* `eq_of_commentEnd?`: so do the inside of a comment, its closing mark and the rest;
* `number_append`, `eq_of_quotation?`, `eq_of_operator?`: likewise for the tokens of a tag.

A word is what `List.takeWhile isWord` takes, and spacing what `List.takeWhile isSpacing` takes.
-/

namespace Stencil.Lexeme

/-! ### Outside tags -/

/-- Does a tag or a comment start here? -/
def startsMarkup : List Char → Bool
  | '{' :: '%' :: _ | '{' :: '{' :: _ | '{' :: '#' :: _ => true
  | _ => false

/-- The run of plain text up to the next tag or comment, and what is left. -/
def text : List Char → List Char × List Char
  | [] => ([], [])
  | c :: rest =>
    if startsMarkup (c :: rest) then ([], c :: rest)
    else ((c :: (text rest).1), (text rest).2)

theorem text_append (cs : List Char) : (text cs).1 ++ (text cs).2 = cs := by
  induction cs with
  | nil => rfl
  | cons c rest ih =>
    unfold text
    split
    · rfl
    · simp [ih]

/-- The inside of a comment and what is left behind its closing mark. -/
def commentEnd? : List Char → Option (List Char × List Char)
  | [] => none
  | '#' :: '}' :: rest => some ([], rest)
  | c :: rest => (commentEnd? rest).map fun (inside, after) => (c :: inside, after)

theorem eq_of_commentEnd? {cs inside after : List Char} (h : commentEnd? cs = some (inside, after)) :
    cs = inside ++ '#' :: '}' :: after := by
  fun_induction commentEnd? cs generalizing inside with
  | case1 => contradiction
  | case2 rest => cases h; rfl
  | case3 c rest _ ih =>
    obtain ⟨⟨i, a⟩, hi, he⟩ := Option.map_eq_some_iff.1 h
    cases he
    rw [ih hi]; rfl

/-! ### Inside tags -/

/-- The digits at the front, then a point and digits if a digit follows the point, and what is
left. -/
def number (cs : List Char) : List Char × List Char :=
  let whole := cs.takeWhile Text.isDigit
  match cs.dropWhile Text.isDigit with
  | '.' :: c :: rest =>
    if Text.isDigit c then
      (whole ++ '.' :: (c :: rest).takeWhile Text.isDigit, (c :: rest).dropWhile Text.isDigit)
    else (whole, '.' :: c :: rest)
  | rest => (whole, rest)

theorem number_append (cs : List Char) : (number cs).1 ++ (number cs).2 = cs := by
  have h := List.takeWhile_append_dropWhile (p := Text.isDigit) (l := cs)
  unfold number
  split
  · rename_i c rest he
    rw [he] at h
    split
    · simpa only [List.append_assoc, List.cons_append, List.takeWhile_append_dropWhile] using h
    · exact h
  · exact h

/-- A string literal behind its opening quote. -/
structure Quotation where
  /-- What the literal stands for. -/
  value : List Char
  /-- The spelling, up to the closing quote. -/
  spelling : List Char
  /-- What is left behind the closing quote. -/
  rest : List Char

/-- Reads up to the first quote that no backslash escapes.  A backslash comes first even where it is
the quote. -/
def quotation? (quote : Char) : List Char → Option Quotation
  | [] | ['\\'] => none
  | '\\' :: c :: rest =>
    (quotation? quote rest).map fun q =>
      { q with value := Vocabulary.escapeMeaning c ++ q.value, spelling := '\\' :: c :: q.spelling }
  | c :: rest =>
    if c = quote then some ⟨[], [c], rest⟩
    else (quotation? quote rest).map fun q =>
      { q with value := c :: q.value, spelling := c :: q.spelling }

theorem eq_of_quotation? {quote : Char} {cs : List Char} {q : Quotation}
    (h : quotation? quote cs = some q) : cs = q.spelling ++ q.rest := by
  fun_induction quotation? quote cs generalizing q with
  | case1 | case2 => contradiction
  | case3 c rest ih =>
    obtain ⟨p, hp, rfl⟩ := Option.map_eq_some_iff.1 h
    simp [ih hp]
  | case4 => cases h; rfl
  | case5 c rest _ _ _ ih =>
    obtain ⟨p, hp, rfl⟩ := Option.map_eq_some_iff.1 h
    simp [ih hp]

/-- Behind the word `not`: the spacing before the word `in`, and what is left behind that word. -/
def memberWord? (cs : List Char) : Option (List Char × List Char) :=
  match cs.dropWhile Text.isSpacing with
  | 'i' :: 'n' :: rest =>
    if rest.head?.any Text.isWord then none else some (cs.takeWhile Text.isSpacing, rest)
  | _ => none

/-- The longest operator at the front: its kind, its spelling, and what is left. -/
def operator? : List Char → Option (Token.Kind × List Char × List Char)
  | [] => none
  | [a] => (Vocabulary.operators.lookup [a]).map fun kind => (kind, [a], [])
  | a :: b :: rest =>
    match Vocabulary.operators.lookup [a, b] with
    | some kind => some (kind, [a, b], rest)
    | none => (Vocabulary.operators.lookup [a]).map fun kind => (kind, [a], b :: rest)

theorem eq_of_operator? {cs spelling rest : List Char} {kind : Token.Kind}
    (h : operator? cs = some (kind, spelling, rest)) : cs = spelling ++ rest := by
  unfold operator? at h
  split at h
  · contradiction
  · obtain ⟨k, -, he⟩ := Option.map_eq_some_iff.1 h
    cases he; rfl
  · split at h
    · cases h; rfl
    · obtain ⟨k, -, he⟩ := Option.map_eq_some_iff.1 h
      cases he; rfl

end Stencil.Lexeme
