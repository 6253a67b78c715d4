import Stencil.Lexer.Basic

/-!
# Lexer — segments

How a text is cut, apart from any way of cutting it.  `Admits tag segment rest tag'` says that the
segment may stand in front of `rest` where `tag` is open, and that `tag'` is open behind it.  `Cuts`
is a row of such segments, which make up the text that they cut (`Cuts.spelling_append`); `tokensOf`
are the tokens that they stand for.

What stands for a token inside a tag is `Lexical`.
-/

namespace Stencil.Lexer

/-- A piece of a text, with the kind and the value of the token that it stands for, if any. -/
structure Segment where
  spelling : List Char
  content : Option (Token.Kind × List Char)

/-- The token of a segment that starts at a place. -/
def Segment.tokenAt (s : Segment) (place : Place) : Option Token :=
  s.content.map fun (kind, value) => ⟨kind, String.ofList value, place.line, place.column⟩

/-- The text up to the first `#}` ends with it. -/
def EndsAtMark (text : List Char) : Prop :=
  ∀ before behind, text = before ++ '#' :: '}' :: behind → behind = []

/-- No tag or comment starts inside the run, in front of the rest. -/
def IsPlain (run rest : List Char) : Prop :=
  ∀ before behind, run = before ++ behind → behind ≠ [] →
    Lexeme.startsMarkup (behind ++ rest) = false

/-- Digits, at least one. -/
def AllDigits (cs : List Char) : Prop := cs ≠ [] ∧ ∀ c ∈ cs, Text.isDigit c = true

/-- The inside of a string literal, and what it stands for. -/
inductive Quoted (quote : Char) : List Char → List Char → Prop
  | nil : Quoted quote [] []
  | escape (c : Char) {spelling value : List Char} : Quoted quote spelling value →
      Quoted quote ('\\' :: c :: spelling) (Vocabulary.escapeMeaning c ++ value)
  | plain {c : Char} {spelling value : List Char} : c ≠ '\\' → c ≠ quote →
      Quoted quote spelling value → Quoted quote (c :: spelling) (c :: value)

/-- The spelling of a token inside a tag, with its kind and its value. -/
inductive Lexical : List Char → Token.Kind → List Char → Prop
  | word {c : Char} {cs : List Char} : Text.startsWord c = true → (∀ d ∈ cs, Text.isWord d = true) →
      Lexical (c :: cs) (Vocabulary.wordKind (c :: cs)) (c :: cs)
  | notIn {spacing : List Char} : spacing ≠ [] → (∀ c ∈ spacing, Text.isSpacing c = true) →
      Lexical ("not".toList ++ spacing ++ "in".toList) .kwNotIn "not in".toList
  | whole {sign digits : List Char} : sign = [] ∨ sign = ['-'] → AllDigits digits →
      Lexical (sign ++ digits) .number (sign ++ digits)
  | pointed {sign digits part : List Char} : sign = [] ∨ sign = ['-'] → AllDigits digits →
      AllDigits part → Lexical (sign ++ digits ++ '.' :: part) .number (sign ++ digits ++ '.' :: part)
  | string {quote : Char} {spelling value : List Char} : quote = '\x22' ∨ quote = '\x27' →
      Quoted quote spelling value → Lexical (quote :: spelling ++ [quote]) .string value
  | operator {spelling : List Char} {kind : Token.Kind} : (spelling, kind) ∈ Vocabulary.operators →
      Lexical spelling kind spelling

/-- The segment may stand in front of the rest of a text where a tag is open, or none, and behind it
another is open, or none. -/
inductive Admits : Option Tag → Segment → List Char → Option Tag → Prop
  | comment {inside rest : List Char} : EndsAtMark (inside ++ ['#', '}']) →
      Admits none ⟨'{' :: '#' :: inside ++ ['#', '}'], none⟩ rest none
  | text {run rest : List Char} : run ≠ [] → IsPlain run rest →
      (rest = [] ∨ Lexeme.startsMarkup rest = true) → Admits none ⟨run, some (.text, run)⟩ rest none
  | opener (tag : Tag) (rest : List Char) :
      Admits none ⟨tag.opener, some (tag.openKind, tag.opener)⟩ rest (some tag)
  | spacing {tag : Tag} {cs rest : List Char} : cs ≠ [] → (∀ c ∈ cs, Text.isSpacing c = true) →
      Admits (some tag) ⟨cs, none⟩ rest (some tag)
  | closer (tag : Tag) (rest : List Char) :
      Admits (some tag) ⟨tag.closer, some (tag.closeKind, tag.closer)⟩ rest none
  | token {tag : Tag} {spelling value rest : List Char} {kind : Token.Kind} :
      Lexical spelling kind value → Admits (some tag) ⟨spelling, some (kind, value)⟩ rest (some tag)

/-- A row of segments from the front of a text to what is left, with the tags that are open at both
ends. -/
inductive Cuts : Option Tag → List Char → List Segment → Option Tag → List Char → Prop
  | nil (tag : Option Tag) (cs : List Char) : Cuts tag cs [] tag cs
  | cons {tag tag' tag'' : Option Tag} {s : Segment} {segments : List Segment} {cs rest : List Char} :
      Admits tag s cs tag' → Cuts tag' cs segments tag'' rest →
      Cuts tag (s.spelling ++ cs) (s :: segments) tag'' rest

/-- The text of some segments. -/
def spellingOf (segments : List Segment) : List Char := segments.flatMap Segment.spelling

/-- The tokens of some segments, the first of which starts at a place. -/
def tokensOf : Place → List Segment → List Token
  | _, [] => []
  | place, s :: segments =>
    (s.tokenAt place).toList ++ tokensOf (place.after s.spelling) segments

@[simp] theorem spellingOf_nil : spellingOf [] = [] := rfl

@[simp] theorem spellingOf_cons (s : Segment) (segments : List Segment) :
    spellingOf (s :: segments) = s.spelling ++ spellingOf segments := List.flatMap_cons

/-- The text of segments in a row is their texts in a row. -/
theorem spellingOf_append (segments more : List Segment) :
    spellingOf (segments ++ more) = spellingOf segments ++ spellingOf more :=
  List.flatMap_append

/-- The tokens of later segments are placed behind the text of the earlier ones. -/
theorem tokensOf_append (segments more : List Segment) : ∀ place : Place,
    tokensOf place (segments ++ more) =
      tokensOf place segments ++ tokensOf (place.after (spellingOf segments)) more := by
  induction segments with
  | nil => exact fun _ => rfl
  | cons s segments ih =>
    intro place
    rw [List.cons_append, tokensOf, tokensOf, ih, List.append_assoc, spellingOf_cons,
      Place.after_append]

namespace Cuts

variable {tag tag' tag'' : Option Tag} {cs mid rest : List Char} {segments more : List Segment}

/-- A text that is cut up to some place is cut on from there. -/
theorem append (h : Cuts tag cs segments tag' mid) (h' : Cuts tag' mid more tag'' rest) :
    Cuts tag cs (segments ++ more) tag'' rest := by
  induction h with
  | nil => exact h'
  | cons hs _ ih => exact .cons hs (ih h')

/-- The segments and what is left make up the text. -/
theorem spelling_append (h : Cuts tag cs segments tag' rest) : cs = spellingOf segments ++ rest := by
  induction h with
  | nil => rfl
  | cons _ _ ih =>
    rw [spellingOf_cons, List.append_assoc, ← ih]

end Cuts

/-! ### No segment is empty -/

/-- No token inside a tag is spelled with nothing. -/
theorem Lexical.ne_nil {spelling value : List Char} {kind : Token.Kind}
    (h : Lexical spelling kind value) : spelling ≠ [] := by
  cases h with
  | word => exact List.cons_ne_nil _ _
  | notIn => exact List.cons_ne_nil _ _
  | whole _ hdigits => exact List.append_ne_nil_of_right_ne_nil _ hdigits.1
  | pointed => simp
  | string => exact List.cons_ne_nil _ _
  | operator h =>
    rintro rfl
    exact absurd (Vocabulary.length_le_two_of_mem_operators _ h).1 (Nat.lt_irrefl 0)

/-- No segment is empty. -/
theorem Admits.ne_nil {tag tag' : Option Tag} {s : Segment} {rest : List Char}
    (h : Admits tag s rest tag') : s.spelling ≠ [] := by
  cases h with
  | comment => exact List.cons_ne_nil _ _
  | text hne => exact hne
  | opener tag => cases tag <;> exact List.cons_ne_nil _ _
  | spacing hne => exact hne
  | closer tag => cases tag <;> exact List.cons_ne_nil _ _
  | token h => exact h.ne_nil

/-- Segments take some of the text. -/
theorem Cuts.spelling_ne_nil {tag tag' : Option Tag} {cs rest : List Char} {segments : List Segment}
    (h : Cuts tag cs segments tag' rest) (hne : segments ≠ []) : spellingOf segments ≠ [] := by
  cases h with
  | nil => exact absurd rfl hne
  | cons hs => exact List.append_ne_nil_of_left_ne_nil hs.ne_nil _

/-! ### No segment stands for the end of the input -/

/-- A kind that is looked up stands in the list, with the word. -/
theorem mem_of_lookup {entries : List (List Char × Token.Kind)} {word : List Char}
    {kind : Token.Kind} (h : entries.lookup word = some kind) : (word, kind) ∈ entries := by
  obtain ⟨before, behind, heq, -⟩ := List.lookup_eq_some_iff.mp h
  exact heq ▸ List.mem_append_right before (.head behind)

/-- What holds of the reserved words and of names holds of every word. -/
theorem wordKind_of_forall {P : Token.Kind → Prop} (hname : P .identifier)
    (hreserved : ∀ entry ∈ Vocabulary.keywords, P entry.2) (word : List Char) :
    P (Vocabulary.wordKind word) := by
  unfold Vocabulary.wordKind
  cases h : Vocabulary.keywords.lookup word with
  | none => exact hname
  | some kind => exact hreserved _ (mem_of_lookup h)

/-- No word is taken for the end of the input. -/
theorem wordKind_ne_endOfInput (word : List Char) : Vocabulary.wordKind word ≠ .endOfInput := by
  have reserved : ∀ entry ∈ Vocabulary.keywords, entry.2 ≠ .endOfInput := by decide
  exact wordKind_of_forall (P := (· ≠ .endOfInput)) nofun reserved word

/-- No spelling inside a tag is that of the end of the input. -/
theorem Lexical.kind_ne {spelling value : List Char} {kind : Token.Kind}
    (h : Lexical spelling kind value) : kind ≠ .endOfInput := by
  cases h with
  | word => exact wordKind_ne_endOfInput _
  | notIn | whole | pointed | string => nofun
  | operator h =>
    have made : ∀ entry ∈ Vocabulary.operators, entry.2 ≠ .endOfInput := by decide
    exact made _ h

theorem Admits.kind_ne {tag tag' : Option Tag} {s : Segment} {rest : List Char}
    (h : Admits tag s rest tag') {place : Place} {token : Token}
    (htoken : s.tokenAt place = some token) : token.kind ≠ .endOfInput := by
  cases h with
  | comment | spacing => cases htoken
  | text => cases htoken; nofun
  | opener tag | closer tag => cases htoken; cases tag <;> nofun
  | token h => cases htoken; exact h.kind_ne

/-- The end of the input is not among the tokens that are cut from a text. -/
theorem Cuts.kind_ne {tag tag' : Option Tag} {cs rest : List Char} {segments : List Segment}
    (h : Cuts tag cs segments tag' rest) : ∀ (place : Place), ∀ token ∈ tokensOf place segments,
      token.kind ≠ .endOfInput := by
  induction h with
  | nil =>
    intro place token htoken
    exact absurd htoken List.not_mem_nil
  | cons hs _ ih =>
    intro place token htoken
    rcases List.mem_append.mp htoken with htoken | htoken
    · exact hs.kind_ne (Option.mem_toList.mp htoken)
    · exact ih _ token htoken

end Stencil.Lexer
