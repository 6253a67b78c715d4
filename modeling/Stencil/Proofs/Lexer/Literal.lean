import Stencil.Proofs.Lexer.Cutting

/-!
# Lexer — string literals

What stands between the quotes of a string literal is a row of glyphs: a character that stands for
itself, or a backslash with whatever character follows it.  The lexer takes a literal up to the quote
behind such a row, with the meaning of the glyphs as its value, and finds it unterminated exactly if
the text has no such row (`readString_decodes`).  Every value can be written, with either quote.

A row of glyphs is the list behind `Quoted`, which tells only what is spelt and what is meant
(`quoted_iff`).
-/

namespace Stencil.Lexer

/-- A unit of a string literal: a character on its own, or a backslash and the character behind
it. -/
inductive Glyph (quote : Char)
  | plain (c : Char) (ne_backslash : c ≠ '\\') (ne_quote : c ≠ quote)
  | escape (c : Char)

namespace Glyph

variable {quote : Char}

/-- How a glyph is written. -/
def spelling : Glyph quote → List Char
  | plain c _ _ => [c]
  | escape c => ['\\', c]

/-- What a glyph stands for. -/
def meaning : Glyph quote → List Char
  | plain c _ _ => [c]
  | escape c => Vocabulary.escapeMeaning c

/-- A glyph for a character: on its own where it may stand so. -/
def ofChar (quote c : Char) : Glyph quote :=
  if h : c = '\\' ∨ c = quote then escape c
  else plain c (fun hc => h (.inl hc)) fun hc => h (.inr hc)

/-- A backslash takes its special sense from a backslash, and so does either quote. -/
theorem meaning_ofChar (hquote : quote = '\x22' ∨ quote = '\x27') (c : Char) :
    (ofChar quote c).meaning = [c] := by
  unfold ofChar
  split
  · rename_i hc
    rcases hc with rfl | rfl
    · rfl
    · rcases hquote with rfl | rfl <;> rfl
  · rfl

end Glyph

variable {quote : Char} {spelling value cs : List Char} {lexer : Lexer}

/-- The inside of a string literal, glyph by glyph. -/
theorem quoted_iff : Quoted quote spelling value ↔ ∃ glyphs : List (Glyph quote),
    spelling = glyphs.flatMap Glyph.spelling ∧ value = glyphs.flatMap Glyph.meaning := by
  constructor
  · intro h
    induction h with
    | nil => exact ⟨[], rfl, rfl⟩
    | escape c _ ih =>
      obtain ⟨glyphs, rfl, rfl⟩ := ih
      exact ⟨.escape c :: glyphs, rfl, rfl⟩
    | plain hc hne _ ih =>
      obtain ⟨glyphs, rfl, rfl⟩ := ih
      exact ⟨.plain _ hc hne :: glyphs, rfl, rfl⟩
  · rintro ⟨glyphs, rfl, rfl⟩
    induction glyphs with
    | nil => exact .nil
    | cons glyph glyphs ih =>
      cases glyph with
      | plain c hc hne => exact .plain hc hne ih
      | escape c => exact .escape c ih

/-- Every value is the meaning of some glyphs. -/
theorem exists_glyphs (hquote : quote = '\x22' ∨ quote = '\x27') (value : List Char) :
    ∃ glyphs : List (Glyph quote), glyphs.flatMap Glyph.meaning = value := by
  refine ⟨value.map (Glyph.ofChar quote), ?_⟩
  induction value with
  | nil => rfl
  | cons c value ih =>
    rw [List.map_cons, List.flatMap_cons, Glyph.meaning_ofChar hquote, ih]
    rfl

/-- Where no row of glyphs is followed by the quote, the literal has no end. -/
theorem quotation?_eq_none_iff (hquote : quote ≠ '\\') : Lexeme.quotation? quote cs = none ↔
    ∀ (glyphs : List (Glyph quote)) rest, cs ≠ glyphs.flatMap Glyph.spelling ++ quote :: rest := by
  constructor
  · rintro h glyphs rest rfl
    have hquoted : Quoted quote (glyphs.flatMap Glyph.spelling) _ :=
      quoted_iff.mpr ⟨glyphs, rfl, rfl⟩
    cases h.symm.trans (quotation?_of_quoted hquote hquoted rest)
  · intro h
    refine Option.eq_none_iff_forall_ne_some.mpr fun q hq => ?_
    obtain ⟨inside, hspelling, hquoted⟩ := quoted_of_quotation? hq
    obtain ⟨glyphs, rfl, -⟩ := quoted_iff.mp hquoted
    refine h glyphs q.rest ?_
    rw [Lexeme.eq_of_quotation? hq, hspelling, List.append_assoc]
    rfl

/-- **String literals decode exactly, and every string can be written.**  A row of glyphs up to the
quote is taken whole, and its token has their meaning.  Without one the literal is unterminated, and
the lexer is left at the end of the text. -/
theorem readString_decodes (hquote : quote = '\x22' ∨ quote = '\x27')
    (hrest : lexer.cursor.rest = quote :: cs) (line column : Int) :
    (∀ (glyphs : List (Glyph quote)) rest, cs = glyphs.flatMap Glyph.spelling ++ quote :: rest →
      (readString line column).run lexer =
        .ok ⟨.string, String.ofList (glyphs.flatMap Glyph.meaning), line, column⟩
          { lexer with
            cursor := lexer.cursor.past
              (quote :: (glyphs.flatMap Glyph.spelling ++ [quote])) rest
            lastKind := some .string }) ∧
    ((readString line column).run lexer =
        .error (.unterminatedString line column) (lexer.beyond (quote :: cs) []) ↔
      ∀ (glyphs : List (Glyph quote)) rest, cs ≠ glyphs.flatMap Glyph.spelling ++ quote :: rest) ∧
    ∀ value : String, ∃ glyphs : List (Glyph quote),
      String.ofList (glyphs.flatMap Glyph.meaning) = value := by
  have hescape : quote ≠ '\\' := by rcases hquote with rfl | rfl <;> decide
  rw [readString_run hrest]
  refine ⟨?_, ?_, fun value => ?_⟩
  · rintro glyphs rest rfl
    rw [quotation?_of_quoted hescape (quoted_iff.mpr ⟨glyphs, rfl, rfl⟩)]
    rfl
  · rw [← quotation?_eq_none_iff hescape]
    cases Lexeme.quotation? quote cs <;> simp
  · obtain ⟨glyphs, hglyphs⟩ := exists_glyphs hquote value.toList
    exact ⟨glyphs, by rw [hglyphs, String.ofList_toList]⟩

/-- In front of `"\q\n'" x`, inside a tag. -/
def sampleLiteral : Lexer :=
  ⟨⟨⟨3, 1, 4⟩, ['\x22', '\\', 'q', '\\', 'n', '\x27', '\x22', ' ', 'x']⟩, some .expression, 0, none⟩

/-- The literal has the value of a backslash, `q`, a line break and a single quote. -/
theorem readString_decodes_sample :
    sampleLiteral.cursor.rest =
      '\x22' :: ['\\', 'q', '\\', 'n', '\x27', '\x22', ' ', 'x'] ∧
    ∃ lexer', (readString 1 4).run sampleLiteral = .ok ⟨.string, "\\q\n'", 1, 4⟩ lexer' ∧
      lexer'.cursor.rest = [' ', 'x'] := by
  have hrest : sampleLiteral.cursor.rest =
      '\x22' :: ['\\', 'q', '\\', 'n', '\x27', '\x22', ' ', 'x'] := rfl
  have hread := (readString_decodes (.inl rfl) hrest 1 4).1
    [.escape 'q', .escape 'n', .plain '\x27' (by decide) (by decide)] [' ', 'x'] rfl
  exact ⟨hrest, _, hread, rfl⟩

end Stencil.Lexer
