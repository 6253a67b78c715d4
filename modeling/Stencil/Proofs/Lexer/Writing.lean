import Stencil.Proofs.Lexer.Boundary
import Stencil.Proofs.Lexer.Longest

/-!
# Lexer — written tokens

Every row of tokens that the lexer tells apart has a spelling that the lexer makes it of
(`tokenize_write`): a text stands for itself, a token of a tag is its value behind a space, a string
is in quotes, and an empty comment keeps two texts apart.

What may be written in a tag is `Writable`: a number has a minus sign only where an operand has to
come, no `in` stands behind a `not`, and the braces of an expression tag are closed before the tag
is.  Behind every token of a tag there is a space, which no token goes past but a string and `not in`;
so each is the longest token there (`longest_of_writable`), and what is written is scanned as it was
written (`scanned_write`).
-/

namespace Stencil.Lexer

/-! ### Spellings -/

/-- A character of a string, in quotes. -/
def escaped (c : Char) : List Char := if c = '\\' ∨ c = '\x22' then ['\\', c] else [c]

/-- A token of a tag as it is written: a string in quotes, and any other by its value. -/
def spelled : Token.Kind → List Char → List Char
  | .string, value => '\x22' :: (value.flatMap escaped ++ ['\x22'])
  | _, value => value

/-- The tokens of a tag as they are written, each behind a space. -/
def spelledAll (tokens : List (Token.Kind × List Char)) : List Char :=
  tokens.flatMap fun (kind, value) => ' ' :: spelled kind value

/-- A text, or a tag with the tokens inside it. -/
inductive Chunk
  | text (run : List Char)
  | tag (tag : Tag) (tokens : List (Token.Kind × List Char))

namespace Chunk

/-- The kinds and values of the tokens of a chunk. -/
def contents : Chunk → List (Token.Kind × List Char)
  | text run => [(.text, run)]
  | tag g tokens => (g.openKind, g.opener) :: (tokens ++ [(g.closeKind, g.closer)])

/-- A chunk as it is written. -/
def spelling : Chunk → List Char
  | text run => run
  | tag g tokens => g.opener ++ (spelledAll tokens ++ ' ' :: g.closer)

/-- What keeps a chunk apart from the next one: an empty comment between two texts. -/
def gap : Chunk → List Chunk → List Char
  | text _, text _ :: _ => ['{', '#', '#', '}']
  | _, _ => []

end Chunk

/-- Chunks as they are written. -/
def write : List Chunk → List Char
  | [] => []
  | chunk :: chunks => chunk.spelling ++ (chunk.gap chunks ++ write chunks)

/-! ### What may be written -/

/-- The token may be written behind a token of the kind `last`. -/
inductive Writable (last : Token.Kind) : Token.Kind → List Char → Prop
  | keyword {kind : Token.Kind} {value : List Char} : (value, kind) ∈ Vocabulary.keywords →
      (kind = .kwIn → last ≠ .kwNot) → Writable last kind value
  | operator {kind : Token.Kind} {value : List Char} : (value, kind) ∈ Vocabulary.operators →
      Writable last kind value
  | name {c : Char} {cs : List Char} : Text.startsWord c = true →
      (∀ d ∈ cs, Text.isWord d = true) → Vocabulary.keywords.lookup (c :: cs) = none →
      Writable last .identifier (c :: cs)
  | whole {sign digits : List Char} : sign = [] ∨ sign = ['-'] ∧ last.awaitsOperand = true →
      AllDigits digits → Writable last .number (sign ++ digits)
  | pointed {sign digits part : List Char} :
      sign = [] ∨ sign = ['-'] ∧ last.awaitsOperand = true → AllDigits digits → AllDigits part →
      Writable last .number (sign ++ (digits ++ '.' :: part))
  | string (value : List Char) : Writable last .string value
  | notIn : Writable last .kwNotIn "not in".toList

/-- The tokens may be written in the tag, behind a token of the kind `last` and where the braces
have the depth. -/
inductive WritableAll (tag : Tag) : Token.Kind → Nat → List (Token.Kind × List Char) → Prop
  | nil {last : Token.Kind} {depth : Nat} : (tag = .expression → depth = 0) →
      WritableAll tag last depth []
  | cons {last kind : Token.Kind} {depth : Nat} {value : List Char}
      {tokens : List (Token.Kind × List Char)} : Writable last kind value →
      WritableAll tag kind (depthAfter depth kind) tokens →
      WritableAll tag last depth ((kind, value) :: tokens)

/-- The chunk may be written: a text is not empty, and no tag or comment starts inside it. -/
def Chunk.Proper : Chunk → Prop
  | text run => run ≠ [] ∧ IsPlain run []
  | tag g tokens => WritableAll g g.openKind 0 tokens

/-- The chunk is a text that ends with a brace. -/
def Chunk.EndsInBrace : Chunk → Prop
  | text run => run.getLast? = some '{'
  | tag .. => False

/-- The chunks may be written in a row: only the last may end with a brace. -/
def Proper (chunks : List Chunk) : Prop :=
  (∀ chunk ∈ chunks, chunk.Proper) ∧ ∀ chunk ∈ chunks.dropLast, ¬ chunk.EndsInBrace

/-! ### What is found in front of a space -/

variable {tag : Tag} {depth : Nat} {last kind : Token.Kind} {lastKind : Option Token.Kind} {f : Found}
  {value cs rest : List Char} {c d : Char}

/-- A space ends a word and a number. -/
theorem space_ends : Text.isWord ' ' = false ∧ Text.isDigit ' ' = false := by
  decide +kernel

theorem ne_of_isWord (hc : Text.isWord c = true) (hd : Text.isWord d = false) : c ≠ d := by
  rintro rfl
  cases hc.symm.trans hd

/-- A value with its quotes and backslashes escaped is what its literal stands for. -/
theorem quoted_escaped (value : List Char) : Quoted '\x22' (value.flatMap escaped) value := by
  induction value with
  | nil => exact .nil
  | cons c value ih =>
    rw [List.flatMap_cons, escaped]
    split
    · rename_i hc
      have hmeaning : Vocabulary.escapeMeaning c = [c] := by rcases hc with rfl | rfl <;> rfl
      have hescape := ih.escape c
      rwa [hmeaning] at hescape
    · rename_i hc
      rw [not_or] at hc
      exact .plain hc.1 hc.2 ih

/-- No operator goes on with a space, and none ends with a brace but the brace itself. -/
theorem operators_facts : ∀ entry ∈ Vocabulary.operators,
    Vocabulary.operators.lookup (entry.1 ++ [' ']) = none ∧ '\x7d' ∉ entry.1.tail := by
  decide

/-- In front of a space an operator closes no tag. -/
theorem closing?_of_mem (h : (value, kind) ∈ Vocabulary.operators) (rest : List Char) :
    closing? tag depth (value ++ ' ' :: rest) = none := by
  obtain ⟨-, hbrace⟩ := operators_facts _ h
  obtain ⟨hpos, hle⟩ := Vocabulary.length_le_two_of_mem_operators _ h
  match value with
  | [a] => simp [closing?]
  | [a, b] =>
    have hb : b ≠ '\x7d' := fun hb => hbrace (by simp [hb])
    simp [closing?, hb]

theorem closing?_of_ne (hpercent : c ≠ '%') (hbrace : c ≠ '\x7d') (cs : List Char) :
    closing? tag depth (c :: cs) = none := by
  simp [closing?, hpercent, hbrace]

theorem closing?_of_isWord (hc : Text.isWord c = true) (cs : List Char) :
    closing? tag depth (c :: cs) = none :=
  closing?_of_ne (ne_of_isWord hc (by decide +kernel)) (ne_of_isWord hc brace_ends.2.1) cs

/-- In front of a number no tag is closed. -/
theorem closing?_of_signs {sign digits : List Char} (hsign : Signs lastKind sign)
    (hdigits : AllDigits digits) (cs : List Char) :
    closing? tag depth (sign ++ (digits ++ cs)) = none := by
  obtain ⟨d, ds, rfl⟩ := List.exists_cons_of_ne_nil hdigits.1
  rcases hsign with rfl | ⟨rfl, -⟩
  · exact closing?_of_isWord (Text.isWord_of_isDigit (hdigits.2 d (.head _))) _
  · rfl

/-- In front of a space no token closes a tag. -/
theorem closing?_of_longest (h : Longest lastKind f) (hrest : f.rest = ' ' :: rest) :
    closing? tag depth (f.spelling ++ f.rest) = none := by
  cases h with
  | word hc => exact closing?_of_isWord (Text.isWord_of_startsWord hc) _
  | notIn => rfl
  | whole hsign hdigits => rw [List.append_assoc]; exact closing?_of_signs hsign hdigits _
  | pointed hsign hdigits =>
    rw [List.append_assoc, List.append_assoc]
    exact closing?_of_signs hsign hdigits _
  | string hquote => rcases hquote with rfl | rfl <;> rfl
  | operator hmem =>
    rw [show _ = ' ' :: rest from hrest]
    exact closing?_of_mem hmem rest

/-- The spelling of a reserved word is a word, and its kind that of the word. -/
theorem keywords_facts : ∀ entry ∈ Vocabulary.keywords, entry.1.head?.any Text.startsWord = true ∧
    entry.1.tail.all Text.isWord = true ∧ Vocabulary.wordKind entry.1 = entry.2 ∧
      entry.2 ≠ .string := by
  decide +kernel

/-- Only string literals are spelled in another way than their values. -/
theorem spelled_of_ne (h : kind ≠ .string) (value : List Char) : spelled kind value = value := by
  unfold spelled
  split
  · exact absurd rfl h
  · rfl

/-- Before a space a keyword is the longest token, unless an `in` makes more of a `not`. -/
theorem longest_keyword (hmem : (value, kind) ∈ Vocabulary.keywords)
    (hnot : kind = .kwNot → Lexeme.memberWord? (' ' :: rest) = none) :
    Longest (some last) ⟨value, kind, value, ' ' :: rest⟩ := by
  obtain ⟨hstarts, hword, hkind, -⟩ := keywords_facts _ hmem
  cases value with
  | nil => cases hstarts
  | cons c cs =>
    have hkind : Vocabulary.wordKind (c :: cs) = kind := hkind
    subst hkind
    exact .word hstarts (List.all_eq_true.mp hword) space_ends.1 fun heq => hnot (by rw [heq]; rfl)

/-- Before a space an operator is the longest token: none goes on with a space. -/
theorem longest_operator (hmem : (value, kind) ∈ Vocabulary.operators) (rest : List Char) :
    Longest (some last) ⟨value, kind, value, ' ' :: rest⟩ := by
  refine .operator hmem (fun c more heq => ?_) (Bool.eq_false_iff.mpr fun hnegative => ?_)
  · cases heq
    exact (operators_facts _ hmem).1
  · obtain ⟨d, ds, hd, heq⟩ := eq_of_startsNegative hnegative
    obtain ⟨hpos, hle⟩ := Vocabulary.length_le_two_of_mem_operators _ hmem
    match value with
    | [a] =>
      cases heq
      cases hd.symm.trans space_ends.2
    | [a, b] =>
      cases heq
      cases hd.symm.trans (operators_apart _ hmem d (by simp)).2.2.1

/-- **What may be written is the longest token in front of a space.** -/
theorem longest_of_writable (h : Writable last kind value)
    (hnot : kind = .kwNot → Lexeme.memberWord? (' ' :: rest) = none) :
    Longest (some last) ⟨spelled kind value, kind, value, ' ' :: rest⟩ := by
  cases h with
  | keyword hmem =>
    rw [spelled_of_ne (keywords_facts _ hmem).2.2.2]
    exact longest_keyword hmem hnot
  | operator hmem =>
    have hkind : ∀ entry ∈ Vocabulary.operators, entry.2 ≠ .string := by decide
    rw [spelled_of_ne (hkind _ hmem)]
    exact longest_operator hmem rest
  | @name c cs hc hcs hlookup =>
    have hkind : Vocabulary.wordKind (c :: cs) = .identifier := by rw [Vocabulary.wordKind, hlookup]; rfl
    have hnot : c :: cs = ['n', 'o', 't'] → Lexeme.memberWord? (' ' :: rest) = none := fun heq =>
      absurd hlookup (by rw [heq]; decide)
    have hlongest : Longest (some last)
        ⟨c :: cs, Vocabulary.wordKind (c :: cs), c :: cs, ' ' :: rest⟩ :=
      .word hc hcs space_ends.1 hnot
    rwa [hkind] at hlongest
  | whole hsign hdigits => exact .whole hsign hdigits space_ends.2 nofun
  | pointed hsign hdigits hpart => exact .pointed hsign hdigits hpart space_ends.2
  | string value => exact .string (.inl rfl) (quoted_escaped value)
  | notIn => exact .notIn (List.cons_ne_nil ' ' []) (by simp [Text.isSpacing]) space_ends.1

/-! ### Whole tags -/

variable {tokens : List (Token.Kind × List Char)}

/-- Behind `not` no `in` is written, as both would be read as one. -/
theorem Writable.ne_kwIn (h : Writable .kwNot kind value) : kind ≠ .kwIn := by
  cases h with
  | keyword _ hin => exact fun hkind => hin hkind rfl
  | operator hmem =>
    have hkind : ∀ entry ∈ Vocabulary.operators, entry.2 ≠ .kwIn := by decide
    exact hkind _ hmem
  | name | whole | pointed | string | notIn => nofun

theorem spelledAll_cons (kind : Token.Kind) (value : List Char)
    (tokens : List (Token.Kind × List Char)) (cs : List Char) :
    spelledAll ((kind, value) :: tokens) ++ cs =
      ' ' :: (spelled kind value ++ (spelledAll tokens ++ cs)) := by
  simp [spelledAll]

/-- Behind the tokens as behind no tokens there is a space first. -/
theorem exists_spelledAll (tokens : List (Token.Kind × List Char)) (cs : List Char) :
    ∃ rest, spelledAll tokens ++ ' ' :: cs = ' ' :: rest := by
  cases tokens with
  | nil => exact ⟨cs, rfl⟩
  | cons t tokens => exact ⟨_, spelledAll_cons t.1 t.2 tokens _⟩

/-- No word `in` stands behind a word `not`. -/
theorem memberWord?_of_writableAll (h : WritableAll tag last depth tokens) (rest : List Char) :
    last = .kwNot → Lexeme.memberWord? (spelledAll tokens ++ ' ' :: (tag.closer ++ rest)) = none := by
  induction h with
  | nil => intro _; cases tag <;> rfl
  | @cons last kind depth value tokens hw hall ih =>
    rintro rfl
    obtain ⟨behind, hbehind⟩ := exists_spelledAll tokens (tag.closer ++ rest)
    rw [hbehind] at ih
    have hlongest := longest_of_writable hw ih
    have hclosing : closing? tag depth _ = none := closing?_of_longest hlongest rfl
    have hscan := scan_of_longest hlongest hclosing
    rw [spelledAll_cons, hbehind]
    exact (memberWord?_eq_none_iff (List.forall_mem_singleton.mpr rfl) hscan rfl).mpr hw.ne_kwIn

/-- Segments are scanned that stand for the kinds and values. -/
def Scanned (m : Mode) (cs : List Char) (contents : List (Token.Kind × List Char)) (m' : Mode)
    (rest : List Char) : Prop :=
  ∃ segments, Scans m cs segments m' rest ∧ segments.filterMap Segment.content = contents

namespace Scanned

variable {m m' m'' : Mode} {mid spelling : List Char} {content : Token.Kind × List Char}
  {contents more : List (Token.Kind × List Char)}

theorem nil (m : Mode) (cs : List Char) : Scanned m cs [] m cs := ⟨[], .nil m cs, rfl⟩

/-- A segment without a token in front of what is scanned. -/
theorem skip (hs : Lexer.scan m cs = .segment ⟨spelling, none⟩ m' mid)
    (h : Scanned m' mid contents m'' rest) : Scanned m cs contents m'' rest := by
  obtain ⟨segments, hscans, rfl⟩ := h
  exact ⟨_, .cons hs hscans, rfl⟩

/-- A segment with a token in front of what is scanned. -/
theorem cons (hs : Lexer.scan m cs = .segment ⟨spelling, some content⟩ m' mid)
    (h : Scanned m' mid contents m'' rest) : Scanned m cs (content :: contents) m'' rest := by
  obtain ⟨segments, hscans, rfl⟩ := h
  exact ⟨_, .cons hs hscans, rfl⟩

/-- What is scanned in two runs is scanned in one. -/
theorem trans (h : Scanned m cs contents m' mid) (h' : Scanned m' mid more m'' rest) :
    Scanned m cs (contents ++ more) m'' rest := by
  obtain ⟨segments, hscans, rfl⟩ := h
  obtain ⟨segments', hscans', rfl⟩ := h'
  exact ⟨segments ++ segments', hscans.append hscans', List.filterMap_append⟩

end Scanned

/-- A token is scanned behind any spacing. -/
theorem scanned_spaced {content : Token.Kind × List Char}
    {contents : List (Token.Kind × List Char)} (hw : ∀ c ∈ w, Text.isSpacing c = true)
    (h : scan (.inside tag depth lastKind) cs = .segment s m rest) (hs : s.content = some content)
    (hrest : Scanned m rest contents .outside rest') :
    Scanned (.inside tag depth lastKind) (w ++ cs) (content :: contents) .outside rest' := by
  have hhead := head_of_content h (hs ▸ Option.some_ne_none content)
  obtain ⟨spelling, content'⟩ := s
  obtain rfl : content' = some content := hs
  have htoken := Scanned.cons h hrest
  cases w with
  | nil => exact htoken
  | cons c w => exact .skip (scan_spacing hw hhead) htoken

/-- The tokens of a tag and the mark that closes it are scanned as they were written. -/
theorem scanned_spelledAll (h : WritableAll tag last depth tokens) (rest : List Char) :
    Scanned (.inside tag depth (some last)) (spelledAll tokens ++ ' ' :: (tag.closer ++ rest))
      (tokens ++ [(tag.closeKind, tag.closer)]) .outside rest := by
  have hspace : ∀ c ∈ [' '], Text.isSpacing c = true := List.forall_mem_singleton.mpr rfl
  induction h with
  | nil hdepth => exact scanned_spaced (w := [' ']) hspace (scan_closer hdepth rest) rfl (.nil _ _)
  | @cons last kind depth value tokens hw hall ih =>
    have hmember := memberWord?_of_writableAll hall rest
    obtain ⟨behind, hbehind⟩ := exists_spelledAll tokens (tag.closer ++ rest)
    rw [hbehind] at ih hmember
    have hlongest := longest_of_writable hw hmember
    rw [spelledAll_cons, hbehind]
    exact scanned_spaced hspace (scan_of_longest hlongest (closing?_of_longest hlongest rfl)) rfl ih

/-! ### Whole templates -/

variable {chunk : Chunk} {chunks : List Chunk} {run : List Char}

/-- A text is scanned whole in front of markup, if it does not end in a brace. -/
theorem scanned_text (hproper : (Chunk.text run).Proper)
    (hrest : rest = [] ∨ Lexeme.startsMarkup rest = true)
    (hend : rest ≠ [] → ¬ (Chunk.text run).EndsInBrace) :
    Scanned .outside (run ++ rest) [(.text, run)] .outside rest := by
  obtain ⟨hne, hplain⟩ := hproper
  have hplain' : IsPlain run rest := by
    by_cases hnil : rest = []
    · rwa [hnil]
    · exact isPlain_append hplain fun _ => ⟨hend hnil, hrest⟩
  exact .cons (scan_text hne hplain' hrest) (.nil _ _)

/-- A tag is scanned token by token, with a space in front of each, up to its closer. -/
theorem scanned_tag (hproper : (Chunk.tag tag tokens).Proper) (rest : List Char) :
    Scanned .outside (tag.opener ++ (spelledAll tokens ++ ' ' :: (tag.closer ++ rest)))
      (Chunk.tag tag tokens).contents .outside rest := by
  have hopener (cs : List Char) : scan .outside (tag.opener ++ cs) =
      .segment ⟨tag.opener, some (tag.openKind, tag.opener)⟩ (.inside tag 0 (some tag.openKind)) cs := by
    cases tag <;> rfl
  exact .cons (hopener _) (scanned_spelledAll hproper rest)

theorem Proper.tail (h : Proper (chunk :: chunks)) : Proper chunks := by
  refine ⟨fun c hc => h.1 c (.tail _ hc), fun c hc => h.2 c ?_⟩
  cases chunks with
  | nil => cases hc
  | cons => exact .tail _ hc

/-- A text with another chunk behind it does not end in a brace. -/
theorem Proper.not_endsInBrace (h : Proper (chunk :: chunks)) (hne : chunks ≠ []) :
    ¬ chunk.EndsInBrace := by
  refine h.2 chunk ?_
  cases chunks with
  | nil => exact absurd rfl hne
  | cons => exact .head _

/-- A text is written in front of a tag, of a comment, or of nothing. -/
theorem startsMarkup_gap (run : List Char) (chunks : List Chunk) :
    (Chunk.text run).gap chunks ++ write chunks = [] ∨
      Lexeme.startsMarkup ((Chunk.text run).gap chunks ++ write chunks) = true := by
  match chunks with
  | [] => exact .inl rfl
  | .text _ :: _ => exact .inr rfl
  | .tag .statement _ :: _ => exact .inr rfl
  | .tag .expression _ :: _ => exact .inr rfl

/-- The comment that is written between two texts keeps them apart. -/
theorem scanned_gap (chunk : Chunk) (chunks : List Chunk) :
    Scanned .outside (chunk.gap chunks ++ write chunks) [] .outside (write chunks) := by
  match chunk, chunks with
  | .text _, .text _ :: _ => exact .skip rfl (.nil _ _)
  | .text _, [] | .text _, .tag _ _ :: _ | .tag _ _, _ => exact .nil _ _

/-- Chunks are scanned as they were written. -/
theorem scanned_write (chunks : List Chunk) : Proper chunks →
    Scanned .outside (write chunks) (chunks.flatMap Chunk.contents) .outside [] := by
  induction chunks with
  | nil => exact fun _ => .nil _ _
  | cons chunk chunks ih =>
    intro h
    have hbehind := (scanned_gap chunk chunks).trans (ih h.tail)
    have hproper := h.1 chunk (.head _)
    cases chunk with
    | text run =>
      have hend : (Chunk.text run).gap chunks ++ write chunks ≠ [] →
          ¬ (Chunk.text run).EndsInBrace := by
        intro hne
        refine h.not_endsInBrace fun hnil => hne ?_
        rw [hnil]
        rfl
      exact (scanned_text hproper (startsMarkup_gap run chunks) hend).trans hbehind
    | tag g tokens =>
      have htag := (scanned_tag hproper _).trans hbehind
      simpa [write, Chunk.spelling] using htag

/-- The kinds and values of the tokens are those of their segments, wherever these are placed. -/
theorem contents_tokensOf (segments : List Segment) : ∀ place : Place,
    (tokensOf place segments).map (fun t => (t.kind, t.value.toList)) =
      segments.filterMap Segment.content := by
  induction segments with
  | nil => exact fun _ => rfl
  | cons s segments ih =>
    intro place
    obtain ⟨spelling, content⟩ := s
    rw [tokensOf, List.map_append, ih]
    cases content <;> simp [Segment.tokenAt]

/-- **What may be written is read again.**  The lexer makes of written chunks tokens of the kinds and
values that were written, and no others. -/
theorem tokenize_write (h : Proper chunks) :
    ∃ ts, tokenize (String.ofList (write chunks)) = .ok ts ∧
      ts.map (fun t => (t.kind, t.value.toList)) = chunks.flatMap Chunk.contents := by
  obtain ⟨segments, hscans, hcontents⟩ := scanned_write chunks h
  refine ⟨tokensOf .start segments, tokenize_of_scans ?_, ?_⟩
  · rwa [String.toList_ofList]
  · rw [contents_tokensOf, hcontents]

/-- Two texts and the tag `{{ not x == -1 "\"}}" }}`. -/
def sampleChunks : List Chunk :=
  [.text "a".toList, .text "b".toList,
    .tag .expression [(.kwNot, "not".toList), (.identifier, "x".toList), (.comparison, "==".toList),
      (.number, "-1".toList), (.string, "\x22\x7d\x7d".toList)]]

/-- Two texts in a row, and a tag with a literal full of quotes, backslashes and braces. -/
theorem tokenize_write_sample : Proper sampleChunks ∧
    write sampleChunks =
      "a\x7b##\x7db\x7b\x7b not x == -1 \x22\\\x22\x7d\x7d\x22 \x7d\x7d".toList ∧
    ∃ ts, tokenize (String.ofList (write sampleChunks)) = .ok ts ∧
      ts.map (fun t => (t.kind, t.value.toList)) = sampleChunks.flatMap Chunk.contents := by
  have htag : WritableAll .expression .openExpression 0
      [(.kwNot, "not".toList), (.identifier, "x".toList), (.comparison, "==".toList),
        (.number, "-1".toList), (.string, "\x22\x7d\x7d".toList)] := by
    refine .cons (.keyword (by decide) nofun) (.cons (.name ?_ nofun (by decide)) (.cons
      (.operator (by decide)) (.cons (@Writable.whole _ ['-'] ['1'] (.inr ⟨rfl, rfl⟩) ?_) (.cons
        (.string _) (.nil fun _ => rfl)))))
    · decide +kernel
    · exact ⟨by decide, List.forall_mem_singleton.mpr (by decide +kernel)⟩
  have hproper : Proper sampleChunks := by
    refine ⟨?_, by simp [sampleChunks, Chunk.EndsInBrace]⟩
    simp only [sampleChunks, List.forall_mem_cons]
    exact ⟨⟨by decide, (isPlain_text "a".toList).1⟩, ⟨by decide, (isPlain_text "b".toList).1⟩, htag,
      nofun⟩
  exact ⟨hproper, by decide, tokenize_write hproper⟩

end Stencil.Lexer
