import Stencil.Proofs.Lexer.Cutting

/-!
# Lexer — one segment at a time

The lexer as a function of the text in front of it and of little else.  Outside tags it goes by the
text alone; inside a tag it also goes by the tag, the depth of braces, and the kind of the last token
(`Mode`).  `scan` takes the segment at the front, or says what is wrong there.

`Scans` is a row of such segments.  They are segments that the lexer admits (`Scans.cuts`), and every
text is scanned up to its end or to a flaw (`exists_scans`).
-/

namespace Stencil.Lexer

/-- What the lexer goes by, besides the text. -/
inductive Mode
  | outside
  | inside (tag : Tag) (braceDepth : Nat) (lastKind : Option Token.Kind)

/-- The tag that is open in a mode. -/
def Mode.openTag : Mode → Option Tag
  | outside => none
  | inside tag _ _ => some tag

theorem Mode.inside_ne_outside {tag : Tag} {depth : Nat} {lastKind : Option Token.Kind} :
    inside tag depth lastKind ≠ outside := nofun

/-- What is wrong at the front of a text. -/
inductive Flaw
  | comment
  | string
  | tag (tag : Tag)
  | character (c : Char)

/-- The error over a flaw at a place. -/
def Flaw.errorAt (place : Place) : Flaw → Error
  | comment => .unterminatedComment place.line place.column
  | string => .unterminatedString place.line place.column
  | tag t => .unterminatedTag t place.line place.column
  | character c => .unexpectedCharacter c place.line place.column

/-- What is at the front of a text. -/
inductive Front
  /-- Nothing is left, outside tags. -/
  | ended
  /-- A segment, the mode behind it, and what is left. -/
  | segment (s : Segment) (mode : Mode) (rest : List Char)
  | flaw (f : Flaw)

/-! ### The front of a text -/

/-- The front of a text outside tags. -/
def scanOutside : List Char → Front
  | [] => .ended
  | '{' :: '#' :: cs =>
    match Lexeme.commentEnd? cs with
    | some (inside, rest) => .segment ⟨'{' :: '#' :: inside ++ ['#', '}'], none⟩ .outside rest
    | none => .flaw .comment
  | '{' :: '%' :: rest =>
    .segment ⟨Tag.statement.opener, some (.openStatement, Tag.statement.opener)⟩
      (.inside .statement 0 (some .openStatement)) rest
  | '{' :: '{' :: rest =>
    .segment ⟨Tag.expression.opener, some (.openExpression, Tag.expression.opener)⟩
      (.inside .expression 0 (some .openExpression)) rest
  | cs => .segment ⟨(Lexeme.text cs).1, some (.text, (Lexeme.text cs).1)⟩ .outside (Lexeme.text cs).2

/-- A token inside a tag: its spelling, kind and value, and what is left. -/
structure Found where
  spelling : List Char
  kind : Token.Kind
  value : List Char
  rest : List Char

/-- The word at the front; `not` and `in` are one. -/
def word (cs : List Char) : Found :=
  let word := cs.takeWhile Text.isWord
  let after := cs.dropWhile Text.isWord
  match if word = ['n', 'o', 't'] then Lexeme.memberWord? after else none with
  | some (spacing, rest) =>
    ⟨word ++ (spacing ++ ['i', 'n']), .kwNotIn, ['n', 'o', 't', ' ', 'i', 'n'], rest⟩
  | none => ⟨word, Vocabulary.wordKind word, word, after⟩

/-- The number at the front, behind what is taken of it. -/
def number (taken cs : List Char) : Found :=
  ⟨taken ++ (Lexeme.number cs).1, .number, taken ++ (Lexeme.number cs).1, (Lexeme.number cs).2⟩

/-- The token at the front, which begins with the character. -/
def found? (lastKind : Option Token.Kind) (c : Char) (cs : List Char) : Option Found :=
  if Text.startsWord c then some (word (c :: cs))
  else if Text.isDigit c then some (number [] (c :: cs))
  else if startsNegative lastKind (c :: cs) then some (number [c] cs)
  else if c = '\x22' ∨ c = '\x27' then
    (Lexeme.quotation? c cs).map fun q => ⟨c :: q.spelling, .string, q.value, q.rest⟩
  else (Lexeme.operator? (c :: cs)).map fun (kind, spelling, rest) => ⟨spelling, kind, spelling, rest⟩

/-- The front of a text inside a tag. -/
def scanInside (tag : Tag) (depth : Nat) (lastKind : Option Token.Kind) : List Char → Front
  | [] => .flaw (.tag tag)
  | c :: cs =>
    if Text.isSpacing c then
      .segment ⟨(c :: cs).takeWhile Text.isSpacing, none⟩ (.inside tag depth lastKind)
        ((c :: cs).dropWhile Text.isSpacing)
    else match closing? tag depth (c :: cs) with
      | some rest => .segment ⟨tag.closer, some (tag.closeKind, tag.closer)⟩ .outside rest
      | none => match found? lastKind c cs with
        | some f =>
          .segment ⟨f.spelling, some (f.kind, f.value)⟩
            (.inside tag (depthAfter depth f.kind) (some f.kind)) f.rest
        | none => .flaw (if c = '\x22' ∨ c = '\x27' then .string else .character c)

/-- The front of a text. -/
def scan : Mode → List Char → Front
  | .outside => scanOutside
  | .inside tag depth lastKind => scanInside tag depth lastKind

/-- A row of segments at the front of a text, with the modes at both ends and what is left. -/
inductive Scans : Mode → List Char → List Segment → Mode → List Char → Prop
  | nil (m : Mode) (cs : List Char) : Scans m cs [] m cs
  | cons {m m' m'' : Mode} {s : Segment} {segments : List Segment} {cs rest rest' : List Char} :
      scan m cs = .segment s m' rest → Scans m' rest segments m'' rest' →
      Scans m cs (s :: segments) m'' rest'

/-! ### Segments -/

variable {tag : Tag} {depth : Nat} {lastKind : Option Token.Kind} {m m' : Mode}
  {s : Segment} {segments : List Segment} {f : Found} {c : Char} {cs rest : List Char}

/-- A word that is read is at hand and spells its kind. -/
theorem lexical_word (hc : Text.startsWord c = true) (cs : List Char) :
    c :: cs = (word (c :: cs)).spelling ++ (word (c :: cs)).rest ∧
      Lexical (word (c :: cs)).spelling (word (c :: cs)).kind (word (c :: cs)).value := by
  have hsplit := List.takeWhile_append_dropWhile (p := Text.isWord) (l := c :: cs)
  unfold word
  dsimp only
  split
  · rename_i spacing rest hmember
    split at hmember
    · rename_i hnot
      obtain ⟨hbehind, hspacing⟩ := eq_of_memberWord? hmember
      have hne := ne_nil_of_memberWord? hmember
      rw [hbehind] at hsplit
      refine ⟨by simpa using hsplit.symm, ?_⟩
      rw [hnot, ← List.append_assoc]
      exact .notIn hne hspacing
    · cases hmember
  · have hword : (c :: cs).takeWhile Text.isWord = c :: cs.takeWhile Text.isWord :=
      List.takeWhile_cons_of_pos (Text.isWord_of_startsWord hc)
    refine ⟨hsplit.symm, ?_⟩
    rw [hword]
    exact .word hc fun d hd => List.mem_takeWhile_imp hd

/-- Whatever is found inside a tag is at hand and spells its kind. -/
theorem lexical_of_found? (h : found? lastKind c cs = some f) :
    c :: cs = f.spelling ++ f.rest ∧ Lexical f.spelling f.kind f.value := by
  unfold found? at h
  split at h
  · rename_i hc
    cases h
    exact lexical_word hc cs
  split at h
  · rename_i hc
    cases h
    exact ⟨(Lexeme.number_append _).symm, lexical_number (.inl rfl) hc cs⟩
  split at h
  · rename_i hnegative
    obtain ⟨d, rest, hd, heq⟩ := eq_of_startsNegative hnegative
    obtain ⟨rfl, rfl⟩ := List.cons.inj heq
    cases h
    refine ⟨?_, lexical_number (.inr rfl) hd rest⟩
    simp [number, Lexeme.number_append]
  split at h
  · rename_i hc
    obtain ⟨q, hq, rfl⟩ := Option.map_eq_some_iff.mp h
    obtain ⟨inside, hspelling, hquoted⟩ := quoted_of_quotation? hq
    refine ⟨by rw [Lexeme.eq_of_quotation? hq, List.cons_append], ?_⟩
    rw [hspelling]
    exact .string hc hquoted
  · obtain ⟨⟨kind, spelling, rest⟩, ho, rfl⟩ := Option.map_eq_some_iff.mp h
    exact ⟨Lexeme.eq_of_operator? ho, lexical_operator ho⟩

/-- What is scanned is a segment of the text. -/
theorem admits_of_scan (h : scan m cs = .segment s m' rest) :
    cs = s.spelling ++ rest ∧ Admits m.openTag s rest m'.openTag := by
  cases m with
  | outside =>
    rw [scan, scanOutside.eq_def] at h
    split at h
    · cases h
    · split at h
      · rename_i inside rest hend
        cases h
        refine ⟨?_, .comment (endsAtMark_of_commentEnd? hend)⟩
        rw [Lexeme.eq_of_commentEnd? hend]
        simp
      · cases h
    · cases h
      exact ⟨rfl, .opener .statement _⟩
    · cases h
      exact ⟨rfl, .opener .expression _⟩
    -- no markup starts, so the text is plain and goes as far as it can
    · rename_i hne hcomment hstatement hexpression
      cases h
      have hmarkup := startsMarkup_eq_false hstatement hexpression hcomment
      have hplain := isPlain_text cs
      exact ⟨(Lexeme.text_append cs).symm, .text (text_ne_nil hne hmarkup) hplain.1 hplain.2⟩
  | inside tag depth lastKind =>
    rw [scan, scanInside.eq_def] at h
    split at h
    · cases h
    rename_i c cs
    split at h
    · rename_i hc
      cases h
      refine ⟨(List.takeWhile_append_dropWhile).symm, .spacing ?_ fun d hd => List.mem_takeWhile_imp hd⟩
      simp [List.takeWhile_cons_of_pos hc]
    split at h
    · rename_i rest hclosing
      cases h
      exact ⟨eq_of_closing? hclosing, .closer tag _⟩
    split at h
    · rename_i f hf
      cases h
      obtain ⟨heq, hlexical⟩ := lexical_of_found? hf
      exact ⟨heq, .token hlexical⟩
    · cases h

/-- What a segment does to the mode.  It opens a tag or closes it, or stands outside tags or inside
one; only what is inside counts for the braces, and braces that are open keep an expression open. -/
inductive Leads : Mode → Segment → Mode → Prop
  | comment (inside : List Char) :
      Leads .outside ⟨'{' :: '#' :: inside ++ ['#', '}'], none⟩ .outside
  | text (run : List Char) : Leads .outside ⟨run, some (.text, run)⟩ .outside
  | opener (tag : Tag) : Leads .outside ⟨tag.opener, some (tag.openKind, tag.opener)⟩
      (.inside tag 0 (some tag.openKind))
  | spacing {tag : Tag} {depth : Nat} {lastKind : Option Token.Kind} (cs : List Char) :
      Leads (.inside tag depth lastKind) ⟨cs, none⟩ (.inside tag depth lastKind)
  | closer {tag : Tag} {depth : Nat} {lastKind : Option Token.Kind} :
      (tag = .expression → depth = 0) →
      Leads (.inside tag depth lastKind) ⟨tag.closer, some (tag.closeKind, tag.closer)⟩ .outside
  | token {tag : Tag} {depth : Nat} {lastKind : Option Token.Kind} {spelling value : List Char}
      {kind : Token.Kind} : Lexical spelling kind value →
      Leads (.inside tag depth lastKind) ⟨spelling, some (kind, value)⟩
        (.inside tag (depthAfter depth kind) (some kind))

/-- A tag with an expression is not closed while a brace is open in it. -/
theorem depth_of_closing? (h : closing? tag depth cs = some rest) :
    tag = .expression → depth = 0 := by
  rintro rfl
  unfold closing? at h
  split at h
  · cases h
  · split at h
    · rename_i hdepth
      exact hdepth.2
    · cases h
  · cases h

/-- A segment leads from its mode to the next one as its kind demands. -/
theorem leads_of_scan (h : scan m cs = .segment s m' rest) : Leads m s m' := by
  cases m with
  | outside =>
    rw [scan, scanOutside.eq_def] at h
    split at h
    · cases h
    · split at h <;> cases h
      exact .comment _
    · cases h
      exact .opener .statement
    · cases h
      exact .opener .expression
    · cases h
      exact .text _
  | inside tag depth lastKind =>
    rw [scan, scanInside.eq_def] at h
    split at h
    · cases h
    split at h
    · cases h
      exact .spacing _
    split at h
    -- a closer is found only where its tag may be closed
    · rename_i hclosing
      cases h
      exact .closer (depth_of_closing? hclosing)
    split at h
    · rename_i hfound
      cases h
      exact .token (lexical_of_found? hfound).2
    · cases h

namespace Scans

variable {m'' : Mode} {mid : List Char} {more : List Segment}

/-- What is scanned up to some place is scanned on from there. -/
theorem append (h : Scans m cs segments m' mid) (h' : Scans m' mid more m'' rest) :
    Scans m cs (segments ++ more) m'' rest := by
  induction h with
  | nil => exact h'
  | cons hs _ ih => exact .cons hs (ih h')

/-- What is scanned is cut into segments. -/
theorem cuts (h : Scans m cs segments m' rest) : Cuts m.openTag cs segments m'.openTag rest := by
  induction h with
  | nil => exact .nil _ _
  | cons hs _ ih =>
    obtain ⟨rfl, hadmits⟩ := admits_of_scan hs
    exact .cons hadmits ih

/-- The segments that are scanned and what is left make up the text. -/
theorem spelling_append (h : Scans m cs segments m' rest) : cs = spellingOf segments ++ rest :=
  h.cuts.spelling_append

end Scans

/-- A segment takes a character at least. -/
theorem length_lt_of_scan (h : scan m cs = .segment s m' rest) : rest.length < cs.length := by
  obtain ⟨rfl, hadmits⟩ := admits_of_scan h
  have hpos := List.length_pos_iff.mpr hadmits.ne_nil
  rw [List.length_append]
  omega

/-- Plain text up to a tag or comment, or to the end, is one segment. -/
theorem scan_text {run : List Char} (hne : run ≠ []) (hplain : IsPlain run rest)
    (hrest : rest = [] ∨ Lexeme.startsMarkup rest = true) :
    scan .outside (run ++ rest) = .segment ⟨run, some (.text, run)⟩ .outside rest := by
  have hfront : Lexeme.startsMarkup (run ++ rest) = false := hplain [] run rfl hne
  have htext := text_of_isPlain hplain hrest
  rw [scan, scanOutside.eq_def]
  split
  · rename_i heq
    exact absurd (List.append_eq_nil_iff.mp heq).1 hne
  · rename_i heq
    rw [heq] at hfront
    cases hfront
  · rename_i heq
    rw [heq] at hfront
    cases hfront
  · rename_i heq
    rw [heq] at hfront
    cases hfront
  · rw [htext]

/-- Only outside tags, where nothing is left, is the end. -/
theorem scan_eq_ended : scan m cs = .ended ↔ m = .outside ∧ cs = [] := by
  constructor
  · intro h
    cases m with
    | outside =>
      refine ⟨rfl, ?_⟩
      rw [scan, scanOutside.eq_def] at h
      split at h
      · rfl
      · split at h <;> cases h
      all_goals cases h
    | inside tag depth lastKind =>
      rw [scan, scanInside.eq_def] at h
      repeat' split at h
      all_goals cases h
  · rintro ⟨rfl, rfl⟩
    rfl

/-- **Every text is scanned up to its end or to a flaw.** -/
theorem exists_scans (m : Mode) (cs : List Char) : ∃ segments m' rest, Scans m cs segments m' rest ∧
    (scan m' rest = .ended ∨ ∃ f, scan m' rest = .flaw f) := by
  cases h : scan m cs with
  | ended => exact ⟨[], m, cs, .nil m cs, .inl h⟩
  | flaw f => exact ⟨[], m, cs, .nil m cs, .inr ⟨f, h⟩⟩
  | segment s m' rest =>
    have hlt := length_lt_of_scan h
    obtain ⟨segments, m'', rest', hscans, hend⟩ := exists_scans m' rest
    exact ⟨s :: segments, m'', rest', .cons h hscans, hend⟩
termination_by cs.length

end Stencil.Lexer
