import Stencil.Proofs.Lexer.Lexeme
import Stencil.Proofs.Sequence

/-!
# Lexer — nothing is lost

Each operation of the lexer passes segments, which stand for the tokens that it makes: `Passes`.
So does a run of operations (`Passes.trans`), so that the tokens of a text are those of segments that
make up the whole of it (`tokenize_cuts`).
-/

namespace Stencil

/-- Two passages in a row are one passage. -/
theorem Cursor.past_past (c : Cursor) (passed more rest rest' : List Char) :
    (c.past passed rest).past more rest' = c.past (passed ++ more) rest' := by
  unfold Cursor.past
  rw [Place.after_append]

namespace Lexer

variable {lexer mid lexer' : Lexer} {tag : Tag} {token : Token} {tokens more : List Token}
  {cs : List Char}

/-- From the one lexer to the other, segments were passed that stand for the tokens. -/
def Passes (lexer : Lexer) (tokens : List Token) (lexer' : Lexer) : Prop :=
  ∃ segments, Cuts lexer.openTag lexer.cursor.rest segments lexer'.openTag lexer'.cursor.rest ∧
    lexer'.cursor.place = lexer.cursor.place.after (spellingOf segments) ∧
    tokensOf lexer.cursor.place segments = tokens

namespace Passes

theorem refl (lexer : Lexer) : Passes lexer [] lexer := ⟨[], .nil _ _, rfl, rfl⟩

/-- What two runs in a row have passed is cut in a row, and stands for the tokens of both. -/
theorem trans (h : Passes lexer tokens mid) (h' : Passes mid more lexer') :
    Passes lexer (tokens ++ more) lexer' := by
  obtain ⟨segments, hcuts, hplace, rfl⟩ := h
  obtain ⟨segments', hcuts', hplace', rfl⟩ := h'
  refine ⟨segments ++ segments', hcuts.append hcuts', ?_, ?_⟩
  · rw [hplace', hplace, spellingOf_append, Place.after_append]
  · rw [tokensOf_append, hplace]

/-- One segment was passed. -/
theorem of_admits {tag tag' : Option Tag} {s : Segment} {rest : List Char}
    (h : Admits tag s rest tag') (htag : lexer.openTag = tag) (htag' : lexer'.openTag = tag')
    (hrest : lexer.cursor.rest = s.spelling ++ rest)
    (hcursor : lexer'.cursor = lexer.cursor.past s.spelling rest) :
    Passes lexer (s.tokenAt lexer.cursor.place).toList lexer' := by
  refine ⟨[s], ?_, ?_, List.append_nil _⟩
  · rw [htag, htag', hrest, hcursor]
    exact .cons h (.nil _ _)
  · rw [hcursor, spellingOf_cons, spellingOf_nil, List.append_nil]
    rfl

/-- A token takes some of the text. -/
theorem length_lt (h : Passes lexer tokens lexer') (hne : tokens ≠ []) :
    lexer'.cursor.rest.length < lexer.cursor.rest.length := by
  obtain ⟨segments, hcuts, -, rfl⟩ := h
  rw [hcuts.spelling_append, List.length_append]
  have hpos := List.length_pos_iff.mpr (hcuts.spelling_ne_nil (fun hnil => hne (hnil ▸ rfl)))
  omega

/-- No segment stands for the end of the input. -/
theorem kind_ne (h : Passes lexer tokens lexer') : ∀ token ∈ tokens, token.kind ≠ .endOfInput := by
  obtain ⟨segments, hcuts, -, rfl⟩ := h
  exact hcuts.kind_ne lexer.cursor.place

end Passes

/-! ### Small operations -/

/-- The lexer behind a spelling, where `rest` is left. -/
def beyond (lexer : Lexer) (spelling rest : List Char) : Lexer :=
  { lexer with cursor := lexer.cursor.past spelling rest }

theorem place_run (lexer : Lexer) : place.run lexer = .ok lexer.cursor.place lexer := rfl

theorem remaining_run (lexer : Lexer) : remaining.run lexer = .ok lexer.cursor.rest lexer := rfl

/-- A character at hand is passed. -/
theorem advance_run {c : Char} {rest : List Char} (h : lexer.cursor.rest = c :: rest) :
    advance.run lexer = .ok c (lexer.beyond [c] rest) := by
  obtain ⟨⟨place, cs⟩, openTag, depth, lastKind⟩ := lexer
  obtain rfl : cs = c :: rest := h
  rfl

/-- A spelling that is there is taken. -/
theorem pass_run {spelling rest : List Char} (h : lexer.cursor.rest = spelling ++ rest) :
    (pass spelling).run lexer = .ok () (lexer.beyond spelling rest) := by
  induction spelling generalizing lexer with
  | nil =>
    obtain ⟨⟨place, cs⟩, openTag, depth, lastKind⟩ := lexer
    obtain rfl : cs = rest := h
    rfl
  | cons c spelling ih =>
    rw [pass, bind_of_ok (advance_run h), ih rfl]
    rfl

/-- All that is left is passed, and nothing is left then. -/
theorem passAll_run (lexer : Lexer) :
    passAll.run lexer = .ok () (lexer.beyond lexer.cursor.rest []) := by
  rw [passAll, bind_of_ok (remaining_run lexer), pass_run (List.append_nil _).symm]

/-- A token that is made of a spelling. -/
theorem take_run {spelling rest : List Char} (h : lexer.cursor.rest = spelling ++ rest)
    (kind : Token.Kind) (value : List Char) (line column : Int) :
    (do pass spelling; emit kind value line column : Lexing Token).run lexer =
      .ok ⟨kind, String.ofList value, line, column⟩
        { lexer.beyond spelling rest with lastKind := some kind } := by
  rw [bind_of_ok (pass_run h)]
  rfl

/-! ### Outside tags -/

theorem readText_run (lexer : Lexer) : readText.run lexer =
    .ok ⟨.text, String.ofList (Lexeme.text lexer.cursor.rest).1, lexer.cursor.place.line,
        lexer.cursor.place.column⟩
      { lexer.beyond (Lexeme.text lexer.cursor.rest).1 (Lexeme.text lexer.cursor.rest).2 with
        lastKind := some .text } := by
  rw [readText, bind_of_ok (place_run _), bind_of_ok (remaining_run _)]
  exact take_run (Lexeme.text_append _).symm _ _ _ _

/-- Outside tags, where no markup starts, a maximal run of plain text is one segment. -/
theorem passes_readText (htag : lexer.openTag = none) (hne : lexer.cursor.rest ≠ [])
    (hmarkup : Lexeme.startsMarkup lexer.cursor.rest = false)
    (h : readText.run lexer = .ok token lexer') : Passes lexer [token] lexer' := by
  rw [readText_run] at h
  cases h
  have hplain := isPlain_text lexer.cursor.rest
  have hrun := text_ne_nil hne hmarkup
  exact .of_admits (.text hrun hplain.1 hplain.2) htag htag (Lexeme.text_append _).symm rfl

/-- A comment is passed up to its first end mark; without one the whole text is passed, and the
failure is at its end. -/
theorem skipComment_run (hrest : lexer.cursor.rest = '{' :: '#' :: cs) : skipComment.run lexer =
    match Lexeme.commentEnd? cs with
    | some (inside, rest) => .ok () (lexer.beyond ('{' :: '#' :: inside ++ ['#', '}']) rest)
    | none => .error (.unterminatedComment lexer.cursor.place.line lexer.cursor.place.column)
        (lexer.beyond ('{' :: '#' :: cs) []) := by
  rw [skipComment, bind_of_ok (place_run _), bind_of_ok (advance_run hrest),
    bind_of_ok (advance_run rfl), bind_of_ok (remaining_run _)]
  dsimp only [beyond, Cursor.past]
  cases hend : Lexeme.commentEnd? cs with
  | none =>
    dsimp only
    rw [bind_of_ok (passAll_run _)]
    rfl
  | some found =>
    obtain ⟨inside, rest⟩ := found
    have hcs : cs = (inside ++ ['#', '}']) ++ rest := by
      rw [Lexeme.eq_of_commentEnd? hend, List.append_assoc]
      rfl
    exact pass_run hcs

/-- A comment is a segment without a token. -/
theorem passes_skipComment (htag : lexer.openTag = none) (hrest : lexer.cursor.rest = '{' :: '#' :: cs)
    (h : skipComment.run lexer = .ok () lexer') :
    Passes lexer [] lexer' ∧ lexer'.openTag = none ∧
      lexer'.cursor.rest.length < lexer.cursor.rest.length := by
  rw [skipComment_run hrest] at h
  split at h
  · rename_i inside rest hend
    cases h
    have hcs := Lexeme.eq_of_commentEnd? hend
    have hcomment : Admits none ⟨'{' :: '#' :: inside ++ ['#', '}'], none⟩ rest none :=
      .comment (endsAtMark_of_commentEnd? hend)
    refine ⟨.of_admits hcomment htag htag ?_ rfl, htag, ?_⟩
    · rw [hrest, hcs]
      simp
    · rw [hrest, hcs]
      simp only [beyond, Cursor.past, List.length_cons, List.length_append]
      omega
  · cases h

/-- Behind the comments no further one starts, if there were rounds enough. -/
theorem passes_skipComments (rounds : Nat) : ∀ lexer : Lexer, lexer.openTag = none →
    lexer.cursor.rest.length ≤ rounds → (skipComments rounds).run lexer = .ok () lexer' →
    Passes lexer [] lexer' ∧ lexer'.openTag = none ∧
      ∀ cs, lexer'.cursor.rest ≠ '{' :: '#' :: cs := by
  induction rounds with
  | zero =>
    intro lexer htag hrounds h
    cases h
    refine ⟨.refl _, htag, fun cs hrest => ?_⟩
    rw [hrest] at hrounds
    exact absurd hrounds (Nat.not_succ_le_zero _)
  | succ rounds ih =>
    intro lexer htag hrounds h
    rw [skipComments, bind_of_ok (remaining_run _)] at h
    split at h
    · rename_i cs hrest
      obtain ⟨_, mid, hcomment, h⟩ := bind_eq_ok.mp h
      obtain ⟨hpasses, hmid, hshorter⟩ := passes_skipComment htag hrest hcomment
      obtain ⟨hpasses', hrest'⟩ := ih mid hmid (by omega) h
      exact ⟨hpasses.trans hpasses', hrest'⟩
    · rename_i hno
      cases h
      exact ⟨.refl _, htag, hno⟩

/-- A tag is entered behind its opener, with no brace open in it. -/
theorem enter_run (tag : Tag) {rest : List Char} (hrest : lexer.cursor.rest = tag.opener ++ rest)
    (start : Place) : (enter tag start).run lexer =
      .ok ⟨tag.openKind, String.ofList tag.opener, start.line, start.column⟩
        { lexer.beyond tag.opener rest with
          openTag := some tag, braceDepth := 0, lastKind := some tag.openKind } := by
  rw [enter, bind_of_ok (pass_run hrest)]
  rfl

/-- The opener of a tag is a segment of its own, and the tag is open behind it. -/
theorem passes_enter (tag : Tag) {rest : List Char} (htag : lexer.openTag = none)
    (hrest : lexer.cursor.rest = tag.opener ++ rest)
    (h : (enter tag lexer.cursor.place).run lexer = .ok token lexer') :
    Passes lexer [token] lexer' := by
  rw [enter_run tag hrest] at h
  cases h
  exact .of_admits (.opener tag rest) htag rfl hrest rfl

/-- Nothing is left, outside tags. -/
def AtEnd (lexer : Lexer) : Prop := lexer.openTag = none ∧ lexer.cursor.rest = []

/-- The token was made of what was passed, or nothing is left. -/
def Answers (lexer : Lexer) (token : Token) (lexer' : Lexer) : Prop :=
  Passes lexer [token] lexer' ∨ token.kind = .endOfInput ∧ Passes lexer [] lexer' ∧ AtEnd lexer'

/-- Outside tags the next token is a text, an opener, or the end of the input. -/
theorem answers_nextOutside (htag : lexer.openTag = none)
    (h : nextOutside.run lexer = .ok token lexer') : Answers lexer token lexer' := by
  rw [nextOutside, bind_of_ok (remaining_run _)] at h
  obtain ⟨_, mid, hcomments, h⟩ := bind_eq_ok.mp h
  obtain ⟨hpasses, hmid, hno⟩ := passes_skipComments _ _ htag (Nat.le_refl _) hcomments
  rw [bind_of_ok (place_run _), bind_of_ok (remaining_run _)] at h
  split at h
  · rename_i hrest
    cases h
    exact .inr ⟨rfl, hpasses, hmid, hrest⟩
  · rename_i rest hrest
    exact .inl (hpasses.trans (passes_enter .statement hmid hrest h))
  · rename_i rest hrest
    exact .inl (hpasses.trans (passes_enter .expression hmid hrest h))
  · rename_i hne hstatement hexpression
    have hmarkup := startsMarkup_eq_false hstatement hexpression hno
    exact .inl (hpasses.trans (passes_readText hmid hne hmarkup h))

/-! ### Inside tags -/

/-- The lexer in front of its next token, inside a tag. -/
def atToken (lexer : Lexer) : Lexer :=
  lexer.beyond (lexer.cursor.rest.takeWhile Text.isSpacing)
    (lexer.cursor.rest.dropWhile Text.isSpacing)

theorem skipSpacing_run (lexer : Lexer) : skipSpacing.run lexer = .ok () lexer.atToken := by
  rw [skipSpacing, bind_of_ok (remaining_run _)]
  exact pass_run List.takeWhile_append_dropWhile.symm

/-- The spacing in front of a token is a segment without a token. -/
theorem passes_skipSpacing (htag : lexer.openTag = some tag)
    (h : skipSpacing.run lexer = .ok () lexer') :
    Passes lexer [] lexer' ∧ lexer'.openTag = some tag := by
  rw [skipSpacing_run] at h
  cases h
  refine ⟨?_, htag⟩
  have hsplit := List.takeWhile_append_dropWhile (p := Text.isSpacing) (l := lexer.cursor.rest)
  cases hspacing : lexer.cursor.rest.takeWhile Text.isSpacing with
  | nil =>
    rw [hspacing, List.nil_append] at hsplit
    rw [atToken, hspacing, hsplit]
    exact .refl _
  | cons c cs =>
    have hall : ∀ d ∈ c :: cs, Text.isSpacing d = true := by
      intro d hd
      rw [← hspacing] at hd
      exact List.mem_takeWhile_imp hd
    have hcursor : lexer.atToken.cursor =
        lexer.cursor.past (c :: cs) (lexer.cursor.rest.dropWhile Text.isSpacing) := by
      rw [← hspacing]
      rfl
    exact .of_admits (.spacing (List.cons_ne_nil _ _) hall) htag htag (hspacing ▸ hsplit.symm)
      hcursor

/-- A token was made inside a tag, which is still open. -/
theorem passes_of_lexical {spelling value : List Char} {kind : Token.Kind}
    (hlexical : Lexical spelling kind value) (rest : List Char) (htag : lexer.openTag = some tag)
    (hrest : lexer.cursor.rest = spelling ++ rest)
    (hcursor : lexer'.cursor = lexer.cursor.past spelling rest)
    (htag' : lexer'.openTag = lexer.openTag) :
    Passes lexer [⟨kind, String.ofList value, lexer.cursor.place.line, lexer.cursor.place.column⟩]
      lexer' :=
  .of_admits (.token hlexical) htag (htag'.trans htag) hrest hcursor

/-- A word is cut whole; `not` with an `in` behind it is one segment, spacing and all. -/
theorem passes_readWord {c : Char} (htag : lexer.openTag = some tag)
    (hrest : lexer.cursor.rest = c :: cs) (hc : Text.startsWord c = true)
    (h : (readWord lexer.cursor.place.line lexer.cursor.place.column).run lexer =
      .ok token lexer') : Passes lexer [token] lexer' := by
  have hsplit := List.takeWhile_append_dropWhile (p := Text.isWord) (l := lexer.cursor.rest)
  rw [readWord, bind_of_ok (remaining_run _)] at h
  dsimp only at h
  rw [bind_of_ok (pass_run hsplit.symm)] at h
  -- a word by itself, or a not with the word behind it
  split at h
  · rename_i spacing rest hmember
    split at hmember
    · rename_i hnot
      obtain ⟨hbehind, hspacing⟩ := eq_of_memberWord? hmember
      rw [take_run hbehind] at h
      cases h
      rw [hnot, hbehind] at hsplit
      have hne := ne_nil_of_memberWord? hmember
      refine passes_of_lexical (.notIn hne hspacing) rest htag ?_ ?_ rfl
      · rw [← hsplit]
        simp
      · rw [hnot]
        exact Cursor.past_past _ _ _ _ _
    · cases hmember
  · cases h
    have hword : lexer.cursor.rest.takeWhile Text.isWord = c :: cs.takeWhile Text.isWord := by
      rw [hrest, List.takeWhile_cons_of_pos (Text.isWord_of_startsWord hc)]
    rw [hword]
    refine passes_of_lexical (.word hc fun d hd => List.mem_takeWhile_imp hd) _ htag ?_ rfl rfl
    rw [← hword, hsplit]

/-- A number goes as far as its digits, with one point that digits follow. -/
theorem readNumber_run (line column : Int) (taken : List Char) (lexer : Lexer) :
    (readNumber line column taken).run lexer =
      .ok ⟨.number, String.ofList (taken ++ (Lexeme.number lexer.cursor.rest).1), line, column⟩
        { lexer with
          cursor := lexer.cursor.past (Lexeme.number lexer.cursor.rest).1
            (Lexeme.number lexer.cursor.rest).2
          lastKind := some .number } := by
  rw [readNumber, bind_of_ok (remaining_run _)]
  exact take_run (Lexeme.number_append _).symm _ _ _ _

/-- A number is cut whole. -/
theorem passes_readNumber {c : Char} (htag : lexer.openTag = some tag)
    (hrest : lexer.cursor.rest = c :: cs) (hc : Text.isDigit c = true)
    (h : (readNumber lexer.cursor.place.line lexer.cursor.place.column []).run lexer =
      .ok token lexer') : Passes lexer [token] lexer' := by
  rw [readNumber_run, hrest] at h
  cases h
  refine passes_of_lexical (lexical_number (.inl rfl) hc cs) _ htag ?_ rfl rfl
  rw [List.nil_append, Lexeme.number_append, hrest]

/-- A minus sign that belongs to a number has a digit behind it. -/
theorem eq_of_startsNegative {lastKind : Option Token.Kind}
    (h : startsNegative lastKind cs = true) :
    ∃ c rest, Text.isDigit c = true ∧ cs = '-' :: c :: rest := by
  unfold startsNegative at h
  split at h
  · rename_i c rest
    exact ⟨c, rest, (Bool.and_eq_true_iff.mp h).1, rfl⟩
  · cases h

/-- A number with a minus sign is one segment, although it is read in two steps. -/
theorem passes_negative {c : Char} (htag : lexer.openTag = some tag)
    (hrest : lexer.cursor.rest = '-' :: c :: cs) (hc : Text.isDigit c = true)
    (h : (readNumber lexer.cursor.place.line lexer.cursor.place.column ['-']).run
      { lexer with cursor := lexer.cursor.past ['-'] (c :: cs) } = .ok token lexer') :
    Passes lexer [token] lexer' := by
  rw [readNumber_run] at h
  cases h
  refine passes_of_lexical (lexical_number (.inr rfl) hc cs) (Lexeme.number (c :: cs)).2 htag ?_
    (Cursor.past_past _ _ _ _ _) rfl
  rw [List.append_assoc, Lexeme.number_append, hrest]
  rfl

/-- A literal is read behind its first quote. -/
theorem readString_run {quote : Char} (hrest : lexer.cursor.rest = quote :: cs)
    (line column : Int) : (readString line column).run lexer =
      match Lexeme.quotation? quote cs with
      | some q => .ok ⟨.string, String.ofList q.value, line, column⟩
          { lexer.beyond (quote :: q.spelling) q.rest with lastKind := some .string }
      | none => .error (.unterminatedString line column) (lexer.beyond (quote :: cs) []) := by
  rw [readString, bind_of_ok (advance_run hrest), bind_of_ok (remaining_run _)]
  dsimp only [beyond, Cursor.past]
  cases hq : Lexeme.quotation? quote cs with
  | none =>
    dsimp only
    rw [bind_of_ok (passAll_run _)]
    rfl
  | some q => exact take_run (Lexeme.eq_of_quotation? hq) _ _ _ _

/-- A string literal is cut with both of its quotes. -/
theorem passes_readString {c : Char} (htag : lexer.openTag = some tag)
    (hrest : lexer.cursor.rest = c :: cs) (hc : c = '\x22' ∨ c = '\x27')
    (h : (readString lexer.cursor.place.line lexer.cursor.place.column).run lexer =
      .ok token lexer') : Passes lexer [token] lexer' := by
  rw [readString_run hrest] at h
  split at h
  · rename_i q hq
    obtain ⟨inside, hspelling, hquoted⟩ := quoted_of_quotation? hq
    cases h
    refine passes_of_lexical (.string hc hquoted) q.rest htag ?_ ?_ rfl
    · rw [hrest, Lexeme.eq_of_quotation? hq, hspelling]
      rfl
    · rw [List.cons_append, ← hspelling]
      rfl
  · cases h

/-- The longest operator that is at hand is taken, or none is at hand. -/
theorem matchOperator_run (lexer : Lexer) : matchOperator.run lexer =
    match Lexeme.operator? lexer.cursor.rest with
    | some (kind, spelling, rest) =>
      .ok (some ⟨kind, String.ofList spelling, lexer.cursor.place.line, lexer.cursor.place.column⟩)
        { lexer.beyond spelling rest with lastKind := some kind }
    | none => .ok none lexer := by
  rw [matchOperator, bind_of_ok (place_run _), bind_of_ok (remaining_run _)]
  cases hfound : Lexeme.operator? lexer.cursor.rest with
  | none => rfl
  | some found =>
    obtain ⟨kind, spelling, rest⟩ := found
    dsimp only
    rw [bind_of_ok (pass_run (Lexeme.eq_of_operator? hfound))]
    rfl

/-- An operator is cut whole; the braces among them are counted. -/
theorem passes_readOperator {c : Char} (htag : lexer.openTag = some tag)
    (h : (readOperator c lexer.cursor.place).run lexer = .ok token lexer') :
    Passes lexer [token] lexer' := by
  obtain ⟨found, mid, hmatch, h⟩ := bind_eq_ok.mp h
  rw [matchOperator_run] at hmatch
  split at hmatch
  · rename_i kind spelling rest hfound
    cases hmatch
    cases h
    exact passes_of_lexical (lexical_operator hfound) rest htag (Lexeme.eq_of_operator? hfound) rfl
      rfl
  · cases hmatch
    cases h

/-- A mark that closes the tag is at hand where it is found. -/
theorem eq_of_closing? {depth : Nat} {rest : List Char} (h : closing? tag depth cs = some rest) :
    cs = tag.closer ++ rest := by
  unfold closing? at h
  split at h
  · split at h
    · rename_i htag
      cases h
      rw [htag]
      rfl
    · cases h
  · split at h
    · rename_i htag
      cases h
      rw [htag.1]
      rfl
    · cases h
  · cases h

/-- A tag is left behind its closer. -/
theorem leave_run {rest : List Char} (hrest : lexer.cursor.rest = tag.closer ++ rest)
    (start : Place) : (leave tag start).run lexer =
      .ok ⟨tag.closeKind, String.ofList tag.closer, start.line, start.column⟩
        { lexer.beyond tag.closer rest with openTag := none, lastKind := some tag.closeKind } := by
  rw [leave, bind_of_ok (pass_run hrest)]
  rfl

/-- The closer of a tag is a segment of its own, and no tag is open behind it. -/
theorem passes_leave {rest : List Char} (htag : lexer.openTag = some tag)
    (hrest : lexer.cursor.rest = tag.closer ++ rest)
    (h : (leave tag lexer.cursor.place).run lexer = .ok token lexer') :
    Passes lexer [token] lexer' := by
  rw [leave_run hrest] at h
  cases h
  exact .of_admits (.closer tag rest) htag rfl hrest rfl

/-- Whatever branch reads the next token inside a tag, it has passed one segment. -/
theorem passes_nextInside (htag : lexer.openTag = some tag)
    (h : (nextInside tag).run lexer = .ok token lexer') : Passes lexer [token] lexer' := by
  rw [nextInside] at h
  obtain ⟨_, mid, hspacing, h⟩ := bind_eq_ok.mp h
  obtain ⟨hpasses, hmid⟩ := passes_skipSpacing htag hspacing
  -- the spacing has been passed, and what is left begins with the token
  refine hpasses.trans ?_
  rw [bind_of_ok (get_run _)] at h
  dsimp only at h
  split at h
  · cases h
  · rename_i c rest hrest
    split at h
    · rename_i after hclosing
      exact passes_leave hmid (hrest ▸ eq_of_closing? hclosing) h
    · split at h
      · rename_i hc
        exact passes_readWord hmid hrest hc h
      · split at h
        · rename_i hc
          exact passes_readNumber hmid hrest hc h
        · split at h
          · rename_i hnegative
            obtain ⟨d, rest', hd, heq⟩ := eq_of_startsNegative hnegative
            rw [bind_of_ok (advance_run hrest)] at h
            obtain ⟨rfl, rfl⟩ := List.cons.inj heq
            exact passes_negative hmid hrest hd h
          · split at h
            · rename_i hc
              exact passes_readString hmid hrest hc h
            · exact passes_readOperator hmid h

/-! ### In front of a token -/

/-- Takes a minus sign and the number behind it as one number. -/
def readSigned (start : Place) : Lexing Token := do
  let _ ← advance
  readNumber start.line start.column ['-']

/-- Inside a tag the next token is made of what follows the spacing. -/
theorem next_run {c : Char} {cs : List Char} (htag : lexer.openTag = some tag)
    (hrest : lexer.atToken.cursor.rest = c :: cs)
    (hclosing : closing? tag lexer.braceDepth (c :: cs) = none) :
    next.run lexer =
      (let start := lexer.atToken.cursor.place
       if Text.startsWord c then readWord start.line start.column
       else if Text.isDigit c then readNumber start.line start.column []
       else if startsNegative lexer.lastKind (c :: cs) then readSigned start
       else if c = '\x22' ∨ c = '\x27' then readString start.line start.column
       else readOperator c start).run lexer.atToken := by
  have hdepth : lexer.atToken.braceDepth = lexer.braceDepth := rfl
  have hkind : lexer.atToken.lastKind = lexer.lastKind := rfl
  rw [next, bind_of_ok (get_run _), htag]
  dsimp only
  rw [nextInside, bind_of_ok (skipSpacing_run _), bind_of_ok (get_run _), hrest]
  simp only [hdepth, hkind, hclosing, readSigned]

/-! ### The whole text -/

/-- One call passes what lies before the token, and the token. -/
theorem answers_next (h : next.run lexer = .ok token lexer') : Answers lexer token lexer' := by
  rw [next, bind_of_ok (get_run _)] at h
  split at h
  · rename_i htag
    exact answers_nextOutside htag h
  · rename_i tag htag
    exact .inl (passes_nextInside htag h)

/-- Every token takes a character, so that one round more than characters is enough. -/
theorem passes_drain (rounds : Nat) : ∀ (lexer : Lexer) (tokens : List Token),
    lexer.cursor.rest.length < rounds → (drain rounds).run lexer = .ok tokens lexer' →
    Passes lexer tokens lexer' ∧ AtEnd lexer' := by
  induction rounds with
  | zero => exact fun _ _ hrounds => absurd hrounds (Nat.not_lt_zero _)
  | succ rounds ih =>
    intro lexer tokens hrounds h
    rw [drain] at h
    obtain ⟨token, mid, hnext, h⟩ := bind_eq_ok.mp h
    rcases answers_next hnext with hpasses | ⟨hkind, hpasses, hend⟩
    · rw [if_neg (hpasses.kind_ne token (.head _))] at h
      obtain ⟨rest, mid', hdrain, h⟩ := bind_eq_ok.mp h
      cases h
      have hshorter := hpasses.length_lt (List.cons_ne_nil _ _)
      obtain ⟨hpasses', hend⟩ := ih mid rest (by omega) hdrain
      exact ⟨hpasses.trans hpasses', hend⟩
    · rw [if_pos hkind] at h
      cases h
      exact ⟨hpasses, hend⟩

/-- One round more than characters is what `tokens` makes. -/
theorem tokenize_eq_ok {source : String} : tokenize source = .ok ts ↔
    ∃ lexer', (drain (source.toList.length + 1)).run (ofText source) = .ok ts lexer' := by
  have htokens : tokens.run (ofText source) =
      (drain (source.toList.length + 1)).run (ofText source) := rfl
  unfold tokenize
  rw [htokens]
  constructor <;> intro h
  · split at h
    · rename_i made last hrun
      cases h
      exact ⟨last, hrun⟩
    · cases h
  · obtain ⟨last, hrun⟩ := h
    rw [hrun]

/-- A text that the rounds cannot read is refused for the same reason. -/
theorem tokenize_of_error {source : String} {e : Error}
    (h : (drain (source.toList.length + 1)).run (ofText source) = .error e lexer') :
    tokenize source = .error e := by
  have htokens : tokens.run (ofText source) = .error e lexer' := h
  unfold tokenize
  rw [htokens]

/-- **The tokens of a text are those of segments that make up the text, in order, from its first
character to its last.** -/
theorem tokenize_cuts {source : String} {tokens : List Token} (h : tokenize source = .ok tokens) :
    ∃ segments, Cuts none source.toList segments none [] ∧
      spellingOf segments = source.toList ∧ tokensOf .start segments = tokens := by
  unfold tokenize at h
  split at h
  · rename_i made lexer' hrun
    cases h
    rw [Lexer.tokens, bind_of_ok (remaining_run _)] at hrun
    obtain ⟨⟨segments, hcuts, -, htokens⟩, htag, hrest⟩ := passes_drain _ _ _ (Nat.lt_succ_self _) hrun
    have hwhole : Cuts none source.toList segments none [] := by
      rwa [htag, hrest] at hcuts
    refine ⟨segments, hwhole, ?_, htokens⟩
    rw [hwhole.spelling_append, List.append_nil]
  · cases h

/-- A text, a comment, and a tag whose `not in` has two spaces in it. -/
theorem tokenize_cuts_sample : ∃ segments,
    Cuts none "a\x7b# b #\x7d\x7b\x7b x not  in 'y' \x7d\x7d".toList segments none [] ∧
      spellingOf segments = "a\x7b# b #\x7d\x7b\x7b x not  in 'y' \x7d\x7d".toList ∧
      tokensOf .start segments =
        [⟨.text, "a", 1, 1⟩, ⟨.openExpression, "\x7b\x7b", 1, 9⟩, ⟨.identifier, "x", 1, 12⟩,
          ⟨.kwNotIn, "not in", 1, 14⟩, ⟨.string, "y", 1, 22⟩,
          ⟨.closeExpression, "\x7d\x7d", 1, 26⟩] :=
  tokenize_cuts (by decide +kernel)

end Lexer

end Stencil
