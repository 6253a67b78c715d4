import Stencil.Proofs.Lexer.Scan

/-!
# Lexer — the lexer scans

The lexer passes the segment that is scanned at the front of what is left (`takes_of_scan`), and
fails over a flaw there (`next_of_flaw`).  So `scan` decides what the lexer makes of a text: its tokens
are those of the segments, if it is scanned to its end (`tokenize_eq_ok_iff_scans`), and the error is
that of the flaw, if it is scanned to one (`tokenize_of_flaw`).  Where the reading began is no matter
but for the places of tokens and errors.
-/

namespace Stencil.Lexer

variable {lexer lexer' : Lexer} {tag : Tag} {depth : Nat} {lastKind : Option Token.Kind} {m m' : Mode}
  {s : Segment} {segments : List Segment} {f : Found} {c : Char} {cs rest : List Char}

/-- The mode of a lexer. -/
def mode (lexer : Lexer) : Mode :=
  match lexer.openTag with
  | none => .outside
  | some tag => .inside tag lexer.braceDepth lexer.lastKind

theorem mode_outside : lexer.mode = .outside ↔ lexer.openTag = none := by
  unfold mode
  cases lexer.openTag <;> simp

theorem mode_inside : lexer.mode = .inside tag depth lastKind ↔
    lexer.openTag = some tag ∧ lexer.braceDepth = depth ∧ lexer.lastKind = lastKind := by
  unfold mode
  cases lexer.openTag <;> simp

/-- The lexer passes the segment and is in the mode behind it: it makes the token of the segment, or
what it would make from there. -/
def Takes (lexer : Lexer) (s : Segment) (m : Mode) (rest : List Char) : Prop :=
  ∃ lexer', lexer'.mode = m ∧ lexer'.cursor = lexer.cursor.past s.spelling rest ∧
    next.run lexer = match s.tokenAt lexer.cursor.place with
      | some token => .ok token lexer'
      | none => next.run lexer'

/-! ### The lexer outside tags -/

theorem skipComments_of_ne (h : ∀ cs, lexer.cursor.rest ≠ '{' :: '#' :: cs) (rounds : Nat) :
    (skipComments rounds).run lexer = .ok () lexer := by
  cases rounds with
  | zero => rfl
  | succ rounds =>
    rw [skipComments, bind_of_ok (remaining_run _)]
    split
    · rename_i cs hrest
      exact absurd hrest (h cs)
    · rfl

theorem skipComments_succ (hrest : lexer.cursor.rest = '{' :: '#' :: cs) (rounds : Nat) :
    (skipComments (rounds + 1)).run lexer =
      (skipComment >>= fun _ => skipComments rounds).run lexer := by
  rw [skipComments, bind_of_ok (remaining_run _), hrest]
  rfl

/-- More rounds than characters make no difference. -/
theorem skipComments_rounds (rounds : Nat) : ∀ {rounds' : Nat} {lexer : Lexer},
    lexer.cursor.rest.length ≤ rounds → lexer.cursor.rest.length ≤ rounds' →
    (skipComments rounds).run lexer = (skipComments rounds').run lexer := by
  induction rounds with
  | zero =>
    intro rounds' lexer h h'
    have hnil := List.length_eq_zero_iff.mp (Nat.le_zero.mp h)
    have hne (cs : List Char) : lexer.cursor.rest ≠ '{' :: '#' :: cs := by
      rw [hnil]
      nofun
    rw [skipComments_of_ne hne, skipComments_of_ne hne]
  | succ rounds ih =>
    intro rounds' lexer h h'
    -- a comment takes four characters at least, so fewer rounds suffice behind it
    by_cases hcomment : ∃ cs, lexer.cursor.rest = '{' :: '#' :: cs
    · obtain ⟨cs, hrest⟩ := hcomment
      rw [hrest] at h h'
      obtain ⟨rounds', rfl⟩ := Nat.exists_eq_succ_of_ne_zero (Nat.ne_zero_of_lt h')
      rw [skipComments_succ hrest, skipComments_succ hrest]
      refine bind_congr_run rfl fun _ mid hmid => ?_
      rw [skipComment_run hrest] at hmid
      split at hmid
      · rename_i inside rest hend
        cases hmid
        have hcs := congrArg List.length (Lexeme.eq_of_commentEnd? hend)
        simp only [List.length_append, List.length_cons] at hcs h h'
        refine ih ?_ ?_ <;> dsimp only [beyond, Cursor.past] <;> omega
      · cases hmid
    · have hne (cs : List Char) : lexer.cursor.rest ≠ '{' :: '#' :: cs := fun hrest =>
        hcomment ⟨cs, hrest⟩
      rw [skipComments_of_ne hne, skipComments_of_ne hne]

theorem next_outside (h : lexer.openTag = none) : next.run lexer = nextOutside.run lexer := by
  rw [next, bind_of_ok (get_run _), h]

/-- What comes next is what comes behind the comments. -/
theorem next_congr (h : lexer.openTag = none) (h' : lexer'.openTag = none)
    (hcomments : (skipComments lexer.cursor.rest.length).run lexer =
      (skipComments lexer'.cursor.rest.length).run lexer') : next.run lexer = next.run lexer' := by
  rw [next_outside h, next_outside h', nextOutside, bind_of_ok (remaining_run _),
    bind_of_ok (remaining_run _)]
  exact bind_congr_run hcomments fun _ _ _ => rfl

/-- The lexer makes nothing of a comment. -/
theorem next_of_comment {inside : List Char} (htag : lexer.openTag = none)
    (hrest : lexer.cursor.rest = '{' :: '#' :: cs)
    (hend : Lexeme.commentEnd? cs = some (inside, rest)) :
    next.run lexer = next.run (lexer.beyond ('{' :: '#' :: inside ++ ['#', '}']) rest) := by
  have hlength := congrArg List.length (Lexeme.eq_of_commentEnd? hend)
  simp only [List.length_append, List.length_cons] at hlength
  have hcomment := skipComment_run hrest
  rw [hend] at hcomment
  refine next_congr htag htag ?_
  rw [hrest, List.length_cons, skipComments_succ hrest, bind_of_ok hcomment]
  refine skipComments_rounds _ ?_ (Nat.le_refl _)
  simp only [beyond, Cursor.past, List.length_cons]
  omega

/-- Where no comment is at the front, a token is made at once. -/
theorem next_of_ne (htag : lexer.openTag = none) (h : ∀ cs, lexer.cursor.rest ≠ '{' :: '#' :: cs) :
    next.run lexer = (match lexer.cursor.rest with
      | [] => return ⟨.endOfInput, "EOF", lexer.cursor.place.line, lexer.cursor.place.column⟩
      | '{' :: '%' :: _ => enter .statement lexer.cursor.place
      | '{' :: '{' :: _ => enter .expression lexer.cursor.place
      | _ => readText : Lexing Token).run lexer := by
  rw [next_outside htag, nextOutside, bind_of_ok (remaining_run _),
    bind_of_ok (skipComments_of_ne h _), bind_of_ok (place_run _)]
  exact bind_of_ok (remaining_run _)

/-- The lexer behind what opens a tag. -/
def within (lexer : Lexer) (tag : Tag) (rest : List Char) : Lexer :=
  { lexer.beyond tag.opener rest with
    openTag := some tag, braceDepth := 0, lastKind := some tag.openKind }

theorem next_of_opener (tag : Tag) (htag : lexer.openTag = none)
    (hrest : lexer.cursor.rest = tag.opener ++ rest) :
    next.run lexer = .ok ⟨tag.openKind, String.ofList tag.opener, lexer.cursor.place.line,
      lexer.cursor.place.column⟩ (lexer.within tag rest) := by
  have hno (cs : List Char) : lexer.cursor.rest ≠ '{' :: '#' :: cs := by
    rw [hrest]
    cases tag <;> simp [Tag.opener]
  rw [next_of_ne htag hno, hrest]
  refine Eq.trans ?_ (enter_run tag hrest lexer.cursor.place)
  cases tag <;> rfl

/-- The lexer goes on behind the segment that is scanned outside tags. -/
theorem takes_of_scanOutside (htag : lexer.openTag = none)
    (h : scanOutside lexer.cursor.rest = .segment s m rest) :
    Takes lexer s m rest := by
  rw [scanOutside.eq_def] at h
  split at h
  · cases h
  · rename_i cs hrest
    split at h
    · rename_i inside rest hend
      cases h
      exact ⟨lexer.beyond _ rest, mode_outside.mpr htag, rfl, next_of_comment htag hrest hend⟩
    · cases h
  · rename_i rest hrest
    cases h
    exact ⟨lexer.within .statement rest, rfl, rfl, next_of_opener .statement htag hrest⟩
  · rename_i rest hrest
    cases h
    exact ⟨lexer.within .expression rest, rfl, rfl, next_of_opener .expression htag hrest⟩
  · rename_i hne hcomment hstatement hexpression
    cases h
    refine ⟨{ lexer.beyond (Lexeme.text lexer.cursor.rest).1 (Lexeme.text lexer.cursor.rest).2 with
      lastKind := some .text }, mode_outside.mpr htag, rfl, ?_⟩
    -- neither a comment nor an opener is at hand
    rw [next_of_ne htag hcomment]
    split
    · rename_i hrest
      exact absurd hrest hne
    · rename_i rest hrest
      exact absurd hrest (hstatement rest)
    · rename_i rest hrest
      exact absurd hrest (hexpression rest)
    · exact readText_run lexer

/-! ### The lexer inside a tag -/

/-- A lexer with no spacing in front of it is in front of its next token. -/
theorem atToken_of_head (h : lexer.cursor.rest.head?.any Text.isSpacing = false) :
    lexer.atToken = lexer := by
  obtain ⟨⟨place, cs⟩, openTag, depth, lastKind⟩ := lexer
  cases cs with
  | nil => rfl
  | cons c cs =>
    have hc : ¬ Text.isSpacing c = true := Bool.eq_false_iff.mp h
    dsimp only [atToken]
    rw [List.takeWhile_cons_of_neg hc, List.dropWhile_cons_of_neg hc]
    rfl

theorem atToken_atToken (lexer : Lexer) : lexer.atToken.atToken = lexer.atToken := by
  have hhead := List.head?_dropWhile_not Text.isSpacing lexer.cursor.rest
  refine atToken_of_head (show ((lexer.cursor.rest.dropWhile Text.isSpacing).head?.any _) = _ from ?_)
  cases h : (lexer.cursor.rest.dropWhile Text.isSpacing).head? with
  | none => rfl
  | some c =>
    rw [h] at hhead
    exact hhead

/-- The lexer behind a token that was found. -/
def behind (lexer : Lexer) (f : Found) : Lexer :=
  { lexer.beyond f.spelling f.rest with
    braceDepth := depthAfter lexer.braceDepth f.kind, lastKind := some f.kind }

/-- The token that was found, at a place. -/
def Found.tokenAt (f : Found) (place : Place) : Token :=
  ⟨f.kind, String.ofList f.value, place.line, place.column⟩

/-- Only braces change the depth. -/
theorem depthAfter_wordKind (depth : Nat) (word : List Char) :
    depthAfter depth (Vocabulary.wordKind word) = depth := by
  have reserved : ∀ entry ∈ Vocabulary.keywords, entry.2 ≠ .leftBrace ∧ entry.2 ≠ .rightBrace := by
    decide
  obtain ⟨hleft, hright⟩ :=
    wordKind_of_forall (P := fun kind => kind ≠ .leftBrace ∧ kind ≠ .rightBrace) (by decide) reserved word
  unfold depthAfter
  split
  · contradiction
  · contradiction
  · rfl

theorem readWord_run (lexer : Lexer) :
    (readWord lexer.cursor.place.line lexer.cursor.place.column).run lexer =
      .ok ((word lexer.cursor.rest).tokenAt lexer.cursor.place)
        (lexer.behind (word lexer.cursor.rest)) := by
  rw [readWord, bind_of_ok (remaining_run _)]
  dsimp only
  rw [bind_of_ok (pass_run List.takeWhile_append_dropWhile.symm), word]
  cases hmember : (if lexer.cursor.rest.takeWhile Text.isWord = ['n', 'o', 't'] then
    Lexeme.memberWord? (lexer.cursor.rest.dropWhile Text.isWord) else none) with
  | none =>
    rw [behind, depthAfter_wordKind]
    rfl
  | some found =>
    have hbehind : lexer.cursor.rest.dropWhile Text.isWord =
        (found.1 ++ ['i', 'n']) ++ found.2 := by
      split at hmember
      · exact (eq_of_memberWord? hmember).1
      · cases hmember
    dsimp only
    rw [take_run hbehind, behind, beyond, beyond, Cursor.past_past]
    rfl

theorem readUnsigned_run (lexer : Lexer) :
    (readNumber lexer.cursor.place.line lexer.cursor.place.column []).run lexer =
      .ok ((number [] lexer.cursor.rest).tokenAt lexer.cursor.place)
        (lexer.behind (number [] lexer.cursor.rest)) := readNumber_run _ _ _ _

theorem readSigned_run (hrest : lexer.cursor.rest = '-' :: cs) :
    (readSigned lexer.cursor.place).run lexer =
      .ok ((number ['-'] cs).tokenAt lexer.cursor.place) (lexer.behind (number ['-'] cs)) := by
  rw [readSigned, bind_of_ok (advance_run hrest), readNumber_run]
  rfl

theorem readOperator_run (c : Char) (lexer : Lexer) :
    (readOperator c lexer.cursor.place).run lexer =
      match Lexeme.operator? lexer.cursor.rest with
      | some (kind, spelling, rest) =>
        .ok (Found.tokenAt ⟨spelling, kind, spelling, rest⟩ lexer.cursor.place)
          (lexer.behind ⟨spelling, kind, spelling, rest⟩)
      | none => .error (.unexpectedCharacter c lexer.cursor.place.line lexer.cursor.place.column)
          lexer := by
  rw [readOperator, EStateM.run_bind, matchOperator_run]
  cases Lexeme.operator? lexer.cursor.rest <;> rfl

/-- Inside a tag a token is made of what is found at the front. -/
theorem next_of_found (htag : lexer.openTag = some tag) (hrest : lexer.cursor.rest = c :: cs)
    (hspacing : Text.isSpacing c = false)
    (hclosing : closing? tag lexer.braceDepth (c :: cs) = none)
    (h : found? lexer.lastKind c cs = some f) :
    next.run lexer = .ok (f.tokenAt lexer.cursor.place) (lexer.behind f) := by
  have hat : lexer.atToken = lexer := atToken_of_head (by rw [hrest]; exact hspacing)
  rw [next_run htag (hat.symm ▸ hrest) hclosing, hat]
  unfold found? at h
  dsimp only
  split_ifs at h ⊢ with hword hdigit hnegative hquote
  · cases h
    rw [← hrest]
    exact readWord_run lexer
  · cases h
    rw [← hrest]
    exact readUnsigned_run lexer
  · cases h
    obtain ⟨d, ds, -, heq⟩ := eq_of_startsNegative hnegative
    obtain rfl := (List.cons.inj heq).1
    exact readSigned_run hrest
  · obtain ⟨q, hq, rfl⟩ := Option.map_eq_some_iff.mp h
    rw [readString_run hrest, hq]
    rfl
  · obtain ⟨⟨kind, spelling, rest⟩, ho, rfl⟩ := Option.map_eq_some_iff.mp h
    rw [readOperator_run, hrest, ho]

/-- The lexer where it noticed a flaw: behind what does not end, or in front of what cannot stand
there. -/
def halted (lexer : Lexer) : Flaw → Lexer
  | .comment | .string => lexer.beyond lexer.cursor.rest []
  | .tag _ | .character _ => lexer

/-- Where nothing is found at the front, a string does not end there or no token begins. -/
theorem next_of_not_found (htag : lexer.openTag = some tag) (hrest : lexer.cursor.rest = c :: cs)
    (hspacing : Text.isSpacing c = false)
    (hclosing : closing? tag lexer.braceDepth (c :: cs) = none)
    (h : found? lexer.lastKind c cs = none) :
    next.run lexer =
      (let flaw := if c = '\x22' ∨ c = '\x27' then Flaw.string else .character c
       .error (flaw.errorAt lexer.cursor.place) (lexer.halted flaw)) := by
  have hat : lexer.atToken = lexer := atToken_of_head (by rw [hrest]; exact hspacing)
  rw [next_run htag (hat.symm ▸ hrest) hclosing, hat]
  unfold found? at h
  dsimp only
  split_ifs at h ⊢ with hword hdigit hnegative hquote
  · rw [readString_run hrest, Option.map_eq_none_iff.mp h, halted, hrest]
    rfl
  · rw [readOperator_run, hrest, Option.map_eq_none_iff.mp h]
    rfl

/-- The lexer makes nothing of spacing. -/
theorem next_atToken (htag : lexer.openTag = some tag) :
    next.run lexer = next.run lexer.atToken := by
  have htag' : lexer.atToken.openTag = some tag := htag
  rw [next, bind_of_ok (get_run _), bind_of_ok (get_run _), htag, htag']
  dsimp only
  rw [nextInside, bind_of_ok (skipSpacing_run _), bind_of_ok (skipSpacing_run _), atToken_atToken]

/-- The lexer behind the mark that closes the tag. -/
def without (lexer : Lexer) (tag : Tag) (rest : List Char) : Lexer :=
  { lexer.beyond tag.closer rest with openTag := none, lastKind := some tag.closeKind }

theorem next_of_closing? (htag : lexer.openTag = some tag) (hrest : lexer.cursor.rest = c :: cs)
    (hspacing : Text.isSpacing c = false)
    (hclosing : closing? tag lexer.braceDepth (c :: cs) = some rest) :
    next.run lexer = .ok ⟨tag.closeKind, String.ofList tag.closer, lexer.cursor.place.line,
      lexer.cursor.place.column⟩ (lexer.without tag rest) := by
  have hat : lexer.atToken = lexer := atToken_of_head (by rw [hrest]; exact hspacing)
  rw [next, bind_of_ok (get_run _), htag]
  dsimp only
  rw [nextInside, bind_of_ok (skipSpacing_run _), hat, bind_of_ok (get_run _), hrest]
  dsimp only
  rw [hclosing]
  exact leave_run (hrest.trans (eq_of_closing? hclosing)) _

/-- The lexer goes on behind the segment that is scanned inside a tag. -/
theorem takes_of_scanInside (htag : lexer.openTag = some tag)
    (h : scanInside tag lexer.braceDepth lexer.lastKind lexer.cursor.rest = .segment s m rest) :
    Takes lexer s m rest := by
  rw [scanInside.eq_def] at h
  split at h
  · cases h
  rename_i c cs hrest
  split at h
  · cases h
    rw [← hrest]
    exact ⟨lexer.atToken, mode_inside.mpr ⟨htag, rfl, rfl⟩, rfl, next_atToken htag⟩
  rename_i hspacing
  have hspacing := Bool.eq_false_iff.mpr hspacing
  split at h
  · rename_i hclosing
    cases h
    exact ⟨_, rfl, rfl, next_of_closing? htag hrest hspacing hclosing⟩
  rename_i hclosing
  split at h
  · rename_i f hfound
    cases h
    exact ⟨lexer.behind f, mode_inside.mpr ⟨htag, rfl, rfl⟩, rfl,
      next_of_found htag hrest hspacing hclosing hfound⟩
  · cases h

/-! ### Any mode -/

/-- The lexer goes on behind the segment that is scanned. -/
theorem takes_of_scan (h : scan lexer.mode lexer.cursor.rest = .segment s m rest) :
    Takes lexer s m rest := by
  cases hmode : lexer.mode with
  | outside =>
    rw [hmode] at h
    exact takes_of_scanOutside (mode_outside.mp hmode) h
  | inside tag depth lastKind =>
    rw [hmode] at h
    obtain ⟨htag, rfl, rfl⟩ := mode_inside.mp hmode
    exact takes_of_scanInside htag h

theorem next_of_ended (h : scan lexer.mode lexer.cursor.rest = .ended) : next.run lexer =
    .ok ⟨.endOfInput, "EOF", lexer.cursor.place.line, lexer.cursor.place.column⟩ lexer := by
  obtain ⟨hmode, hrest⟩ := scan_eq_ended.mp h
  rw [next_of_ne (mode_outside.mp hmode) (by rw [hrest]; nofun), hrest]
  rfl

theorem next_of_flaw_outside {f : Flaw} (htag : lexer.openTag = none)
    (h : scanOutside lexer.cursor.rest = .flaw f) :
    next.run lexer = .error (f.errorAt lexer.cursor.place) (lexer.halted f) := by
  rw [scanOutside.eq_def] at h
  split at h
  · cases h
  · rename_i cs hrest
    split at h
    · cases h
    · rename_i hend
      cases h
      have hcomment := skipComment_run hrest
      rw [hend] at hcomment
      rw [next_outside htag, nextOutside, bind_of_ok (remaining_run _), halted, hrest,
        List.length_cons]
      refine bind_of_error ?_
      rw [skipComments_succ hrest]
      exact bind_of_error hcomment
  all_goals cases h

theorem next_of_flaw_inside {f : Flaw} (htag : lexer.openTag = some tag)
    (h : scanInside tag lexer.braceDepth lexer.lastKind lexer.cursor.rest = .flaw f) :
    next.run lexer = .error (f.errorAt lexer.cursor.place) (lexer.halted f) := by
  rw [scanInside.eq_def] at h
  split at h
  · rename_i hrest
    cases h
    have hat : lexer.atToken = lexer := atToken_of_head (by rw [hrest]; rfl)
    rw [next, bind_of_ok (get_run _), htag]
    dsimp only
    rw [nextInside, bind_of_ok (skipSpacing_run _), hat, bind_of_ok (get_run _), hrest]
    rfl
  rename_i c cs hrest
  split at h
  · cases h
  rename_i hspacing
  have hspacing := Bool.eq_false_iff.mpr hspacing
  split at h
  · cases h
  rename_i hclosing
  split at h
  · cases h
  · rename_i hfound
    cases h
    exact next_of_not_found htag hrest hspacing hclosing hfound

/-- The lexer fails over a flaw at the front. -/
theorem next_of_flaw {f : Flaw} (h : scan lexer.mode lexer.cursor.rest = .flaw f) :
    next.run lexer = .error (f.errorAt lexer.cursor.place) (lexer.halted f) := by
  cases hmode : lexer.mode with
  | outside =>
    rw [hmode] at h
    exact next_of_flaw_outside (mode_outside.mp hmode) h
  | inside tag depth lastKind =>
    rw [hmode] at h
    obtain ⟨htag, rfl, rfl⟩ := mode_inside.mp hmode
    exact next_of_flaw_inside htag h

/-! ### Whole texts -/

theorem drain_of_next (h : next.run lexer = next.run lexer') (rounds : Nat) :
    (drain (rounds + 1)).run lexer = (drain (rounds + 1)).run lexer' :=
  bind_congr_run h fun _ _ _ => rfl

/-- The lexer takes the tokens of what is scanned, and then those of what is left. -/
theorem drain_of_scans (h : Scans m cs segments m' rest) : ∀ {lexer : Lexer} {rounds : Nat},
    lexer.mode = m → lexer.cursor.rest = cs → cs.length ≤ rounds →
    ∃ lexer' rounds', lexer'.mode = m' ∧
      lexer'.cursor = lexer.cursor.past (spellingOf segments) rest ∧
      (drain (rounds + 1)).run lexer = (drain (rounds' + 1) >>= fun more =>
        pure (tokensOf lexer.cursor.place segments ++ more)).run lexer' := by
  induction h with
  | nil m cs =>
    rintro lexer rounds rfl rfl -
    refine ⟨lexer, rounds, rfl, rfl, ?_⟩
    simp only [tokensOf, List.nil_append, bind_pure]
  | @cons m m' m'' s segments cs rest rest' hs _ ih =>
    rintro lexer rounds rfl rfl hrounds
    have hlt := length_lt_of_scan hs
    have hadmits := (admits_of_scan hs).2
    obtain ⟨mid, hmode, hcursor, hnext⟩ := takes_of_scan hs
    have hrest : mid.cursor.rest = rest := by rw [hcursor]; rfl
    have hplace : mid.cursor.place = lexer.cursor.place.after s.spelling := by rw [hcursor]; rfl
    have hbehind : mid.cursor.past (spellingOf segments) rest' =
        lexer.cursor.past (spellingOf (s :: segments)) rest' := by
      rw [hcursor, Cursor.past_past, spellingOf_cons]
    cases htoken : s.tokenAt lexer.cursor.place with
    | none =>
      obtain ⟨lexer', rounds', hmode', hcursor', hdrain⟩ :=
        ih hmode hrest (show rest.length ≤ rounds by omega)
      rw [htoken] at hnext
      refine ⟨lexer', rounds', hmode', hcursor'.trans hbehind, ?_⟩
      rw [drain_of_next hnext, hdrain, tokensOf, htoken, hplace]
      rfl
    | some token =>
      -- a token takes one of the rounds
      obtain ⟨rounds, rfl⟩ := Nat.exists_eq_succ_of_ne_zero (show rounds ≠ 0 by omega)
      obtain ⟨lexer', rounds', hmode', hcursor', hdrain⟩ :=
        ih hmode hrest (show rest.length ≤ rounds by omega)
      rw [htoken] at hnext
      have hkind : token.kind ≠ .endOfInput := hadmits.kind_ne htoken
      refine ⟨lexer', rounds', hmode', hcursor'.trans hbehind, ?_⟩
      rw [drain, bind_of_ok hnext, if_neg hkind, tokensOf, htoken, ← hplace, EStateM.run_bind, hdrain,
        EStateM.run_bind, EStateM.run_bind]
      cases (drain (rounds' + 1)).run lexer' <;> rfl

variable {source : String} {ts : List Token}

/-- **A text that is scanned to its end has the tokens of its segments.** -/
theorem tokenize_of_scans (h : Scans .outside source.toList segments .outside []) :
    tokenize source = .ok (tokensOf .start segments) := by
  obtain ⟨lexer', rounds, hmode, hcursor, hdrain⟩ :=
    drain_of_scans h (show (ofText source).mode = .outside from rfl) rfl (Nat.le_refl _)
  have hend : scan lexer'.mode lexer'.cursor.rest = .ended := by rw [hmode, hcursor]; rfl
  have hlast : (drain (rounds + 1)).run lexer' = .ok [] lexer' := by
    rw [drain, bind_of_ok (next_of_ended hend)]
    rfl
  refine tokenize_eq_ok.mpr ⟨lexer', hdrain.trans ?_⟩
  rw [bind_of_ok hlast, List.append_nil]
  rfl

/-- **A text that is scanned to a flaw is refused, with the error of the flaw at its place.** -/
theorem tokenize_of_flaw {f : Flaw} (h : Scans .outside source.toList segments m rest)
    (hflaw : scan m rest = .flaw f) :
    tokenize source = .error (f.errorAt (Place.start.after (spellingOf segments))) := by
  obtain ⟨lexer', rounds, hmode, hcursor, hdrain⟩ :=
    drain_of_scans h (show (ofText source).mode = .outside from rfl) rfl (Nat.le_refl _)
  have hflaw' : scan lexer'.mode lexer'.cursor.rest = .flaw f := by rw [hmode, hcursor]; exact hflaw
  have hlast : (drain (rounds + 1)).run lexer' =
      .error (f.errorAt lexer'.cursor.place) (lexer'.halted f) := bind_of_error (next_of_flaw hflaw')
  rw [tokenize_of_error (hdrain.trans (bind_of_error hlast)), hcursor]
  rfl

/-- **The tokens of a text are those of the segments that are scanned.** -/
theorem tokenize_eq_ok_iff_scans : tokenize source = .ok ts ↔
    ∃ segments, Scans .outside source.toList segments .outside [] ∧ tokensOf .start segments = ts := by
  constructor
  · intro h
    obtain ⟨segments, m, rest, hscans, hend | ⟨f, hflaw⟩⟩ := exists_scans .outside source.toList
    · obtain ⟨rfl, rfl⟩ := scan_eq_ended.mp hend
      rw [tokenize_of_scans hscans] at h
      exact ⟨segments, hscans, Except.ok.inj h⟩
    · rw [tokenize_of_flaw hscans hflaw] at h
      cases h
  · rintro ⟨segments, hscans, rfl⟩
    exact tokenize_of_scans hscans

end Stencil.Lexer
