import Stencil.Proofs.Lexer.Agreement

/-!
# Lexer — texts in a row

Where the first of two texts ends outside tags and the second does not go on with its last segment
(`EndsBefore`), the lexer makes of the two in a row what it makes of each: the tokens of both, or the
error of the second, moved behind the first (`tokenize_append`).

A segment does not depend on what follows the text in which it was scanned, as long as something is
left behind it.  Outside tags this is enough (`scan_append_outside`).  Inside a tag the mark that
closes it is still to come (`Scans.mem_of_inside`), and no word, number or operator goes past a brace
(`scan_append_inside`).
-/

namespace Stencil

variable {first more cs rest : List Char} {p : Place}

/-! ### Places behind another text -/

/-- The line of a text with a given number, where another text stands before it. -/
def lineBehind (first : List Char) (line : Int) : Int := line + first.count '\n'

/-- The column that a column of a line has, where another text stands before it: only the first line
goes on with a line of that text. -/
def columnBehind (first : List Char) (line column : Int) : Int :=
  if line = 1 then column + ((Place.start.after first).column - 1) else column

/-- A place of a text, where another text stands before it. -/
def Place.behind (first : List Char) (p : Place) : Place :=
  ⟨first.length + p.position, lineBehind first p.line, columnBehind first p.line p.column⟩

/-- A token of a text, where another text stands before it. -/
def Token.behind (first : List Char) (t : Token) : Token :=
  { t with line := lineBehind first t.line, column := columnBehind first t.line t.column }

/-- An error over a text, where another text stands before it. -/
def Lexer.Error.behind (first : List Char) : Error → Error
  | unterminatedComment line column =>
    unterminatedComment (lineBehind first line) (columnBehind first line column)
  | unterminatedString line column =>
    unterminatedString (lineBehind first line) (columnBehind first line column)
  | unterminatedTag tag line column =>
    unterminatedTag tag (lineBehind first line) (columnBehind first line column)
  | unexpectedCharacter c line column =>
    unexpectedCharacter c (lineBehind first line) (columnBehind first line column)
  | pastEnd place => pastEnd (place.behind first)

/-! ### The places of tokens and errors -/

/-- The start of a text is where the text before it ends. -/
theorem Place.behind_start (first : List Char) :
    Place.start.behind first = Place.start.after first := by
  have hposition : first.length = (start.after first).position := by simp [start]
  have hline : 1 + (first.count '\n' : Int) = (start.after first).line := (line_after start first).symm
  have hcolumn : 1 + ((start.after first).column - 1) = (start.after first).column := by omega
  calc start.behind first
    _ = ⟨first.length, 1 + first.count '\n', 1 + ((start.after first).column - 1)⟩ := rfl
    _ = start.after first := by rw [hposition, hline, hcolumn]

/-- A character moves a place alike in its own text and behind another one. -/
theorem Place.behind_next (hp : 1 ≤ p.line) (c : Char) :
    (p.behind first).next c = (p.next c).behind first := by
  by_cases hc : c = '\n'
  · have hlater : p.line + 1 ≠ 1 := by omega
    simp only [next, behind, lineBehind, columnBehind, if_pos hc, if_neg hlater, mk.injEq]
    exact ⟨by omega, by omega, trivial⟩
  · simp only [next, behind, lineBehind, columnBehind, if_neg hc, mk.injEq]
    refine ⟨by omega, trivial, ?_⟩
    split <;> omega

/-- Characters move a place alike in their own text and behind another one. -/
theorem Place.behind_after (cs : List Char) : ∀ {p : Place}, 1 ≤ p.line →
    (p.behind first).after cs = (p.after cs).behind first := by
  induction cs with
  | nil => exact fun _ => rfl
  | cons c cs ih =>
    intro p hp
    have hnext : 1 ≤ (p.next c).line := by
      rw [show p.next c = p.after [c] from rfl, line_after]
      omega
    rw [after_cons, behind_next hp, ih hnext, after_cons]

namespace Lexer

theorem Segment.tokenAt_behind (s : Segment) (p : Place) :
    s.tokenAt (p.behind first) = (s.tokenAt p).map (Token.behind first) := by
  rw [tokenAt, tokenAt, Option.map_map]
  rfl

/-- Segments are placed alike in their own text and behind another one. -/
theorem tokensOf_behind (segments : List Segment) : ∀ {p : Place}, 1 ≤ p.line →
    tokensOf (p.behind first) segments = (tokensOf p segments).map (Token.behind first) := by
  induction segments with
  | nil => exact fun _ => rfl
  | cons s segments ih =>
    intro p hp
    have hafter : 1 ≤ (p.after s.spelling).line := by
      rw [Place.line_after]
      omega
    rw [tokensOf, tokensOf, List.map_append, s.tokenAt_behind, Place.behind_after _ hp, ih hafter]
    cases s.tokenAt p <;> rfl

/-- A flaw is reported at the same place of its text, seen from behind the other one. -/
theorem Flaw.errorAt_behind (f : Flaw) (p : Place) :
    f.errorAt (p.behind first) = (f.errorAt p).behind first := by
  cases f <;> rfl

variable {tag : Tag} {depth : Nat} {lastKind : Option Token.Kind} {m m' : Mode} {s : Segment}
  {segments : List Segment} {f : Found} {c : Char}

/-! ### What goes on behind a segment -/

/-- What stops before the end of a text stops there whatever follows. -/
theorem takeWhile_append_of_mem {p : Char → Bool} {x : Char} (hx : p x = false) (h : x ∈ cs)
    (more : List Char) : (cs ++ more).takeWhile p = cs.takeWhile p ∧
      (cs ++ more).dropWhile p = cs.dropWhile p ++ more := by
  induction cs with
  | nil => cases h
  | cons c cs ih =>
    cases hc : p c with
    | false => simp [hc]
    | true =>
      have hmem : x ∈ cs := by
        rcases List.mem_cons.mp h with rfl | hmem
        · cases hx.symm.trans hc
        · exact hmem
      simp [hc, ih hmem]

/-- A character that is not dropped is still to come. -/
theorem mem_dropWhile {p : Char → Bool} {x : Char} (hx : p x = false) (h : x ∈ cs) :
    x ∈ cs.dropWhile p := by
  rw [← List.takeWhile_append_dropWhile (p := p) (l := cs)] at h
  refine (List.mem_append.mp h).resolve_left fun hmem => ?_
  cases hx.symm.trans (List.mem_takeWhile_imp hmem)

/-- A comment that ends, ends there whatever follows. -/
theorem commentEnd?_append {inside : List Char} (h : Lexeme.commentEnd? cs = some (inside, rest))
    (more : List Char) : Lexeme.commentEnd? (cs ++ more) = some (inside, rest ++ more) := by
  fun_induction Lexeme.commentEnd? cs generalizing inside with
  | case1 => cases h
  | case2 => cases h; rfl
  | case3 c cs hmark ih =>
    obtain ⟨⟨i, r⟩, hi, he⟩ := Option.map_eq_some_iff.mp h
    cases he
    rw [List.cons_append, Lexeme.commentEnd?, ih hi]
    · rfl
    · cases cs with
      | nil => cases hi
      | cons d ds =>
        rintro _ rfl heq
        exact hmark ds rfl (by rw [(List.cons.inj heq).1])

/-- A string literal that ends, ends there whatever follows. -/
theorem quotation?_append {quote : Char} {q : Lexeme.Quotation}
    (h : Lexeme.quotation? quote cs = some q) (more : List Char) :
    Lexeme.quotation? quote (cs ++ more) = some { q with rest := q.rest ++ more } := by
  fun_induction Lexeme.quotation? quote cs generalizing q with
  | case1 | case2 => cases h
  | case3 c cs ih =>
    obtain ⟨p, hp, rfl⟩ := Option.map_eq_some_iff.mp h
    rw [List.cons_append, List.cons_append, Lexeme.quotation?, ih hp]
    rfl
  | case4 cs hlast hescape =>
    cases h
    rw [List.cons_append, quotation?_cons (ne_backslash_of_case hlast hescape), if_pos rfl]
  | case5 c cs hlast hescape hne ih =>
    obtain ⟨p, hp, rfl⟩ := Option.map_eq_some_iff.mp h
    rw [List.cons_append, quotation?_cons (ne_backslash_of_case hlast hescape), if_neg hne, ih hp]
    rfl

/-- A brace ends what is read inside a tag, apart from strings. -/
theorem brace_ends : Text.isSpacing '\x7d' = false ∧ Text.isWord '\x7d' = false ∧
    Text.isDigit '\x7d' = false := by
  decide +kernel

/-- A brace is still to come behind two characters at the front, the first of which is none. -/
theorem eq_cons_cons_of_append {a b : Char} {ds es : List Char} (h : ds ++ more = a :: b :: es)
    (ha : '\x7d' ≠ a) (hmem : '\x7d' ∈ ds) :
    ∃ fs, ds = a :: b :: fs ∧ es = fs ++ more ∧ '\x7d' ∈ b :: fs := by
  match ds, hmem with
  | [d], hmem => exact absurd (List.mem_singleton.mp hmem) (fun hd => ha (hd.trans (List.cons.inj h).1))
  | d :: e :: fs, hmem =>
    cases h
    exact ⟨fs, rfl, rfl, (List.mem_cons.mp hmem).resolve_left ha⟩

/-- Where a brace is to come, an `in` behind `not` is found or missed by it whatever follows. -/
theorem memberWord?_append (h : '\x7d' ∈ cs) (more : List Char) :
    Lexeme.memberWord? (cs ++ more) =
      (Lexeme.memberWord? cs).map fun (spacing, rest) => (spacing, rest ++ more) := by
  obtain ⟨htake, hdrop⟩ := takeWhile_append_of_mem brace_ends.1 h more
  have hmem := mem_dropWhile brace_ends.1 h
  unfold Lexeme.memberWord?
  rw [htake, hdrop]
  split
  · rename_i es hes
    obtain ⟨fs, hds, rfl, hmem'⟩ := eq_cons_cons_of_append hes (by decide) hmem
    rw [hds]
    cases fs with
    | nil => simp at hmem'
    | cons d fs => by_cases hd : Text.isWord d = true <;> simp [hd]
  · rename_i hno
    split
    · rename_i es hes
      rw [hes] at hno
      exact absurd rfl (hno (es ++ more))
    · rfl

/-- Where a brace is to come, a number ends before it whatever follows. -/
theorem number_append_of_mem (h : '\x7d' ∈ cs) (more : List Char) :
    Lexeme.number (cs ++ more) = ((Lexeme.number cs).1, (Lexeme.number cs).2 ++ more) := by
  obtain ⟨htake, hdrop⟩ := takeWhile_append_of_mem brace_ends.2.2 h more
  have hmem := mem_dropWhile brace_ends.2.2 h
  unfold Lexeme.number
  rw [htake, hdrop]
  split
  · rename_i d es hes
    obtain ⟨fs, hds, rfl, hmem'⟩ := eq_cons_cons_of_append hes (by decide) hmem
    obtain ⟨htake', hdrop'⟩ := takeWhile_append_of_mem brace_ends.2.2 hmem' more
    rw [hds, ← List.cons_append, htake', hdrop']
    by_cases hd : Text.isDigit d = true <;> simp only [hd]
    · rfl
    · rfl
  · rename_i hno
    split
    · rename_i es hes
      rw [hes] at hno
      exact absurd rfl (hno _ (es ++ more))
    · rfl

/-- What was found, with more text behind it. -/
def Found.onto (f : Found) (more : List Char) : Found := { f with rest := f.rest ++ more }

/-- Where a brace is to come, a word ends before it whatever follows. -/
theorem word_append (h : '\x7d' ∈ cs) (more : List Char) : word (cs ++ more) = (word cs).onto more := by
  obtain ⟨htake, hdrop⟩ := takeWhile_append_of_mem brace_ends.2.1 h more
  have hmember := memberWord?_append (mem_dropWhile brace_ends.2.1 h) more
  unfold word
  rw [htake, hdrop]
  dsimp only
  split_ifs
  · rw [hmember]
    cases Lexeme.memberWord? (cs.dropWhile Text.isWord) <;> rfl
  · rfl

/-- The sign of a number is told by two characters. -/
theorem startsNegative_append (hne : cs ≠ []) (more : List Char) :
    startsNegative lastKind (c :: cs ++ more) = startsNegative lastKind (c :: cs) := by
  cases cs with
  | nil => exact absurd rfl hne
  | cons d cs => by_cases hc : c = '-' <;> simp [startsNegative, hc]

/-- An operator is told by two characters. -/
theorem operator?_append (hne : cs ≠ []) (more : List Char) :
    Lexeme.operator? (c :: cs ++ more) =
      (Lexeme.operator? (c :: cs)).map fun (kind, spelling, rest) =>
        (kind, spelling, rest ++ more) := by
  cases cs with
  | nil => exact absurd rfl hne
  | cons d cs =>
    simp only [List.cons_append, Lexeme.operator?]
    cases Vocabulary.operators.lookup [c, d] with
    | none => cases Vocabulary.operators.lookup [c] <;> rfl
    | some kind => rfl

/-- Where a brace is to come, the next token inside a tag is found alike whatever follows. -/
theorem found?_append (h : found? lastKind c cs = some f) (hmem : '\x7d' ∈ cs) (more : List Char) :
    found? lastKind c (cs ++ more) = some (f.onto more) := by
  have hne := List.ne_nil_of_mem hmem
  have hmem' := List.mem_cons_of_mem c hmem
  unfold found? at h ⊢
  rw [← List.cons_append, startsNegative_append hne, word_append hmem', operator?_append hne]
  split_ifs at h ⊢ with hword hdigit hnegative hquote
  · cases h
    rfl
  · cases h
    rw [number, number_append_of_mem hmem']
    rfl
  · cases h
    rw [number, number_append_of_mem hmem]
    rfl
  · obtain ⟨q, hq, rfl⟩ := Option.map_eq_some_iff.mp h
    rw [quotation?_append hq]
    rfl
  · obtain ⟨⟨kind, spelling, rest⟩, ho, rfl⟩ := Option.map_eq_some_iff.mp h
    rw [ho]
    rfl

/-- The mark that closes a tag is told by two characters. -/
theorem closing?_append (hne : cs ≠ []) (more : List Char) :
    closing? tag depth (c :: cs ++ more) = (closing? tag depth (c :: cs)).map (· ++ more) := by
  cases cs with
  | nil => exact absurd rfl hne
  | cons d cs =>
    by_cases hd : d = '\x7d'
    · by_cases hstatement : c = '%'
      · by_cases htag : tag = .statement <;> simp [closing?, hstatement, hd, htag]
      · by_cases hexpression : c = '\x7d'
        · by_cases htag : tag = .expression ∧ depth = 0 <;> simp [closing?, hexpression, hd, htag]
        · simp [closing?, hstatement, hexpression]
    · simp [closing?, hd]

/-! ### Segments of texts that go on -/

/-- Another text may begin behind the segment: it is the mark that closes a tag, or a comment, or
plain text that does not end with a brace, where the other text begins with a tag or a comment, if
there is any. -/
inductive Closes (more : List Char) : Segment → Prop
  | closer (tag : Tag) : Closes more ⟨tag.closer, some (tag.closeKind, tag.closer)⟩
  | comment (inside : List Char) : Closes more ⟨'{' :: '#' :: inside ++ ['#', '}'], none⟩
  | text {run : List Char} : run.getLast? ≠ some '{' →
      (more = [] ∨ Lexeme.startsMarkup more = true) → Closes more ⟨run, some (.text, run)⟩

theorem Closes.of_text {run value : List Char} (h : Closes more ⟨run, some (.text, value)⟩) :
    run.getLast? ≠ some '{' ∧ (more = [] ∨ Lexeme.startsMarkup more = true) := by
  generalize hs : (⟨run, some (.text, value)⟩ : Segment) = s at h
  cases h with
  | closer tag => cases tag <;> cases hs
  | comment => cases hs
  | text hend hmore =>
    cases hs
    exact ⟨hend, hmore⟩

/-- Only a brace starts markup. -/
theorem startsMarkup_of_ne (hc : c ≠ '{') (cs : List Char) :
    Lexeme.startsMarkup (c :: cs) = false := by
  simp [Lexeme.startsMarkup, hc]

/-- Only the first two characters count. -/
theorem startsMarkup_congr (c d : Char) (cs ds : List Char) :
    Lexeme.startsMarkup (c :: d :: cs) = Lexeme.startsMarkup (c :: d :: ds) := by
  by_cases hc : c = '{'
  · subst hc
    unfold Lexeme.startsMarkup
    split <;> simp_all
  · rw [startsMarkup_of_ne hc, startsMarkup_of_ne hc]

/-- Markup that has started has started whatever follows. -/
theorem startsMarkup_append (h : Lexeme.startsMarkup cs = true) (more : List Char) :
    Lexeme.startsMarkup (cs ++ more) = true := by
  match cs with
  | [] => cases h
  | [c] =>
    unfold Lexeme.startsMarkup at h
    split at h <;> simp_all
  | c :: d :: cs => exact (startsMarkup_congr c d _ _).trans h

/-- Plain text goes as far as it did. -/
theorem isPlain_append {run : List Char} (h : IsPlain run rest)
    (hlast : rest = [] →
      run.getLast? ≠ some '{' ∧ (more = [] ∨ Lexeme.startsMarkup more = true)) :
    IsPlain run (rest ++ more) := by
  intro before behind hrun hne
  have hplain := h before behind hrun hne
  match behind, rest with
  | d :: e :: ds, rest => exact (startsMarkup_congr d e _ _).trans hplain
  | [d], c :: cs => exact (startsMarkup_congr d c _ _).trans hplain
  | [d], [] =>
    have hd : d ≠ '{' := by
      rintro rfl
      exact (hlast rfl).1 (by rw [hrun, List.getLast?_concat])
    exact startsMarkup_of_ne hd _

/-- Outside tags a segment is scanned alike in front of a text that does not go on with it. -/
theorem scan_append_outside (h : scan .outside cs = .segment s m' rest)
    (hlast : rest = [] → Closes more s) :
    scan .outside (cs ++ more) = .segment s m' (rest ++ more) := by
  rw [scan, scanOutside.eq_def] at h
  split at h
  · cases h
  · rename_i cs
    split at h
    · rename_i inside rest hend
      cases h
      show scanOutside ('{' :: '#' :: (cs ++ more)) = _
      rw [scanOutside, commentEnd?_append hend]
    · cases h
  · cases h
    rfl
  · cases h
    rfl
  · rename_i hne hcomment hstatement hexpression
    cases h
    have hmarkup := startsMarkup_eq_false hstatement hexpression hcomment
    obtain ⟨hplain, hrest⟩ := isPlain_text cs
    have hplain' := isPlain_append hplain fun hnil => (hlast hnil).of_text
    have hrest' : (Lexeme.text cs).2 ++ more = [] ∨
        Lexeme.startsMarkup ((Lexeme.text cs).2 ++ more) = true := by
      by_cases hnil : (Lexeme.text cs).2 = []
      · rw [hnil]
        exact (hlast hnil).of_text.2
      · exact .inr (startsMarkup_append (hrest.resolve_left hnil) more)
    have hscan := scan_text (text_ne_nil hne hmarkup) hplain' hrest'
    rwa [← List.append_assoc, Lexeme.text_append] at hscan

/-- Inside a tag a segment is scanned alike whatever follows, as long as the tag is closed in the
first text. -/
theorem scan_append_inside (h : scan (.inside tag depth lastKind) cs = .segment s m' rest)
    (hmem : m' = .outside ∨ '\x7d' ∈ rest) (more : List Char) :
    scan (.inside tag depth lastKind) (cs ++ more) = .segment s m' (rest ++ more) := by
  rw [scan, scanInside.eq_def] at h
  split at h
  · cases h
  rename_i c cs
  rw [scan, List.cons_append, scanInside]
  split at h
  · rename_i hc
    cases h
    have hmem := (List.dropWhile_suffix _).subset (hmem.resolve_left Mode.inside_ne_outside)
    obtain ⟨htake, hdrop⟩ := takeWhile_append_of_mem brace_ends.1 hmem more
    rw [if_pos hc, ← List.cons_append, htake, hdrop]
  rename_i hc
  rw [if_neg hc]
  split at h
  · rename_i rest hclosing
    cases h
    have hne : cs ≠ [] := by
      rintro rfl
      cases tag <;> cases eq_of_closing? hclosing
    rw [← List.cons_append, closing?_append hne, hclosing]
    rfl
  rename_i hclosing
  split at h
  · rename_i f hfound
    cases h
    -- a brace that is to come behind the token is to come behind its first character
    have hmem' : '\x7d' ∈ cs := by
      obtain ⟨hcs, hlexical⟩ := lexical_of_found? hfound
      obtain ⟨d, ds, hspelling⟩ := List.exists_cons_of_ne_nil hlexical.ne_nil
      rw [hspelling] at hcs
      rw [(List.cons.inj hcs).2]
      exact List.mem_append_right _ (hmem.resolve_left Mode.inside_ne_outside)
    rw [← List.cons_append, closing?_append (List.ne_nil_of_mem hmem'), hclosing,
      found?_append hfound hmem']
    rfl
  · cases h

/-- The mark that closes the tag is still to come. -/
theorem Scans.mem_of_inside (h : Scans m cs segments m' rest) :
    m ≠ .outside → m' = .outside → '\x7d' ∈ cs := by
  induction h with
  | nil => exact fun hm hm' => absurd hm' hm
  | @cons m mid m' s segments cs rest rest' hs htail ih =>
    intro hm hm'
    obtain ⟨rfl, hadmits⟩ := admits_of_scan hs
    match m, mid with
    | .outside, _ => exact absurd rfl hm
    | .inside .., .inside .. => exact List.mem_append_right _ (ih nofun hm')
    | .inside tag .., .outside =>
      cases hadmits with
      | closer => cases tag <;> exact .tail _ (.head _)

/-- What is scanned up to its end is scanned alike where another text follows. -/
theorem Scans.extend (h : Scans m cs segments m' rest) : m' = .outside → rest = [] →
    (∀ s ∈ segments.getLast?, Closes more s) → Scans m (cs ++ more) segments .outside more := by
  induction h with
  | nil =>
    rintro rfl rfl -
    exact .nil _ _
  | @cons m mid m' s segments cs rest rest' hs htail ih =>
    intro hm' hrest hlast
    have hlast' : ∀ s ∈ segments.getLast?, Closes more s := by
      cases segments with
      | nil => exact fun s hs => nomatch hs
      | cons t segments => rwa [List.getLast?_cons_cons] at hlast
    refine .cons ?_ (ih hm' hrest hlast')
    cases m with
    | outside =>
      refine scan_append_outside hs fun hnil => ?_
      subst hnil
      cases htail with
      | nil => exact hlast s rfl
      | cons hs' => exact absurd (length_lt_of_scan hs') (Nat.not_lt_zero _)
    | inside tag depth lastKind =>
      refine scan_append_inside hs ?_ more
      by_cases hmid : mid = .outside
      · exact .inl hmid
      · exact .inr (htail.mem_of_inside hmid hm')

/-! ### Whole texts -/

/-- The first text ends where another may begin: it is empty, or its last segment closes. -/
def EndsBefore (first more : List Char) : Prop :=
  ∃ segments, Scans .outside first segments .outside [] ∧ ∀ s ∈ segments.getLast?, Closes more s

/-- **The lexer makes of two texts in a row what it makes of each.**  Where the first text ends
outside tags and the second does not go on with its last segment, the tokens of both are those of the
first and those of the second, moved behind the first; and an error over the second is the error over
both, moved likewise. -/
theorem tokenize_append {first second : String} {ts : List Token} (h : tokenize first = .ok ts)
    (hends : EndsBefore first.toList second.toList) :
    tokenize (first ++ second) = match tokenize second with
      | .ok us => .ok (ts ++ us.map (Token.behind first.toList))
      | .error e => .error (e.behind first.toList) := by
  obtain ⟨segments, hscans, hlast⟩ := hends
  obtain ⟨segments', m, rest, hscans', hend⟩ := exists_scans .outside second.toList
  have hboth : Scans .outside (first ++ second).toList (segments ++ segments') m rest := by
    rw [String.toList_append]
    exact (hscans.extend rfl rfl hlast).append hscans'
  have hplace : Place.start.after (spellingOf segments) = Place.start.behind first.toList := by
    rw [Place.behind_start, hscans.spelling_append, List.append_nil]
  have hstart : 1 ≤ Place.start.line := Int.le_refl 1
  rw [tokenize_of_scans hscans] at h
  cases h
  rcases hend with hend | ⟨f, hflaw⟩
  · obtain ⟨rfl, rfl⟩ := scan_eq_ended.mp hend
    rw [tokenize_of_scans hboth, tokenize_of_scans hscans', tokensOf_append, hplace,
      tokensOf_behind _ hstart]
  · rw [tokenize_of_flaw hboth hflaw, tokenize_of_flaw hscans' hflaw, spellingOf_append,
      Place.after_append, hplace, Place.behind_after _ hstart, f.errorAt_behind]

/-- A line of text and the start of another one, in front of a tag over two lines. -/
theorem tokenize_append_sample :
    tokenize "a\nb" = .ok [⟨.text, "a\nb", 1, 1⟩] ∧
    EndsBefore "a\nb".toList "\x7b\x7b c\n\x7d\x7d".toList ∧
    tokenize ("a\nb" ++ "\x7b\x7b c\n\x7d\x7d") =
      .ok [⟨.text, "a\nb", 1, 1⟩, ⟨.openExpression, "\x7b\x7b", 2, 2⟩, ⟨.identifier, "c", 2, 5⟩,
        ⟨.closeExpression, "\x7d\x7d", 3, 1⟩] := by
  have hfirst : tokenize "a\nb" = .ok [⟨.text, "a\nb", 1, 1⟩] := by decide +kernel
  have hsecond : tokenize "\x7b\x7b c\n\x7d\x7d" = .ok [⟨.openExpression, "\x7b\x7b", 1, 1⟩,
      ⟨.identifier, "c", 1, 4⟩, ⟨.closeExpression, "\x7d\x7d", 2, 1⟩] := by decide +kernel
  have hends : EndsBefore "a\nb".toList "\x7b\x7b c\n\x7d\x7d".toList := by
    refine ⟨[⟨['a', '\n', 'b'], some (.text, ['a', '\n', 'b'])⟩], .cons rfl (.nil _ _), ?_⟩
    rintro s ⟨⟩
    exact .text (by decide) (.inr rfl)
  refine ⟨hfirst, hends, ?_⟩
  rw [tokenize_append hfirst hends, hsecond]
  rfl

end Lexer

end Stencil
