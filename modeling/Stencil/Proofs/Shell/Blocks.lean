import Stencil.Proofs.Grammar.Blocks
import Stencil.Proofs.Lexer.Boundary
import Stencil.Proofs.Lexer.Longest
import Stencil.Proofs.Shell.Entries
import Stencil.Proofs.Template.Failure

/-!
# Shell — the count of open blocks

The shell judges by the spelling alone whether an entry leaves a block open.  This count goes from
segment to segment as the lexer cuts the text (`counts_of_scan`):

* a comment or a string literal counts for what is in it, since no tag that starts there goes on
  behind its last character (`openBlocks_sealed`);
* the mark that opens a statement tag counts for the first token of the tag (`blocksAt_of_scans`);
* nothing else counts.  A brace in front of the operator `%` would, but in a template that operator
  does not stand where an operand has to come (`blocksAt_brace`).

In a template the tags come to nothing together (`Grammar.tagBlocks_of_parse`).  What remains is the
insides of comments and string literals, where the shell counts tags that are none
(`openBlocks_of_read`).
-/

namespace Stencil.Shell
open Stencil.Lexer Stencil.Grammar Stencil.Parser

variable {c d : Char} {cs inside run rest : List Char}

/-! ### Words behind the opening mark -/

/-- The word at the front, behind blanks. -/
def leadWord (cs : List Char) : List Char := (cs.dropWhile Text.isBlank).takeWhile Text.isWord

/-- By how much a statement tag that begins with the word changes the count. -/
def wordBlocks (word : List Char) : Int :=
  (if word ∈ ["if".toList, "for".toList] then 1 else 0) -
    (if word ∈ ["endif".toList, "endfor".toList] then 1 else 0)

/-- By how much the tag that starts at the front changes the count, if one does. -/
def blocksAt (cs : List Char) : Int :=
  (if startsTagWith ["if".toList, "for".toList] cs then 1 else 0) -
    (if startsTagWith ["endif".toList, "endfor".toList] cs then 1 else 0)

/-- A whole word is at the front if it is what goes on as a word. -/
theorem isPrefixOf_whole {word : List Char} (h : ∀ c ∈ word, Text.isWord c = true)
    (cs : List Char) : (word.isPrefixOf cs && !(cs.drop word.length).head?.any Text.isWord) =
      decide (cs.takeWhile Text.isWord = word) := by
  induction word generalizing cs with
  | nil =>
    cases cs with
    | nil => rfl
    | cons c cs => cases hc : Text.isWord c <;> simp [hc]
  | cons d word ih =>
    obtain ⟨hd, hword⟩ := List.forall_mem_cons.mp h
    cases cs with
    | nil => rfl
    | cons c cs =>
      by_cases hdc : d = c
      · subst hdc
        simpa [hd] using ih hword cs
      · cases hc : Text.isWord c <;> simp [hc, hdc, Ne.symm hdc]

theorem startsTagWith_eq {words : List (List Char)}
    (h : ∀ word ∈ words, ∀ c ∈ word, Text.isWord c = true) (cs : List Char) :
    startsTagWith words ('{' :: '%' :: cs) = decide (leadWord cs ∈ words) := by
  rw [Bool.eq_iff_iff, startsTagWith, List.any_eq_true, decide_eq_true_eq]
  constructor
  · rintro ⟨word, hword, hstarts⟩
    rw [isPrefixOf_whole (h word hword), decide_eq_true_eq] at hstarts
    exact (show leadWord cs = word from hstarts) ▸ hword
  · intro hword
    refine ⟨leadWord cs, hword, ?_⟩
    rw [isPrefixOf_whole (h _ hword)]
    exact decide_eq_true rfl

theorem blocksAt_tag (cs : List Char) : blocksAt ('{' :: '%' :: cs) = wordBlocks (leadWord cs) := by
  have hopen : ∀ word ∈ ["if".toList, "for".toList], word.all Text.isWord = true := by
    decide +kernel
  have hclose : ∀ word ∈ ["endif".toList, "endfor".toList], word.all Text.isWord = true := by
    decide +kernel
  simp only [List.all_eq_true] at hopen hclose
  simp only [blocksAt, wordBlocks, startsTagWith_eq hopen, startsTagWith_eq hclose,
    decide_eq_true_eq]

/-- Where no statement tag starts, nothing is counted. -/
theorem blocksAt_eq_zero (h : ∀ rest, cs ≠ '{' :: '%' :: rest) : blocksAt cs = 0 := by
  have hnone (words : List (List Char)) : startsTagWith words cs = false := by
    unfold startsTagWith
    split
    · exact absurd rfl (h _)
    · rfl
  simp [blocksAt, hnone]

theorem openBlocks_cons (c : Char) (cs : List Char) :
    openBlocks (c :: cs) = blocksAt (c :: cs) + openBlocks cs := by
  simp only [openBlocks, countTags, blocksAt]
  split_ifs <;> omega

/-! ### Runs of text -/

/-- Where no statement tag starts in a run, the count is that of the rest. -/
theorem openBlocks_append (h : ∀ before behind, run = before ++ behind → behind ≠ [] →
    blocksAt (behind ++ rest) = 0) : openBlocks (run ++ rest) = openBlocks rest := by
  induction run with
  | nil => rfl
  | cons c run ih =>
    have hfront : blocksAt (c :: (run ++ rest)) = 0 := h [] (c :: run) rfl (List.cons_ne_nil _ _)
    have hrun := ih fun before behind heq => h (c :: before) behind (by rw [heq, List.cons_append])
    rw [List.cons_append, openBlocks_cons, hfront, hrun, Int.zero_add]

theorem openBlocks_append_of_not_mem (h : '{' ∉ run) (rest : List Char) :
    openBlocks (run ++ rest) = openBlocks rest := by
  refine openBlocks_append fun before behind heq hne => blocksAt_eq_zero fun cs he => ?_
  obtain ⟨c, behind, rfl⟩ := List.exists_cons_of_ne_nil hne
  obtain ⟨rfl, -⟩ := List.cons.inj he
  exact h (heq ▸ List.mem_append_right before (.head _))

/-- A character that no statement tag goes on with up to the end of its first word. -/
structure Seals (d : Char) : Prop where
  notBlank : Text.isBlank d = false
  notWord : Text.isWord d = false
  ne_percent : d ≠ '%'
  ne_brace : d ≠ '{'

theorem leadWord_sealed (hd : Seals d) (inside rest : List Char) :
    leadWord (inside ++ d :: rest) = leadWord (inside ++ [d]) := by
  have hmem : d ∈ inside ++ [d] := List.mem_append_right inside (.head _)
  have hlead := mem_dropWhile hd.notBlank hmem
  rw [List.append_cons, leadWord, leadWord, (takeWhile_append_of_mem hd.notBlank hmem rest).2,
    (takeWhile_append_of_mem hd.notWord hlead rest).1]

theorem blocksAt_sealed (hd : Seals d) (inside rest : List Char) :
    blocksAt (inside ++ d :: rest) = blocksAt (inside ++ [d]) := by
  by_cases htag : ∃ cs, inside = '{' :: '%' :: cs
  · obtain ⟨cs, rfl⟩ := htag
    exact (blocksAt_tag _).trans ((congrArg wordBlocks (leadWord_sealed hd cs rest)).trans
      (blocksAt_tag _).symm)
  · have hnone (ys : List Char) : blocksAt (inside ++ d :: ys) = 0 := by
      refine blocksAt_eq_zero fun cs he => ?_
      match inside, he with
      | [], he => exact hd.ne_brace (List.cons.inj he).1
      | [_], he => exact hd.ne_percent (List.cons.inj (List.cons.inj he).2).1
      | a :: b :: inside, he =>
        simp only [List.cons_append, List.cons.injEq] at he
        exact htag ⟨inside, by rw [he.1, he.2.1]⟩
    rw [hnone, hnone]

/-- **What is counted up to such a character does not depend on what is behind it.** -/
theorem openBlocks_sealed (hd : Seals d) (inside rest : List Char) :
    openBlocks (inside ++ d :: rest) = openBlocks (inside ++ [d]) + openBlocks rest := by
  have hfront : blocksAt (d :: rest) = 0 :=
    blocksAt_eq_zero fun _ he => hd.ne_brace (List.cons.inj he).1
  have hfront' : blocksAt [d] = 0 := blocksAt_eq_zero fun _ he => hd.ne_brace (List.cons.inj he).1
  induction inside with
  | nil =>
    rw [List.nil_append, List.nil_append, openBlocks_cons, openBlocks_cons, hfront, hfront',
      openBlocks_nil]
    omega
  | cons c inside ih =>
    have hc : blocksAt (c :: (inside ++ d :: rest)) = blocksAt (c :: (inside ++ [d])) :=
      blocksAt_sealed hd (c :: inside) rest
    rw [List.cons_append, List.cons_append, openBlocks_cons, openBlocks_cons, hc, ih,
      Int.add_assoc]

/-! ### The word that leads a tag -/

/-- The words that open or close a block. -/
def blockWords : List (List Char) :=
  ["if".toList, "for".toList] ++ ["endif".toList, "endfor".toList]

theorem wordBlocks_of_not_mem {word : List Char} (h : word ∉ blockWords) : wordBlocks word = 0 := by
  obtain ⟨hopen, hclose⟩ := not_or.mp (mt List.mem_append.mpr h)
  rw [wordBlocks, if_neg hopen, if_neg hclose, Int.sub_zero]

/-- A tag whose first character begins no such word. -/
theorem wordBlocks_leadWord (hblank : Text.isBlank c = false)
    (hc : c ≠ 'i' ∧ c ≠ 'f' ∧ c ≠ 'e') (cs : List Char) : wordBlocks (leadWord (c :: cs)) = 0 := by
  have hletters : ∀ w ∈ blockWords, w.head? = some 'i' ∨ w.head? = some 'f' ∨
      w.head? = some 'e' := by decide
  refine wordBlocks_of_not_mem fun hmem => ?_
  have hhead := hletters _ hmem
  rw [leadWord, List.dropWhile_cons_of_neg (Bool.eq_false_iff.mp hblank),
    List.takeWhile_cons] at hhead
  split at hhead
  · simp [hc] at hhead
  · simp at hhead

/-- A word counts for what its kind counts for. -/
theorem wordBlocks_eq (word : List Char) :
    wordBlocks word = blocksOf (Vocabulary.wordKind word) := by
  have hkeywords : ∀ entry ∈ Vocabulary.keywords, wordBlocks entry.1 = blocksOf entry.2 := by decide
  have hwords : ∀ w ∈ blockWords, Vocabulary.keywords.lookup w ≠ none := by decide
  unfold Vocabulary.wordKind
  cases h : Vocabulary.keywords.lookup word with
  | some kind => exact hkeywords _ (mem_of_lookup h)
  | none => exact wordBlocks_of_not_mem fun hmem => hwords word hmem h

/-- Blanks in front of the word do not count. -/
theorem leadWord_spacing (h : ∀ c ∈ run, Text.isSpacing c = true) (cs : List Char) :
    leadWord (run ++ cs) = leadWord cs := by
  rw [leadWord, leadWord,
    List.dropWhile_append_of_pos fun c hc => Text.isBlank_of_isSpacing (h c hc)]

theorem leadWord_of_word (hc : Text.startsWord c = true) (hcs : ∀ d ∈ cs, Text.isWord d = true)
    (hrest : rest.head?.any Text.isWord = false) : leadWord (c :: cs ++ rest) = c :: cs := by
  have hword : ∀ d ∈ c :: cs, Text.isWord d = true :=
    List.forall_mem_cons.mpr ⟨Text.isWord_of_startsWord hc, hcs⟩
  rw [leadWord, List.cons_append,
    List.dropWhile_cons_of_neg (Bool.eq_false_iff.mp (Text.isBlank_of_startsWord hc)),
    ← List.cons_append, (span_of_head hword hrest).1]

theorem leadWord_number {lastKind : Option Token.Kind} {sign : List Char}
    (hsign : Signs lastKind sign) (hd : Text.isDigit d = true) (cs : List Char) :
    wordBlocks (leadWord (sign ++ d :: cs)) = 0 := by
  rcases hsign with rfl | ⟨rfl, -⟩
  · refine wordBlocks_leadWord (Text.isBlank_of_isDigit hd) ?_ cs
    have hletters : Text.isDigit 'i' = false ∧ Text.isDigit 'f' = false ∧
        Text.isDigit 'e' = false := by decide +kernel
    refine ⟨?_, ?_, ?_⟩ <;> rintro rfl <;> simp [hletters] at hd
  · exact wordBlocks_leadWord (by decide) (by decide) _

/-- **The word that leads a tag counts for what the first token counts for.** -/
theorem leadWord_of_longest {lastKind : Option Token.Kind} {f : Found} (h : Longest lastKind f) :
    wordBlocks (leadWord (f.spelling ++ f.rest)) = blocksOf f.kind := by
  cases h with
  | word hc hcs hrest => rw [leadWord_of_word hc hcs hrest, wordBlocks_eq]
  | notIn => exact wordBlocks_leadWord (by decide) (by decide) _
  | whole hsign hdigits =>
    obtain ⟨d, ds, rfl⟩ := List.exists_cons_of_ne_nil hdigits.1
    rw [List.append_assoc]
    exact leadWord_number hsign (hdigits.2 d (.head _)) _
  | pointed hsign hdigits =>
    obtain ⟨d, ds, rfl⟩ := List.exists_cons_of_ne_nil hdigits.1
    rw [List.append_assoc]
    exact leadWord_number hsign (hdigits.2 d (.head _)) _
  | string hquote =>
    rcases hquote with rfl | rfl <;> exact wordBlocks_leadWord (by decide) (by decide) _
  | @operator spelling rest kind hmem =>
    -- no operator begins with a letter of one of the words, and none is blank
    have hoperators : ∀ entry ∈ Vocabulary.operators, blocksOf entry.2 = 0 ∧
        entry.1.head?.any (fun c =>
          decide (Text.isBlank c = false ∧ c ≠ 'i' ∧ c ≠ 'f' ∧ c ≠ 'e')) = true := by
      decide
    obtain ⟨hkind, hhead⟩ := hoperators _ hmem
    obtain ⟨c, hc, hapart⟩ := (Option.any_eq_true _ _).mp hhead
    obtain ⟨cs, rfl⟩ := List.head?_eq_some_iff.mp hc
    obtain ⟨hblank, hletters⟩ := of_decide_eq_true hapart
    exact (wordBlocks_leadWord hblank hletters _).trans hkind.symm

/-! ### The next token -/

variable {tag : Tag} {depth : Nat} {lastKind : Option Token.Kind} {segments : List Segment}
  {m m' : Mode}

/-- Behind spacing, the next token inside a tag is the mark that closes it or the longest one. -/
theorem front_of_scans (h : Scans m cs segments m' rest) (hm : m = .inside tag depth lastKind)
    (hm' : m' = .outside) (place : Place) : ∃ spacing after, cs = spacing ++ after ∧
      (∀ c ∈ spacing, Text.isSpacing c = true) ∧
      ((∃ behind, after = tag.closer ++ behind ∧
          (front (tokensOf place segments)).kind = tag.closeKind) ∨
        ∃ f, Longest lastKind f ∧ after = f.spelling ++ f.rest ∧
          (front (tokensOf place segments)).kind = f.kind) := by
  induction h generalizing place with
  | nil => exact absurd (hm.symm.trans hm') Mode.inside_ne_outside
  | @cons m mid m' s segments cs behind rest hs _ ih =>
    subst hm
    -- spacing is passed; any other segment has a token, which is the closer or the longest one
    by_cases hcontent : s.content = none
    · obtain ⟨rfl, hadmits⟩ := admits_of_scan hs
      cases leads_of_scan hs with
      | spacing run =>
        cases hadmits with
        | spacing _ hrun =>
          obtain ⟨spacing, after, rfl, hspacing, hnext⟩ := ih rfl hm' (place.after run)
          exact ⟨run ++ spacing, after, (List.append_assoc ..).symm,
            List.forall_mem_append.mpr ⟨hrun, hspacing⟩, hnext⟩
      | closer | token => cases hcontent
    · refine ⟨[], cs, rfl, nofun, ?_⟩
      rcases closer_or_longest hs hcontent with ⟨rfl, -, hcs, -⟩ | ⟨f, hf, hcs, -, rfl, -, -⟩
      · exact .inl ⟨behind, hcs, rfl⟩
      · exact .inr ⟨f, hf, hcs, rfl⟩

/-- **A statement tag counts for its first token.** -/
theorem blocksAt_of_scans (h : Scans (.inside tag depth lastKind) cs segments .outside rest)
    (place : Place) :
    blocksAt ('{' :: '%' :: cs) = blocksOf (front (tokensOf place segments)).kind := by
  obtain ⟨spacing, after, rfl, hspacing, hnext⟩ := front_of_scans h rfl rfl place
  rw [blocksAt_tag, leadWord_spacing hspacing]
  rcases hnext with ⟨behind, rfl, hkind⟩ | ⟨f, hf, rfl, hkind⟩
  · rw [hkind]
    cases tag <;> exact wordBlocks_leadWord (by decide) (by decide) _
  · rw [hkind]
    exact leadWord_of_longest hf

theorem head_of_number {sign digits behind : List Char} (hsign : Signs lastKind sign)
    (hdigits : AllDigits digits) : sign ++ (digits ++ behind) ≠ '%' :: cs := by
  intro he
  obtain ⟨d, ds, rfl⟩ := List.exists_cons_of_ne_nil hdigits.1
  rcases hsign with rfl | ⟨rfl, -⟩
  · obtain ⟨rfl, -⟩ := List.cons.inj he
    have hpercent : Text.isDigit '%' = false := by decide +kernel
    cases hpercent.symm.trans (hdigits.2 _ (.head _))
  · cases he

/-- What begins with `%` inside a tag is the operator, unless it closes the tag. -/
theorem kind_of_percent {f : Found} (h : Longest lastKind f)
    (hf : f.spelling ++ f.rest = '%' :: cs) : f.kind = .multiplicative := by
  cases h with
  | word hc =>
    obtain ⟨rfl, -⟩ := List.cons.inj hf
    have hpercent : Text.startsWord '%' = false := by decide +kernel
    cases hpercent.symm.trans hc
  | notIn => cases hf
  | whole hsign hdigits =>
    rw [List.append_assoc] at hf
    exact absurd hf (head_of_number hsign hdigits)
  | pointed hsign hdigits =>
    rw [List.append_assoc, List.append_assoc] at hf
    exact absurd hf (head_of_number hsign hdigits)
  | string hquote => rcases hquote with rfl | rfl <;> cases hf
  | operator hmem =>
    have hoperators : ∀ entry ∈ Vocabulary.operators, entry.1 ≠ [] ∧
        (entry.1.head? = some '%' → entry.2 = .multiplicative) := by decide
    obtain ⟨hne, hpercent⟩ := hoperators _ hmem
    obtain ⟨c, spelling, rfl⟩ := List.exists_cons_of_ne_nil hne
    obtain ⟨rfl, -⟩ := List.cons.inj hf
    exact hpercent rfl

/-- Where the operator `%` is not the next token, no statement tag starts at a brace. -/
theorem blocksAt_brace (h : Scans (.inside tag depth lastKind) cs segments .outside rest)
    {place : Place} (hnext : (front (tokensOf place segments)).kind ≠ .multiplicative) :
    blocksAt ('{' :: cs) = 0 := by
  by_cases hpercent : ∃ more, cs = '%' :: more
  · obtain ⟨more, rfl⟩ := hpercent
    obtain ⟨spacing, after, heq, hspacing, hfront⟩ := front_of_scans h rfl rfl place
    have hnone : spacing = [] := by
      cases spacing with
      | nil => rfl
      | cons c spacing =>
        obtain ⟨rfl, -⟩ := List.cons.inj heq
        cases hspacing _ (.head _)
    subst hnone
    rcases hfront with ⟨behind, rfl, -⟩ | ⟨f, hf, rfl, hkind⟩
    · cases tag with
      | expression => cases heq
      | statement =>
        obtain rfl : more = '}' :: behind := (List.cons.inj heq).2
        exact (blocksAt_tag _).trans (wordBlocks_leadWord (by decide) (by decide) _)
    · exact absurd (hkind.trans (kind_of_percent hf heq.symm)) hnext
  · exact blocksAt_eq_zero fun more he => hpercent ⟨more, (List.cons.inj he).2⟩

/-! ### Whole templates -/

/-- Is the segment a comment, spacing or a string literal? -/
def isInert (s : Segment) : Bool := s.content.all fun content => content.1 = .string

/-- What the insides of comments and string literals count for. -/
def inertBlocks (segments : List Segment) : Int :=
  ((segments.filter isInert).map fun s => openBlocks s.spelling).sum

theorem inertBlocks_cons (s : Segment) (segments : List Segment) :
    inertBlocks (s :: segments) =
      (if isInert s then openBlocks s.spelling else 0) + inertBlocks segments := by
  rw [inertBlocks, List.filter_cons]
  split
  · rfl
  · exact (Int.zero_add _).symm

/-- What a segment counts for in front of some tokens, if it opens a statement tag. -/
def leadBlocks (s : Segment) (next : List Token) : Int :=
  if s.content.map Prod.fst = some .openStatement then blocksOf (front next).kind else 0

theorem tagBlocks_tokensOf (s : Segment) (segments : List Segment) (place : Place) :
    tagBlocks (tokensOf place (s :: segments)) =
      leadBlocks s (tokensOf (place.after s.spelling) segments) +
        tagBlocks (tokensOf (place.after s.spelling) segments) := by
  rw [tokensOf, Segment.tokenAt, leadBlocks]
  cases s.content with
  | none => exact (Int.zero_add _).symm
  | some content => simp [tagBlocks]

theorem seals_brace : Seals '}' := ⟨by decide, by decide +kernel, by decide, by decide⟩

theorem seals_quote {quote : Char} (h : quote = '\x22' ∨ quote = '\x27') : Seals quote := by
  rcases h with rfl | rfl <;> exact ⟨by decide, by decide +kernel, by decide, by decide⟩

/-- Plain text counts for nothing. -/
theorem openBlocks_plain (h : IsPlain run rest) : openBlocks (run ++ rest) = openBlocks rest := by
  refine openBlocks_append fun before behind heq hne => blocksAt_eq_zero fun cs he => ?_
  have hplain := h before behind heq hne
  rw [he] at hplain
  cases hplain

/-- A string literal counts for what is in it. -/
theorem openBlocks_literal {spelling value : List Char} {kind : Token.Kind}
    (h : Lexical spelling kind value) (hkind : kind = .string) (rest : List Char) :
    openBlocks (spelling ++ rest) = openBlocks spelling + openBlocks rest := by
  cases h with
  | string hquote =>
    rw [List.append_assoc, List.singleton_append]
    exact openBlocks_sealed (seals_quote hquote) _ rest
  | word =>
    have hkeywords : ∀ entry ∈ Vocabulary.keywords, entry.2 ≠ .string := by decide
    exact absurd hkind (wordKind_of_forall (P := (· ≠ .string)) nofun hkeywords _)
  | operator hmem =>
    have hoperators : ∀ entry ∈ Vocabulary.operators, entry.2 ≠ .string := by decide
    exact absurd hkind (hoperators _ hmem)
  | notIn | whole | pointed => cases hkind

theorem brace_not_mem_number {sign digits : List Char} (hsign : sign = [] ∨ sign = ['-'])
    (hdigits : AllDigits digits) : '{' ∉ sign ++ digits := by
  have hbrace : Text.isDigit '{' = false := by decide +kernel
  intro hmem
  rcases List.mem_append.mp hmem with hmem | hmem
  · rcases hsign with rfl | rfl
    · cases hmem
    · cases List.mem_singleton.mp hmem
  · cases hbrace.symm.trans (hdigits.2 _ hmem)

/-- No other token but the brace has a brace in it. -/
theorem brace_not_mem {spelling value : List Char} {kind : Token.Kind}
    (h : Lexical spelling kind value) (hkind : kind ≠ .string ∧ kind ≠ .leftBrace) :
    '{' ∉ spelling := by
  have hbrace : Text.isWord '{' = false ∧ Text.isSpacing '{' = false := by decide +kernel
  -- a brace is no character of a word, no spacing and no digit
  cases h with
  | word hc hcs =>
    intro hmem
    rcases List.mem_cons.mp hmem with rfl | hmem
    · cases hbrace.1.symm.trans (Text.isWord_of_startsWord hc)
    · cases hbrace.1.symm.trans (hcs _ hmem)
  | notIn _ hspacing =>
    intro hmem
    rcases List.mem_append.mp hmem with hmem | hmem
    · rcases List.mem_append.mp hmem with hmem | hmem
      · exact absurd hmem (by decide)
      · cases hbrace.2.symm.trans (hspacing _ hmem)
    · exact absurd hmem (by decide)
  | whole hsign hdigits => exact brace_not_mem_number hsign hdigits
  | pointed hsign hdigits hpart =>
    intro hmem
    rcases List.mem_append.mp hmem with hmem | hmem
    · exact brace_not_mem_number hsign hdigits hmem
    · rcases List.mem_cons.mp hmem with he | hmem
      · cases he
      · exact brace_not_mem_number (.inl rfl) hpart hmem
  | string => exact absurd rfl hkind.1
  | operator hmem =>
    have hoperators : ∀ entry ∈ Vocabulary.operators, '{' ∈ entry.1 → entry.2 = .leftBrace := by
      decide
    exact fun he => hkind.2 (hoperators _ hmem he)

/-- A token but a string literal counts for nothing. -/
theorem openBlocks_token {spelling value : List Char} {kind : Token.Kind} {place : Place}
    (h : Lexical spelling kind value) (hkind : kind ≠ .string)
    (hscans : Scans (.inside tag depth lastKind) cs segments .outside rest)
    (hnext : kind = .leftBrace → (front (tokensOf place segments)).kind ≠ .multiplicative) :
    openBlocks (spelling ++ cs) = openBlocks cs := by
  by_cases hbrace : kind = .leftBrace
  · have hspelling : spelling = ['{'] := by
      cases h with
      | word =>
        have hkeywords : ∀ entry ∈ Vocabulary.keywords, entry.2 ≠ .leftBrace := by decide
        exact absurd hbrace (wordKind_of_forall (P := (· ≠ .leftBrace)) nofun hkeywords _)
      | operator hmem =>
        have hoperators : ∀ entry ∈ Vocabulary.operators, entry.2 = .leftBrace →
            entry.1 = ['{'] := by decide
        exact hoperators _ hmem hbrace
      | notIn | whole | pointed | string => cases hbrace
    rw [hspelling, List.singleton_append, openBlocks_cons, blocksAt_brace hscans (hnext hbrace),
      Int.zero_add]
  · exact openBlocks_append_of_not_mem (brace_not_mem h ⟨hkind, hbrace⟩) cs

theorem isPlain_of_admits {tag' : Option Tag} {s : Segment} {value : List Char}
    (h : Admits none s rest tag') (hs : s.content = some (.text, value)) :
    IsPlain s.spelling rest := by
  cases h with
  | text _ hplain => exact hplain
  | comment => cases hs
  | opener tag => cases tag <;> cases hs

/-- A segment in front of the rest counts for what is in it, or for the tag that it opens. -/
def Counts (s : Segment) (next : List Token) (rest : List Char) : Prop :=
  openBlocks (s.spelling ++ rest) =
    (if isInert s then openBlocks s.spelling else 0) + leadBlocks s next + openBlocks rest

theorem Counts.inert {s : Segment} (h : isInert s = true) (next : List Token)
    (hsplit : openBlocks (s.spelling ++ rest) = openBlocks s.spelling + openBlocks rest) :
    Counts s next rest := by
  have hlead : leadBlocks s next = 0 := by
    refine if_neg fun he => ?_
    obtain ⟨content, hs, he⟩ := Option.map_eq_some_iff.mp he
    rw [isInert, hs, Option.all_some, decide_eq_true_eq] at h
    cases h.symm.trans he
  rw [Counts, hsplit, if_pos h, hlead, Int.add_zero]

theorem Counts.nothing {s : Segment} {next : List Token} (h : isInert s = false)
    (hlead : s.content.map Prod.fst ≠ some .openStatement)
    (hrest : openBlocks (s.spelling ++ rest) = openBlocks rest) : Counts s next rest := by
  rw [Counts, hrest, h, leadBlocks, if_neg hlead]
  exact (Int.zero_add _).symm

/-- **What a segment counts for**, where `next` are the tokens of what is scanned behind it. -/
theorem counts_of_scan {s : Segment} {place : Place} (hs : scan m cs = .segment s m' rest)
    (hscans : Scans m' rest segments .outside [])
    (hnext : ∀ kind ∈ s.content.map Prod.fst, kind.awaitsOperand = true →
      (front (tokensOf place segments)).kind ≠ .multiplicative) :
    Counts s (tokensOf place segments) rest := by
  obtain ⟨rfl, hadmits⟩ := admits_of_scan hs
  -- by the kind of the segment: comments, spacing and literals count by themselves, the opener of a
  -- statement counts with the tokens behind it, and the rest counts for nothing
  cases leads_of_scan hs with
  | comment inside =>
    have hsealed := openBlocks_sealed seals_brace ('{' :: '#' :: inside ++ ['#']) rest
    exact .inert rfl _ (by simpa using hsealed)
  | text run => exact .nothing rfl nofun (openBlocks_plain (isPlain_of_admits hadmits rfl))
  | opener tag =>
    cases tag with
    | statement =>
      have htag := blocksAt_of_scans hscans place
      have hpercent : openBlocks ('%' :: rest) = openBlocks rest :=
        openBlocks_append_of_not_mem (by decide : '{' ∉ ['%']) rest
      show openBlocks ('{' :: '%' :: rest) = _
      rw [openBlocks_cons, htag, hpercent]
      exact congrArg (· + _) (Int.zero_add _).symm
    | expression =>
      have hbrace := blocksAt_brace hscans (hnext .openExpression rfl rfl)
      -- neither brace starts a statement tag, as no operator stands behind the opener
      have hfirst : blocksAt ('{' :: '{' :: rest) = 0 := blocksAt_eq_zero nofun
      refine .nothing rfl nofun ?_
      show openBlocks ('{' :: '{' :: rest) = _
      rw [openBlocks_cons, openBlocks_cons, hfirst, hbrace, Int.zero_add, Int.zero_add]
  | spacing run =>
    cases hadmits with
    | spacing _ hrun =>
      have hbrace : '{' ∉ run := fun hmem => nomatch hrun _ hmem
      have hself := openBlocks_append_of_not_mem hbrace []
      rw [List.append_nil] at hself
      refine .inert rfl _ ?_
      rw [openBlocks_append_of_not_mem hbrace, hself, openBlocks_nil, Int.zero_add]
  | @closer tag =>
    have hbrace : '{' ∉ tag.closer := by cases tag <;> decide
    refine .nothing ?_ ?_ (openBlocks_append_of_not_mem hbrace rest) <;> cases tag <;> decide
  | @token _ _ _ spelling value kind hlexical =>
    have hinert : isInert ⟨spelling, some (kind, value)⟩ = decide (kind = .string) := rfl
    by_cases hkind : kind = .string
    · exact .inert (hinert.trans (decide_eq_true hkind)) _
        (openBlocks_literal hlexical hkind rest)
    · have hlead : kind ≠ .openStatement := by
        rintro rfl
        cases hlexical.isInner
      refine .nothing (hinert.trans (decide_eq_false hkind)) (fun he => hlead (Option.some.inj he))
        (openBlocks_token hlexical hkind hscans fun he => hnext kind rfl (he ▸ rfl))

/-- In a template no operator `%` stands behind an opening mark or brace. -/
theorem front_of_linked {kind : Token.Kind} {ts : List Token} (h : Linked (some kind) ts)
    (hkind : kind.awaitsOperand = true) : (front ts).kind ≠ .multiplicative := by
  cases ts with
  | nil => nofun
  | cons t ts =>
    intro ht
    have hbefore := h.1.multiplicative ht
    rw [Option.any_some, hkind] at hbefore
    cases hbefore

/-- **The count of a text is that of its tags and of what is in its comments and literals.** -/
theorem openBlocks_of_scans (h : Scans m cs segments m' rest) (hm' : m' = .outside)
    (hrest : rest = []) (place : Place) {before : Option Token.Kind}
    (hlinked : Linked before (tokensOf place segments)) :
    openBlocks cs = inertBlocks segments + tagBlocks (tokensOf place segments) := by
  induction h generalizing place before with
  | nil =>
    subst hrest
    rfl
  | @cons m mid m' s segments cs behind rest hs hscans ih =>
    subst hm' hrest
    -- the tokens behind the segment are linked from its own kind on, if it has one
    obtain ⟨before', hbehind, hnext⟩ : ∃ before',
        Linked before' (tokensOf (place.after s.spelling) segments) ∧
          ∀ kind ∈ s.content.map Prod.fst, before' = some kind := by
      rw [tokensOf, Segment.tokenAt] at hlinked
      cases hs : s.content with
      | none =>
        rw [hs] at hlinked
        exact ⟨before, hlinked, fun kind hkind => absurd hkind (Option.not_mem_none kind)⟩
      | some content =>
        rw [hs] at hlinked
        exact ⟨some content.1, hlinked.2, fun kind hkind => hkind⟩
    have hcounts := counts_of_scan hs hscans fun kind hkind =>
      front_of_linked (hnext kind hkind ▸ hbehind)
    rw [Counts, ← (admits_of_scan hs).1] at hcounts
    rw [hcounts, ih rfl rfl _ hbehind, inertBlocks_cons, tagBlocks_tokensOf]
    omega

/-- Text that no statement tag starts in counts for nothing. -/
theorem openBlocks_of_not_isInfix (h : ¬ ['{', '%'] <:+: run) : openBlocks run = 0 := by
  have hnone : openBlocks (run ++ []) = openBlocks [] := by
    refine openBlocks_append fun before behind heq _ => blocksAt_eq_zero fun cs he => h ?_
    rw [List.append_nil] at he
    exact ⟨before, cs, by rw [heq, he, List.append_assoc]; rfl⟩
  rwa [List.append_nil] at hnone

theorem inertBlocks_eq_zero
    (h : ∀ s ∈ segments, isInert s = true → ¬ ['{', '%'] <:+: s.spelling) :
    inertBlocks segments = 0 := by
  induction segments with
  | nil => rfl
  | cons s segments ih =>
    obtain ⟨hs, hsegments⟩ := List.forall_mem_cons.mp h
    rw [inertBlocks_cons, ih hsegments, Int.add_zero]
    split
    · rename_i hinert
      exact openBlocks_of_not_isInfix (hs hinert)
    · rfl

/-- **In a template only comments and string literals leave the count open.**  The count of the
whole text is that of their insides, and none if no statement tag starts there.  Unless they leave
it above zero, the shell does not go on with an entry that is the template. -/
theorem openBlocks_of_read {source : String} {tree : Node} (h : Template.read source = .ok tree) :
    ∃ segments, Scans .outside source.toList segments .outside [] ∧
      openBlocks source.toList = inertBlocks segments ∧
      ((∀ s ∈ segments, isInert s = true → ¬ ['{', '%'] <:+: s.spelling) →
        inertBlocks segments = 0) ∧
      (inertBlocks segments ≤ 0 → ∀ {shell shell' : Shell} {begun : List String}
        {line printed : String}, Holds shell begun → entryText (begun ++ [line]) = source.toList →
        ¬ EndsOpen line → shell.takeLine line.toList = (printed, .go shell') →
        shell'.entry = []) := by
  obtain ⟨ts, htokens, hparse⟩ := Template.read_eq_ok.mp h
  obtain ⟨segments, hscans, rfl⟩ := tokenize_eq_ok_iff_scans.mp htokens
  have hcount : openBlocks source.toList = inertBlocks segments := by
    have htags := tagBlocks_of_parse hparse
    rw [dropEnd_eq_self (kind_ne_of_tokenize htokens)] at htags
    rw [openBlocks_of_scans hscans rfl rfl .start (linked_of_parse hparse), htags, Int.add_zero]
  refine ⟨segments, hscans, hcount, inertBlocks_eq_zero, ?_⟩
  intro hinert shell shell' begun line printed hholds htext hends hline
  rcases (takeLine_go hholds hline).2 with ⟨hopen | hblocks, -, -⟩ | ⟨-, rfl⟩
  · simp [hends] at hopen
  · rw [htext, hcount] at hblocks
    omega
  · rfl

/-- A conditional with a comment in it. -/
def sampleTemplate : String := "\x7b% if a %\x7d\x7b# b #\x7d\x7b% endif %\x7d"

/-- A conditional with a comment in it: the tags in the comment are none, so no block is left open.
-/
theorem openBlocks_of_read_sample :
    Template.read sampleTemplate = .ok (.program [.conditional (.identifier "a") [] []]) ∧
    ∃ segments, Scans .outside sampleTemplate.toList segments .outside [] ∧
      openBlocks sampleTemplate.toList = inertBlocks segments := by
  have htokens : tokenize sampleTemplate = .ok [⟨.openStatement, "\x7b%", 1, 1⟩,
      ⟨.kwIf, "if", 1, 4⟩, ⟨.identifier, "a", 1, 7⟩, ⟨.closeStatement, "%\x7d", 1, 9⟩,
      ⟨.openStatement, "\x7b%", 1, 18⟩, ⟨.kwEndif, "endif", 1, 21⟩,
      ⟨.closeStatement, "%\x7d", 1, 27⟩] := by decide +kernel
  have hread : Template.read sampleTemplate =
      .ok (.program [.conditional (.identifier "a") [] []]) :=
    Template.read_eq_ok.mpr ⟨_, htokens, rfl⟩
  obtain ⟨segments, hscans, hcount, -⟩ := openBlocks_of_read hread
  exact ⟨hread, segments, hscans, hcount⟩

/-- A tag inside a comment. -/
def commentedTag : String := "\x7b# \x7b% if a %\x7d #\x7d"

/-- Not every template is counted as closed: a tag inside a comment opens no block, and the shell
counts one. -/
theorem not_openBlocks_eq_zero :
    ¬ ∀ (source : String) (tree : Node), Template.read source = .ok tree →
      openBlocks source.toList = 0 := by
  intro h
  have htokens : tokenize commentedTag = .ok [] := by decide +kernel
  have hopen : openBlocks commentedTag.toList = 1 := by decide +kernel
  have hclosed := h commentedTag (.program []) (Template.read_eq_ok.mpr ⟨[], htokens, rfl⟩)
  rw [hopen] at hclosed
  cases hclosed

end Stencil.Shell
