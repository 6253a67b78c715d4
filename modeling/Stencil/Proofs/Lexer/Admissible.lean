import Stencil.Proofs.Lexer.Agreement
import Stencil.Proofs.Lexer.Longest

/-!
# Lexer — what may be taken inside a tag

A text inside a tag may begin with several tokens at once: with `not` and with `not in`, with `1`
and with `1.5`, with a minus sign and with a negative number.  `Offers` says which tokens a text
begins with, each on its own and with no order among their kinds.

The lexer tries the kinds one after the other and takes the first that fits.  What it takes is the
longest of all that are offered (`longest_offer_taken`).  Two facts carry this: no token that is
offered is longer than what is found (`exists_found`), and a spelling has one kind and one value
only (`Lexical.content_unique`).
-/

namespace Stencil.Lexer

variable {tag : Tag} {depth : Nat} {lastKind : Option Token.Kind} {f g : Found} {lexer : Lexer}
  {kind kind' : Token.Kind} {c : Char}
  {w cs text digits part spelling value value' rest : List Char}

/-- What may be taken as a token inside a tag, in front of what is left. -/
inductive Admissible (tag : Tag) (depth : Nat) (lastKind : Option Token.Kind) : Found → Prop
  /-- The mark that closes the tag; braces that are open keep an expression open. -/
  | closer (rest : List Char) : (tag = .expression → depth = 0) →
      Admissible tag depth lastKind ⟨tag.closer, tag.closeKind, tag.closer, rest⟩
  /-- The spelling of a token.  A minus sign belongs to a number only where an operand has to come,
  and `not in` ends where its second word ends. -/
  | token {f : Found} : Lexical f.spelling f.kind f.value →
      (f.kind = .number → f.spelling.head? = some '-' →
        lastKind.any Token.Kind.awaitsOperand = true) →
      (f.kind = .kwNotIn → f.rest.head?.any Text.isWord = false) →
      Admissible tag depth lastKind f

/-- The token may be taken at the front of the text. -/
structure Offers (tag : Tag) (depth : Nat) (lastKind : Option Token.Kind) (text : List Char)
    (f : Found) : Prop where
  admissible : Admissible tag depth lastKind f
  text_eq : text = f.spelling ++ f.rest

/-- The token may be taken at the front of the text, and every other one that may be is shorter. -/
def OffersLongest (tag : Tag) (depth : Nat) (lastKind : Option Token.Kind) (text : List Char)
    (f : Found) : Prop :=
  Offers tag depth lastKind text f ∧
    ∀ g, Offers tag depth lastKind text g → g = f ∨ g.spelling.length < f.spelling.length

/-! ### One spelling, one token -/

/-- At the end of a text, a spelling of a token is the longest. -/
theorem Lexical.longest (h : Lexical spelling kind value) :
    Longest (some .comma) ⟨spelling, kind, value, []⟩ := by
  cases h with
  | word hc hcs => exact .word hc hcs rfl fun _ => rfl
  | notIn hne hspacing =>
    rw [List.append_assoc]
    exact .notIn hne hspacing rfl
  | whole hsign hdigits => exact .whole (hsign.imp_right (⟨·, rfl⟩)) hdigits rfl nofun
  | pointed hsign hdigits hpart =>
    rw [List.append_assoc]
    exact .pointed (hsign.imp_right (⟨·, rfl⟩)) hdigits hpart rfl
  | string hquote hquoted => exact .string hquote hquoted
  | operator h =>
    have hplain : ∀ entry ∈ Vocabulary.operators,
        startsNegative (some .comma) (entry.1 ++ []) = false := by decide +kernel
    exact .operator h nofun (hplain _ h)

/-- What is found in front of the text is the only token that is. -/
theorem IsFound.found?_eq (h : IsFound lastKind f) (heq : f.spelling ++ f.rest = c :: cs) :
    found? lastKind c cs = some f := by
  obtain ⟨d, ds, heq', -, hfound⟩ := h
  cases heq.symm.trans heq'
  exact hfound

/-- **A spelling has one kind and one value.** -/
theorem Lexical.content_unique (h : Lexical spelling kind value)
    (h' : Lexical spelling kind' value') : kind = kind' ∧ value = value' := by
  obtain ⟨c, cs, rfl⟩ := List.exists_cons_of_ne_nil h.ne_nil
  have heq : c :: cs ++ [] = c :: cs := List.append_nil _
  have hfound := (isFound_of_longest h.longest).found?_eq heq
  have hfound' := (isFound_of_longest h'.longest).found?_eq heq
  cases hfound.symm.trans hfound'
  exact ⟨rfl, rfl⟩

/-! ### What is found is no shorter -/

theorem length_le_word (hw : ∀ d ∈ w, Text.isWord d = true) (rest : List Char) :
    w.length ≤ (word (w ++ rest)).spelling.length := by
  have htake : (w ++ rest).takeWhile Text.isWord = w ++ rest.takeWhile Text.isWord :=
    List.takeWhile_append_of_pos hw
  unfold word
  dsimp only
  split <;> simp [htake]

theorem length_le_number (hdigits : ∀ d ∈ digits, Text.isDigit d = true) (rest : List Char) :
    digits.length ≤ (Lexeme.number (digits ++ rest)).1.length := by
  have htake : (digits ++ rest).takeWhile Text.isDigit = digits ++ rest.takeWhile Text.isDigit :=
    List.takeWhile_append_of_pos hdigits
  unfold Lexeme.number
  split
  · split <;> simp [htake]
  · simp [htake]

theorem length_le_number_of_part (hdigits : ∀ d ∈ digits, Text.isDigit d = true)
    (hpart : AllDigits part) (rest : List Char) :
    (digits ++ '.' :: part).length ≤
      (Lexeme.number (digits ++ '.' :: (part ++ rest))).1.length := by
  have hpoint : ('.' :: (part ++ rest)).head?.any Text.isDigit = false := by
    have hpoint : Text.isDigit '.' = false := by decide +kernel
    exact hpoint
  have htake : (part ++ rest).takeWhile Text.isDigit = part ++ rest.takeWhile Text.isDigit :=
    List.takeWhile_append_of_pos hpart.2
  obtain ⟨d, ds, rfl⟩ := List.exists_cons_of_ne_nil hpart.1
  rw [Lexeme.number, (span_of_head hdigits hpoint).1, (span_of_head hdigits hpoint).2]
  show _ ≤ (if Text.isDigit d = true then
    (digits ++ '.' :: (d :: ds ++ rest).takeWhile Text.isDigit,
      (d :: ds ++ rest).dropWhile Text.isDigit) else _).1.length
  rw [if_pos (hpart.2 d (.head _)), htake]
  simp

theorem length_le_signed (sign : List Char) (h : w.length ≤ (Lexeme.number cs).1.length) :
    (sign ++ w).length ≤ (number sign cs).spelling.length := by
  rw [number, List.length_append, List.length_append]
  exact Nat.add_le_add_left h _

/-- Only the minus sign itself is an operator in front of a negative number. -/
theorem length_of_minus (h : (spelling, kind) ∈ Vocabulary.operators) {d : Char}
    (heq : spelling ++ rest = '-' :: d :: cs) : spelling.length = 1 := by
  have hminus : ∀ entry ∈ Vocabulary.operators, entry.1.head? = some '-' → entry.1.length = 1 := by
    decide
  obtain ⟨o, os, rfl⟩ :=
    List.exists_cons_of_length_pos (Vocabulary.length_le_two_of_mem_operators _ h).1
  exact hminus _ h (congrArg some (List.cons.inj heq).1)

/-- Where an operator stands, it is found or a longer token is. -/
theorem exists_found_operator (h : (spelling, kind) ∈ Vocabulary.operators)
    (heq : c :: cs = spelling ++ rest) :
    ∃ f, found? lastKind c cs = some f ∧ spelling.length ≤ f.spelling.length := by
  -- a minus sign may belong to a number, which is longer
  cases hnegative : startsNegative lastKind (spelling ++ rest) with
  | true =>
    obtain ⟨d, ds, hd, hsigned⟩ := eq_of_startsNegative hnegative
    rw [hsigned] at hnegative
    have hawaits : lastKind.any Token.Kind.awaitsOperand = true :=
      (Bool.and_eq_true_iff.mp hnegative).2
    refine ⟨_, found?_number (.inr ⟨rfl, hawaits⟩) hd (heq.trans hsigned), ?_⟩
    rw [length_of_minus h hsigned, number, List.length_append]
    exact Nat.le_add_right 1 _
  | false =>
    have found {spelling rest : List Char} {kind : Token.Kind}
        (h : Longest lastKind ⟨spelling, kind, spelling, rest⟩) (heq : c :: cs = spelling ++ rest) :
        found? lastKind c cs = some ⟨spelling, kind, spelling, rest⟩ :=
      (isFound_of_longest h).found?_eq heq.symm
    cases rest with
    | nil =>
      have hlast : ∀ d more, ([] : List Char) = d :: more →
          Vocabulary.operators.lookup (spelling ++ [d]) = none := fun d more he =>
        absurd he.symm (List.cons_ne_nil d more)
      exact ⟨_, found (.operator h hlast hnegative) heq, Nat.le_refl _⟩
    | cons d more =>
      -- one more character may make a longer operator, but no two more do
      cases hlookup : Vocabulary.operators.lookup (spelling ++ [d]) with
      | none =>
        refine ⟨_, found (.operator h ?_ hnegative) heq, Nat.le_refl _⟩
        rintro _ _ ⟨⟩
        exact hlookup
      | some kind' =>
        have hpos := (Vocabulary.length_le_two_of_mem_operators _ h).1
        have hlast : ∀ e ds, more = e :: ds →
            Vocabulary.operators.lookup (spelling ++ [d] ++ [e]) = none := fun e ds _ =>
          lookup_operators_of_length (by simp; omega)
        rw [List.append_cons] at heq hnegative
        exact ⟨_, found (.operator (mem_of_lookup hlookup) hlast hnegative) heq, by simp⟩

/-- Where a token is spelt, something is found that is no shorter. -/
theorem exists_found_of_lexical (h : Lexical spelling kind value)
    (hsign : kind = .number → spelling.head? = some '-' →
      lastKind.any Token.Kind.awaitsOperand = true)
    (hends : kind = .kwNotIn → rest.head?.any Text.isWord = false)
    (heq : c :: cs = spelling ++ rest) :
    ∃ f, found? lastKind c cs = some f ∧ spelling.length ≤ f.spelling.length := by
  have signs {sign more : List Char} (h : sign = [] ∨ sign = ['-'])
      (hawaits : (sign ++ more).head? = some '-' → lastKind.any Token.Kind.awaitsOperand = true) :
      Signs lastKind sign := h.imp_right fun h => ⟨h, hawaits (by rw [h]; rfl)⟩
  -- found is the run of its own class: words, numbers, literals and operators do not begin alike
  cases h with
  | @word d ds hd hds =>
    obtain ⟨rfl, rfl⟩ := List.cons.inj heq
    refine ⟨word (c :: ds ++ rest), if_pos hd, ?_⟩
    exact length_le_word (List.forall_mem_cons.mpr ⟨Text.isWord_of_startsWord hd, hds⟩) rest
  | @notIn spacing hne hspacing =>
    have hwords : "not".toList ++ spacing ++ "in".toList =
        ['n', 'o', 't'] ++ (spacing ++ ['i', 'n']) := List.append_assoc ..
    rw [hwords] at heq ⊢
    exact ⟨_, (isFound_of_longest (.notIn hne hspacing (hends rfl))).found?_eq heq.symm,
      Nat.le_refl _⟩
  | @whole sign digits hsigns hdigits =>
    obtain ⟨d, ds, rfl⟩ := List.exists_cons_of_ne_nil hdigits.1
    exact ⟨_, found?_number (signs hsigns (hsign rfl)) (hdigits.2 d (.head _))
      (heq.trans (List.append_assoc ..)), length_le_signed sign (length_le_number hdigits.2 rest)⟩
  | @pointed sign digits part hsigns hdigits hpart =>
    have hnumber : c :: cs = sign ++ (digits ++ '.' :: (part ++ rest)) := by rw [heq]; simp
    rw [List.append_assoc] at hsign ⊢
    obtain ⟨d, ds, rfl⟩ := List.exists_cons_of_ne_nil hdigits.1
    exact ⟨_, found?_number (signs hsigns (hsign rfl)) (hdigits.2 d (.head _)) hnumber,
      length_le_signed sign (length_le_number_of_part hdigits.2 hpart rest)⟩
  | string hquote hquoted =>
    exact ⟨_, (isFound_string hquote hquoted rest).found?_eq heq.symm, Nat.le_refl _⟩
  | operator h => exact exists_found_operator h heq

/-- **No token that is offered is longer than what is found**, where no tag is closed. -/
theorem Offers.exists_found (h : Offers tag depth lastKind (c :: cs) g)
    (hclosing : closing? tag depth (c :: cs) = none) : Lexical g.spelling g.kind g.value ∧
      ∃ f, found? lastKind c cs = some f ∧ g.spelling.length ≤ f.spelling.length := by
  obtain ⟨hadmissible, heq⟩ := h
  cases hadmissible with
  | closer rest hdepth =>
    rw [heq] at hclosing
    cases hclosing.symm.trans (closing?_closer hdepth rest)
  | token hlexical hsign hends =>
    exact ⟨hlexical, exists_found_of_lexical hlexical hsign hends heq⟩

/-! ### The longest token -/

/-- What is found may be taken. -/
theorem Longest.admissible (h : Longest lastKind f) : Admissible tag depth lastKind f := by
  have reserved : ∀ entry ∈ Vocabulary.keywords, entry.2 ≠ .number ∧ entry.2 ≠ .kwNotIn := by decide
  have made : ∀ entry ∈ Vocabulary.operators, entry.2 ≠ .number ∧ entry.2 ≠ .kwNotIn := by decide
  -- a sign is only taken into a number where an operand is awaited
  have awaits {sign digits : List Char} (more : List Char) (hsign : Signs lastKind sign)
      (hdigits : AllDigits digits) (hhead : (sign ++ (digits ++ more)).head? = some '-') :
      lastKind.any Token.Kind.awaitsOperand = true := by
    rcases hsign with rfl | ⟨-, hlast⟩
    · obtain ⟨d, ds, rfl⟩ := List.exists_cons_of_ne_nil hdigits.1
      obtain rfl : d = '-' := Option.some.inj hhead
      have hminus : Text.isDigit '-' = false := by decide +kernel
      cases hminus.symm.trans (hdigits.2 '-' (.head _))
    · exact hlast
  cases h with
  | @word c cs _ hc hcs =>
    have hkind := wordKind_of_forall (P := fun kind => kind ≠ .number ∧ kind ≠ .kwNotIn)
      (by decide) reserved (c :: cs)
    exact .token (.word hc hcs) (fun h => absurd h hkind.1) fun h => absurd h hkind.2
  | notIn hne hspacing hrest =>
    refine .token ?_ nofun fun _ => hrest
    rw [← List.append_assoc]
    exact .notIn hne hspacing
  | whole hsign hdigits =>
    refine .token (.whole (hsign.imp_right And.left) hdigits) (fun _ hhead => ?_) nofun
    exact awaits [] hsign hdigits (by simpa using hhead)
  | pointed hsign hdigits hpart =>
    refine .token ?_ (fun _ => awaits _ hsign hdigits) nofun
    rw [← List.append_assoc]
    exact .pointed (hsign.imp_right And.left) hdigits hpart
  | string hquote hquoted => exact .token (.string hquote hquoted) nofun nofun
  | operator h =>
    exact .token (.operator h) (fun hk => absurd hk (made _ h).1) fun hk => absurd hk (made _ h).2

/-- In front of the mark that closes a tag stands no token of two characters. -/
theorem length_of_closer (hfound : found? lastKind c cs = some f)
    (heq : c :: cs = tag.closer ++ rest) : f.spelling.length = 1 := by
  have mark {a b : Char} (kind : Token.Kind) (h : ([a], kind) ∈ Vocabulary.operators)
      (hlonger : Vocabulary.operators.lookup [a, b] = none)
      (hnegative : startsNegative lastKind (a :: b :: rest) = false)
      (heq : c :: cs = a :: b :: rest) : f.spelling.length = 1 := by
    have hlongest : Longest lastKind ⟨[a], kind, [a], b :: rest⟩ := by
      refine .operator h ?_ hnegative
      rintro _ _ ⟨⟩
      exact hlonger
    cases hfound.symm.trans ((isFound_of_longest hlongest).found?_eq heq.symm)
    rfl
  cases tag with
  | statement => exact mark .multiplicative (by decide) rfl rfl heq
  | expression => exact mark .rightBrace (by decide) rfl rfl heq

/-- The mark that closes the tag is the longest where it may be taken. -/
theorem offersLongest_closer (hclosing : closing? tag depth (c :: cs) = some rest) :
    OffersLongest tag depth lastKind (c :: cs) ⟨tag.closer, tag.closeKind, tag.closer, rest⟩ := by
  have heq := eq_of_closing? hclosing
  refine ⟨⟨.closer rest (depth_of_closing? hclosing), heq⟩, fun g hg => ?_⟩
  obtain ⟨hadmissible, hg⟩ := hg
  cases hadmissible with
  | closer rest' => exact .inl (by rw [List.append_cancel_left (heq.symm.trans hg)])
  | token hlexical hsign hends =>
    obtain ⟨f, hfound, hle⟩ := exists_found_of_lexical hlexical hsign hends hg
    have htwo : tag.closer.length = 2 := by cases tag <;> rfl
    rw [length_of_closer hfound heq] at hle
    exact .inr (Nat.lt_of_le_of_lt hle (htwo ▸ Nat.lt_succ_self 1))

/-- What is found is the longest where no tag is closed. -/
theorem offersLongest_found (hclosing : closing? tag depth (c :: cs) = none)
    (hfound : found? lastKind c cs = some f) : OffersLongest tag depth lastKind (c :: cs) f := by
  obtain ⟨heq, hlexical⟩ := lexical_of_found? hfound
  refine ⟨⟨(longest_of_found? hfound).admissible, heq⟩, fun g hg => ?_⟩
  obtain ⟨hlexical', f', hfound', hle⟩ := hg.exists_found hclosing
  cases hfound.symm.trans hfound'
  refine (Nat.lt_or_eq_of_le hle).symm.imp_left fun hlength => ?_
  -- a spelling of the same length is the same, and so is what it stands for
  obtain ⟨hspelling, hrest⟩ := List.append_inj (hg.text_eq.symm.trans heq) hlength
  obtain ⟨spelling, kind, value, rest⟩ := f
  obtain ⟨spelling', kind', value', rest'⟩ := g
  cases hspelling
  cases hrest
  obtain ⟨rfl, rfl⟩ := hlexical.content_unique hlexical'
  rfl

/-- **Inside a tag the lexer takes the longest token there is.**  Behind spacing it takes what every
other token at the front of the text falls short of.  If no token may be taken there, a string does
not end or the character cannot stand there. -/
theorem longest_offer_taken (htag : lexer.openTag = some tag)
    (hw : ∀ d ∈ w, Text.isSpacing d = true) (hc : Text.isSpacing c = false)
    (hrest : lexer.cursor.rest = w ++ c :: cs) :
    (∃ f lexer', OffersLongest tag lexer.braceDepth lexer.lastKind (c :: cs) f ∧
      next.run lexer = .ok (f.tokenAt (lexer.cursor.place.after w)) lexer' ∧
      lexer'.cursor = ⟨(lexer.cursor.place.after w).after f.spelling, f.rest⟩) ∨
    ((∀ f, ¬ Offers tag lexer.braceDepth lexer.lastKind (c :: cs) f) ∧ ∃ lexer',
      next.run lexer = .error
        ((if c = '\x22' ∨ c = '\x27' then Flaw.string else .character c).errorAt
          (lexer.cursor.place.after w)) lexer') := by
  obtain ⟨htake, hdrop⟩ := span_of_head hw (show (c :: cs).head?.any Text.isSpacing = false from hc)
  have hcursor : lexer.atToken.cursor = ⟨lexer.cursor.place.after w, c :: cs⟩ := by
    rw [atToken, hrest, htake, hdrop]
    rfl
  have hplace : lexer.cursor.place.after w = lexer.atToken.cursor.place := by rw [hcursor]
  have hrest' : lexer.atToken.cursor.rest = c :: cs := by rw [hcursor]
  rw [next_atToken htag, hplace]
  -- a mark that may close the tag is taken first, and nothing longer begins with it
  cases hclosing : closing? tag lexer.braceDepth (c :: cs) with
  | some rest =>
    exact .inl ⟨_, _, offersLongest_closer hclosing, next_of_closing? htag hrest' hc hclosing, rfl⟩
  | none =>
    cases hfound : found? lexer.lastKind c cs with
    | some f =>
      exact .inl ⟨f, _, offersLongest_found hclosing hfound,
        next_of_found htag hrest' hc hclosing hfound, rfl⟩
    | none =>
      refine .inr ⟨fun f hf => ?_, _, next_of_not_found htag hrest' hc hclosing hfound⟩
      obtain ⟨-, _, hfound', -⟩ := hf.exists_found hclosing
      cases hfound.symm.trans hfound'

/-- Inside an expression behind a plus sign, in front of `-1.5`. -/
def sampleInside : Lexer :=
  ⟨⟨⟨6, 1, 7⟩, [' ', '-', '1', '.', '5', '}', '}']⟩, some .expression, 0, some .additive⟩

/-- Of the minus sign, `-1` and `-1.5` the lexer takes the last. -/
theorem longest_offer_taken_sample : sampleInside.openTag = some .expression ∧
    (∀ d ∈ [' '], Text.isSpacing d = true) ∧ Text.isSpacing '-' = false ∧
    ∃ f lexer', OffersLongest .expression 0 (some .additive) ['-', '1', '.', '5', '}', '}'] f ∧
      next.run sampleInside = .ok (f.tokenAt ⟨7, 1, 8⟩) lexer' ∧
      f.tokenAt ⟨7, 1, 8⟩ = ⟨.number, "-1.5", 1, 8⟩ := by
  have htag : sampleInside.openTag = some .expression := rfl
  have hspacing : ∀ d ∈ [' '], Text.isSpacing d = true := List.forall_mem_singleton.mpr rfl
  have hminus : Text.isSpacing '-' = false := rfl
  have hrest : sampleInside.cursor.rest = [' '] ++ '-' :: ['1', '.', '5', '}', '}'] := rfl
  obtain ⟨lexer', hrun⟩ : ∃ lexer', next.run sampleInside = .ok ⟨.number, "-1.5", 1, 8⟩ lexer' :=
    ⟨_, rfl⟩
  refine ⟨htag, hspacing, hminus, ?_⟩
  rcases longest_offer_taken htag hspacing hminus hrest with
    ⟨f, lexer'', hlongest, hnext, -⟩ | ⟨-, lexer'', hnext⟩
  · exact ⟨f, lexer'', hlongest, hnext, (EStateM.Result.ok.inj (hnext.symm.trans hrun)).1⟩
  · cases hnext.symm.trans hrun

end Stencil.Lexer
