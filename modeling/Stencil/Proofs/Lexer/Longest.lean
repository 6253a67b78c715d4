import Stencil.Proofs.Lexer.Scan
import Stencil.Proofs.Text.Character

/-!
# Lexer — the longest token

What is found at the front of a text inside a tag is a token that ends where it has to: a word or a
number at a character that is none of it, an operator where no longer one stands, and `not` where no
`in` follows (`Longest`).  This decides what is found (`longest_of_found?`, `isFound_of_longest`), so
that the text behind a token counts for no more than `Longest` says.

Inside a tag the front of a text is then spacing (`scan_spacing`), the mark that closes the tag
(`scan_closer`) or the longest token (`scan_of_longest`), and no fourth thing stands for a token
(`closer_or_longest`).
-/

namespace Stencil.Lexer

variable {tag : Tag} {depth : Nat} {lastKind : Option Token.Kind} {m : Mode} {s : Segment} {f : Found}
  {kind : Token.Kind} {c : Char} {w cs digits part spelling value rest : List Char}

/-! ### Where a token ends -/

/-- What is left begins with something else. -/
theorem head?_dropWhile (p : Char → Bool) (cs : List Char) :
    (cs.dropWhile p).head?.any p = false := by
  have hend := List.head?_dropWhile_not p cs
  cases h : (cs.dropWhile p).head? with
  | none => rfl
  | some c =>
    rw [h] at hend
    exact hend

/-- Spacing up to something else is one segment. -/
theorem scan_spacing (hw : ∀ d ∈ c :: w, Text.isSpacing d = true)
    (hrest : rest.head?.any Text.isSpacing = false) :
    scan (.inside tag depth lastKind) (c :: w ++ rest) =
      .segment ⟨c :: w, none⟩ (.inside tag depth lastKind) rest := by
  obtain ⟨htake, hdrop⟩ := span_of_head hw hrest
  rw [List.cons_append] at htake hdrop ⊢
  rw [scan, scanInside, if_pos (hw c (.head w)), htake, hdrop]

/-- No digit is behind a point at the front. -/
def NoPart (rest : List Char) : Prop := ∀ c more, rest = '.' :: c :: more → Text.isDigit c = false

/-- A sign that belongs to a number: none, or a minus sign where an operand has to come. -/
def Signs (lastKind : Option Token.Kind) (sign : List Char) : Prop :=
  sign = [] ∨ sign = ['-'] ∧ lastKind.any Token.Kind.awaitsOperand = true

/-- A token in front of what is left, which does not go on with it. -/
inductive Longest (lastKind : Option Token.Kind) : Found → Prop
  | word {c : Char} {cs rest : List Char} : Text.startsWord c = true →
      (∀ d ∈ cs, Text.isWord d = true) → rest.head?.any Text.isWord = false →
      (c :: cs = ['n', 'o', 't'] → Lexeme.memberWord? rest = none) →
      Longest lastKind ⟨c :: cs, Vocabulary.wordKind (c :: cs), c :: cs, rest⟩
  | notIn {spacing rest : List Char} : spacing ≠ [] → (∀ c ∈ spacing, Text.isSpacing c = true) →
      rest.head?.any Text.isWord = false → Longest lastKind
        ⟨['n', 'o', 't'] ++ (spacing ++ ['i', 'n']), .kwNotIn, ['n', 'o', 't', ' ', 'i', 'n'], rest⟩
  | whole {sign digits rest : List Char} : Signs lastKind sign → AllDigits digits →
      rest.head?.any Text.isDigit = false → NoPart rest →
      Longest lastKind ⟨sign ++ digits, .number, sign ++ digits, rest⟩
  | pointed {sign digits part rest : List Char} : Signs lastKind sign → AllDigits digits →
      AllDigits part → rest.head?.any Text.isDigit = false → Longest lastKind
        ⟨sign ++ (digits ++ '.' :: part), .number, sign ++ (digits ++ '.' :: part), rest⟩
  | string {quote : Char} {spelling value rest : List Char} : quote = '\x22' ∨ quote = '\x27' →
      Quoted quote spelling value →
      Longest lastKind ⟨quote :: (spelling ++ [quote]), .string, value, rest⟩
  | operator {spelling rest : List Char} {kind : Token.Kind} :
      (spelling, kind) ∈ Vocabulary.operators →
      (∀ c more, rest = c :: more → Vocabulary.operators.lookup (spelling ++ [c]) = none) →
      startsNegative lastKind (spelling ++ rest) = false →
      Longest lastKind ⟨spelling, kind, spelling, rest⟩

/-! ### Words -/

/-- The words of spacing in front of `in` are found where that is a word. -/
theorem memberWord?_of_spacing (hspacing : ∀ c ∈ w, Text.isSpacing c = true)
    (hrest : rest.head?.any Text.isWord = false) :
    Lexeme.memberWord? (w ++ 'i' :: 'n' :: rest) = some (w, rest) := by
  have hhead : ('i' :: 'n' :: rest).head?.any Text.isSpacing = false := rfl
  obtain ⟨htake, hdrop⟩ := span_of_head hspacing hhead
  rw [Lexeme.memberWord?, hdrop, htake]
  exact if_neg (Bool.eq_false_iff.mp hrest)

/-- Where a word `in` follows, it is one that ends. -/
theorem head?_of_memberWord? {found : List Char × List Char}
    (h : Lexeme.memberWord? cs = some found) : found.2.head?.any Text.isWord = false := by
  unfold Lexeme.memberWord? at h
  split at h
  · split at h
    · cases h
    · rename_i hrest
      cases h
      exact Bool.eq_false_iff.mpr hrest
  · cases h

/-- Characters of words, with none behind them, are read as one word. -/
theorem word_of_head (hw : ∀ d ∈ w, Text.isWord d = true) (hrest : rest.head?.any Text.isWord = false)
    (hnot : w = ['n', 'o', 't'] → Lexeme.memberWord? rest = none) :
    word (w ++ rest) = ⟨w, Vocabulary.wordKind w, w, rest⟩ := by
  obtain ⟨htake, hdrop⟩ := span_of_head hw hrest
  rw [word, htake, hdrop]
  split_ifs with h
  · rw [hnot h]
  · rfl

/-- `not`, spacing and `in`, with no character of a word behind them, are read as one. -/
theorem word_notIn (hne : w ≠ []) (hspacing : ∀ c ∈ w, Text.isSpacing c = true)
    (hrest : rest.head?.any Text.isWord = false) :
    word (['n', 'o', 't'] ++ (w ++ 'i' :: 'n' :: rest)) =
      ⟨['n', 'o', 't'] ++ (w ++ ['i', 'n']), .kwNotIn, ['n', 'o', 't', ' ', 'i', 'n'], rest⟩ := by
  have hletters : ['n', 'o', 't'].all Text.isWord = true := by decide +kernel
  have hhead : (w ++ 'i' :: 'n' :: rest).head?.any Text.isWord = false := by
    obtain ⟨c, cs, rfl⟩ := List.exists_cons_of_ne_nil hne
    exact Text.isWord_of_isSpacing (hspacing c (.head _))
  obtain ⟨htake, hdrop⟩ := span_of_head (List.all_eq_true.mp hletters) hhead
  rw [word, htake, hdrop, if_pos rfl, memberWord?_of_spacing hspacing hrest]

/-- What is read as a word is the longest token that begins there. -/
theorem longest_word (hc : Text.startsWord c = true) (cs : List Char) :
    Longest lastKind (word (c :: cs)) := by
  have hword : (c :: cs).takeWhile Text.isWord = c :: cs.takeWhile Text.isWord :=
    List.takeWhile_cons_of_pos (Text.isWord_of_startsWord hc)
  unfold word
  dsimp only
  split
  · rename_i spacing rest hmember
    split at hmember
    · rename_i hnot
      rw [hnot]
      exact .notIn (ne_nil_of_memberWord? hmember) (eq_of_memberWord? hmember).2
        (head?_of_memberWord? hmember)
    · cases hmember
  · rename_i hmember
    rw [hword] at hmember ⊢
    refine .word hc (fun d hd => List.mem_takeWhile_imp hd) (head?_dropWhile _ _) fun hnot => ?_
    rwa [if_pos hnot] at hmember

/-! ### Numbers -/

/-- Digits without a point and more digits behind them are read as an integer. -/
theorem number_of_noPart (hdigits : ∀ d ∈ digits, Text.isDigit d = true)
    (hrest : rest.head?.any Text.isDigit = false) (hpart : NoPart rest) :
    Lexeme.number (digits ++ rest) = (digits, rest) := by
  obtain ⟨htake, hdrop⟩ := span_of_head hdigits hrest
  rw [Lexeme.number, htake, hdrop]
  split
  · rename_i d more
    exact if_neg (Bool.eq_false_iff.mp (hpart d more rfl))
  · rfl

/-- Digits, a point and digits are read as one number. -/
theorem number_of_part (hdigits : ∀ d ∈ digits, Text.isDigit d = true) (hpart : AllDigits part)
    (hrest : rest.head?.any Text.isDigit = false) :
    Lexeme.number (digits ++ '.' :: (part ++ rest)) = (digits ++ '.' :: part, rest) := by
  have hpoint : Text.isDigit '.' = false := by decide +kernel
  have hhead : ('.' :: (part ++ rest)).head?.any Text.isDigit = false := hpoint
  obtain ⟨htake, hdrop⟩ := span_of_head hdigits hhead
  obtain ⟨htake', hdrop'⟩ := span_of_head hpart.2 hrest
  rw [Lexeme.number, htake, hdrop]
  obtain ⟨d, ds, rfl⟩ := List.exists_cons_of_ne_nil hpart.1
  have hd : Text.isDigit d = true := hpart.2 d (.head _)
  show (if Text.isDigit d = true then (digits ++ '.' :: (d :: ds ++ rest).takeWhile Text.isDigit,
    (d :: ds ++ rest).dropWhile Text.isDigit) else _) = _
  rw [if_pos hd, htake', hdrop']

/-- What is read as a number is the longest token that begins there, with its sign if it has one. -/
theorem longest_number {sign : List Char} (hsign : Signs lastKind sign)
    (hc : Text.isDigit c = true) (cs : List Char) : Longest lastKind (number sign (c :: cs)) := by
  have hwhole := allDigits_takeWhile hc cs
  have hhead := head?_dropWhile Text.isDigit (c :: cs)
  rw [number, Lexeme.number]
  split
  · rename_i d more hmore
    split
    · rename_i hd
      exact .pointed hsign hwhole (allDigits_takeWhile hd more) (head?_dropWhile _ _)
    · rename_i hd
      rw [hmore] at hhead
      refine .whole hsign hwhole hhead fun e ds heq => ?_
      cases heq
      exact Bool.eq_false_iff.mpr hd
  · rename_i hno
    exact .whole hsign hwhole hhead fun e ds heq => absurd heq (hno e ds)

/-! ### Operators -/

/-- No operator is longer than two characters. -/
theorem lookup_operators_of_length (h : 2 < w.length) : Vocabulary.operators.lookup w = none := by
  cases hlookup : Vocabulary.operators.lookup w with
  | none => rfl
  | some kind =>
    have hlength := Vocabulary.length_le_two_of_mem_operators _ (mem_of_lookup hlookup)
    exact absurd hlength.2 (Nat.not_le_of_gt h)

theorem lookup_operators : ∀ entry ∈ Vocabulary.operators,
    Vocabulary.operators.lookup entry.1 = some entry.2 := by
  decide

/-- An operator is found where no longer one is at hand. -/
theorem operator?_of_mem (h : (spelling, kind) ∈ Vocabulary.operators)
    (hlonger : ∀ c more, rest = c :: more → Vocabulary.operators.lookup (spelling ++ [c]) = none) :
    Lexeme.operator? (spelling ++ rest) = some (kind, spelling, rest) := by
  have hlookup := lookup_operators _ h
  obtain ⟨hpos, hle⟩ := Vocabulary.length_le_two_of_mem_operators _ h
  match spelling, rest with
  | [a], [] =>
    have hlookup : Vocabulary.operators.lookup [a] = some kind := hlookup
    simp [Lexeme.operator?, hlookup]
  | [a], b :: rest =>
    have hlookup : Vocabulary.operators.lookup [a] = some kind := hlookup
    have hlonger : Vocabulary.operators.lookup [a, b] = none := hlonger b rest rfl
    simp [Lexeme.operator?, hlookup, hlonger]
  | [a, b], rest =>
    have hlookup : Vocabulary.operators.lookup [a, b] = some kind := hlookup
    simp [Lexeme.operator?, hlookup]

/-- The operator that is found is the longest token, unless it is the sign of a number. -/
theorem longest_of_operator? (h : Lexeme.operator? cs = some (kind, spelling, rest))
    (hnegative : startsNegative lastKind cs = false) :
    Longest lastKind ⟨spelling, kind, spelling, rest⟩ := by
  have hsplit := Lexeme.eq_of_operator? h
  rw [hsplit] at hnegative
  unfold Lexeme.operator? at h
  split at h
  · cases h
  · obtain ⟨k, hk, he⟩ := Option.map_eq_some_iff.mp h
    cases he
    exact .operator (mem_of_lookup hk) nofun hnegative
  · rename_i a b more
    split at h
    · rename_i hk
      cases h
      exact .operator (mem_of_lookup hk)
        (fun c _ _ => lookup_operators_of_length (by simp)) hnegative
    · rename_i hnone
      obtain ⟨k, hk, he⟩ := Option.map_eq_some_iff.mp h
      cases he
      refine .operator (mem_of_lookup hk) (fun c ds heq => ?_) hnegative
      cases heq
      exact hnone

/-! ### Any token -/

/-- **What is found is the longest token.** -/
theorem longest_of_found? (h : found? lastKind c cs = some f) : Longest lastKind f := by
  unfold found? at h
  split_ifs at h with hstarts hdigit hnegative hquote
  · cases h
    exact longest_word hstarts cs
  · cases h
    exact longest_number (.inl rfl) hdigit cs
  · obtain ⟨d, ds, hd, heq⟩ := eq_of_startsNegative hnegative
    cases heq
    cases h
    have hlast : lastKind.any Token.Kind.awaitsOperand = true :=
      (Bool.and_eq_true_iff.mp hnegative).2
    exact longest_number (.inr ⟨rfl, hlast⟩) hd ds
  · obtain ⟨q, hq, rfl⟩ := Option.map_eq_some_iff.mp h
    obtain ⟨inside, hspelling, hquoted⟩ := quoted_of_quotation? hq
    rw [hspelling]
    exact .string hquote hquoted
  · obtain ⟨⟨kind, spelling, rest⟩, ho, rfl⟩ := Option.map_eq_some_iff.mp h
    exact longest_of_operator? ho (Bool.eq_false_iff.mpr hnegative)

theorem isSpacing_of_isWord (hc : Text.isWord c = true) : Text.isSpacing c = false := by
  rw [← Bool.not_eq_true]
  intro hspacing
  cases hc.symm.trans (Text.isWord_of_isSpacing hspacing)

/-- No character of an operator is spacing, or begins a word, a number or a literal. -/
theorem operators_apart : ∀ entry ∈ Vocabulary.operators, ∀ c ∈ entry.1,
    Text.isSpacing c = false ∧ Text.startsWord c = false ∧ Text.isDigit c = false ∧
      c ≠ '\x22' ∧ c ≠ '\x27' := by
  have hall : ∀ entry ∈ Vocabulary.operators, entry.1.all (fun c => decide (Text.isSpacing c = false ∧
      Text.startsWord c = false ∧ Text.isDigit c = false ∧ c ≠ '\x22' ∧ c ≠ '\x27')) = true := by
    decide +kernel
  exact fun entry hentry c hc => of_decide_eq_true (List.all_eq_true.mp (hall entry hentry) c hc)

/-- The token is found in front of what is left, where no spacing stands. -/
def IsFound (lastKind : Option Token.Kind) (f : Found) : Prop :=
  ∃ c cs, f.spelling ++ f.rest = c :: cs ∧ Text.isSpacing c = false ∧ found? lastKind c cs = some f

theorem isFound_word (hc : Text.startsWord c = true)
    (hword : word (c :: cs ++ rest) = ⟨c :: cs, kind, value, rest⟩) :
    IsFound lastKind ⟨c :: cs, kind, value, rest⟩ := by
  refine ⟨c, cs ++ rest, rfl, isSpacing_of_isWord (Text.isWord_of_startsWord hc), ?_⟩
  rw [found?, if_pos hc, ← List.cons_append, hword]

/-- A number is found behind its sign. -/
theorem found?_number {sign : List Char} {d : Char} {ds : List Char} (hsign : Signs lastKind sign)
    (hd : Text.isDigit d = true) (heq : c :: cs = sign ++ d :: ds) :
    found? lastKind c cs = some (number sign (d :: ds)) := by
  rcases hsign with rfl | ⟨rfl, hlast⟩
  · obtain ⟨rfl, rfl⟩ := List.cons.inj heq
    rw [found?, if_neg (Bool.eq_false_iff.mp (Text.startsWord_of_isDigit hd)), if_pos hd]
  · obtain ⟨rfl, rfl⟩ := List.cons.inj heq
    have hminus : ¬ Text.startsWord '-' = true ∧ ¬ Text.isDigit '-' = true := by decide +kernel
    have hnegative : startsNegative lastKind ('-' :: d :: ds) = true := by
      simp [startsNegative, hd, hlast]
    exact (if_neg hminus.1).trans ((if_neg hminus.2).trans (if_pos hnegative))

theorem isFound_number {sign number : List Char} {d : Char} (hsign : Signs lastKind sign)
    (hd : Text.isDigit d = true)
    (hnumber : Lexeme.number (d :: number ++ rest) = (d :: number, rest)) :
    IsFound lastKind ⟨sign ++ d :: number, .number, sign ++ d :: number, rest⟩ := by
  rcases hsign with rfl | ⟨rfl, hlast⟩
  · refine ⟨d, number ++ rest, rfl, isSpacing_of_isWord (Text.isWord_of_isDigit hd), ?_⟩
    rw [found?_number (.inl rfl) hd rfl, Lexer.number, ← List.cons_append, hnumber]
  · refine ⟨'-', d :: (number ++ rest), rfl, rfl, ?_⟩
    have hfound : found? lastKind '-' (d :: (number ++ rest)) = _ :=
      found?_number (.inr ⟨rfl, hlast⟩) hd rfl
    rw [hfound, Lexer.number, ← List.cons_append, hnumber]

theorem isFound_string {quote : Char} (hquote : quote = '\x22' ∨ quote = '\x27')
    (h : Quoted quote spelling value) (rest : List Char) :
    IsFound lastKind ⟨quote :: (spelling ++ [quote]), .string, value, rest⟩ := by
  have hquotes : ∀ q : Char, q = '\x22' ∨ q = '\x27' → Text.isSpacing q = false ∧
      ¬ Text.startsWord q = true ∧ ¬ Text.isDigit q = true ∧ q ≠ '-' ∧ q ≠ '\\' := by
    rintro q (rfl | rfl) <;> decide +kernel
  obtain ⟨hspacing, hstarts, hdigit, hminus, hescape⟩ := hquotes quote hquote
  have hnegative : ¬ startsNegative lastKind (quote :: (spelling ++ quote :: rest)) = true := by
    intro hnegative
    obtain ⟨d, ds, -, heq⟩ := eq_of_startsNegative hnegative
    exact hminus (List.cons.inj heq).1
  refine ⟨quote, spelling ++ quote :: rest, by simp, hspacing, ?_⟩
  rw [found?, if_neg hstarts, if_neg hdigit, if_neg hnegative, if_pos hquote,
    quotation?_of_quoted hescape h]
  rfl

/-- An operator is what is found, unless a longer one or the sign of a number is at hand. -/
theorem isFound_operator (h : (spelling, kind) ∈ Vocabulary.operators)
    (hlonger : ∀ c more, rest = c :: more → Vocabulary.operators.lookup (spelling ++ [c]) = none)
    (hnegative : startsNegative lastKind (spelling ++ rest) = false) :
    IsFound lastKind ⟨spelling, kind, spelling, rest⟩ := by
  have hfound := operator?_of_mem h hlonger
  obtain ⟨c, cs, rfl⟩ :=
    List.exists_cons_of_length_pos (Vocabulary.length_le_two_of_mem_operators _ h).1
  obtain ⟨hspacing, hstarts, hdigit, hquotes⟩ := operators_apart _ h c (.head _)
  refine ⟨c, cs ++ rest, rfl, hspacing, ?_⟩
  rw [List.cons_append] at hfound hnegative
  rw [found?, if_neg (Bool.eq_false_iff.mp hstarts), if_neg (Bool.eq_false_iff.mp hdigit),
    if_neg (Bool.eq_false_iff.mp hnegative), if_neg (not_or.mpr hquotes), hfound]
  rfl

/-- **The longest token is found.** -/
theorem isFound_of_longest (h : Longest lastKind f) : IsFound lastKind f := by
  cases h with
  | word hc hcs hrest hnot =>
    exact isFound_word hc
      (word_of_head (List.forall_mem_cons.mpr ⟨Text.isWord_of_startsWord hc, hcs⟩) hrest hnot)
  | @notIn spacing rest hne hspacing hrest =>
    have hstarts : Text.startsWord 'n' = true := by decide +kernel
    refine ⟨'n', 'o' :: 't' :: (spacing ++ 'i' :: 'n' :: rest), by simp, rfl, ?_⟩
    rw [found?, if_pos hstarts]
    exact congrArg some (word_notIn hne hspacing hrest)
  | whole hsign hdigits hrest hpart =>
    obtain ⟨d, ds, rfl⟩ := List.exists_cons_of_ne_nil hdigits.1
    exact isFound_number hsign (hdigits.2 d (.head _)) (number_of_noPart hdigits.2 hrest hpart)
  | @pointed sign digits part rest hsign hdigits hpart hrest =>
    obtain ⟨d, ds, rfl⟩ := List.exists_cons_of_ne_nil hdigits.1
    refine isFound_number hsign (hdigits.2 d (.head _)) ?_
    simpa using number_of_part hdigits.2 hpart hrest
  | string hquote hquoted => exact isFound_string hquote hquoted _
  | operator hmem hlonger hnegative => exact isFound_operator hmem hlonger hnegative

/-! ### What is scanned -/

/-- **The longest token is scanned**, unless it begins with the mark that closes the tag. -/
theorem scan_of_longest (h : Longest lastKind f)
    (hclosing : closing? tag depth (f.spelling ++ f.rest) = none) :
    scan (.inside tag depth lastKind) (f.spelling ++ f.rest) =
      .segment ⟨f.spelling, some (f.kind, f.value)⟩
        (.inside tag (depthAfter depth f.kind) (some f.kind)) f.rest := by
  obtain ⟨c, cs, heq, hspacing, hfound⟩ := isFound_of_longest h
  rw [heq] at hclosing ⊢
  rw [scan, scanInside, if_neg (Bool.eq_false_iff.mp hspacing), hclosing, hfound]

/-- A closer closes its tag where no brace is open in it. -/
theorem closing?_closer (hdepth : tag = .expression → depth = 0) (rest : List Char) :
    closing? tag depth (tag.closer ++ rest) = some rest := by
  cases tag with
  | statement => rfl
  | expression => exact if_pos ⟨rfl, hdepth rfl⟩

theorem scan_closer (hdepth : tag = .expression → depth = 0) (rest : List Char) :
    scan (.inside tag depth lastKind) (tag.closer ++ rest) =
      .segment ⟨tag.closer, some (tag.closeKind, tag.closer)⟩ .outside rest := by
  cases tag with
  | statement => rfl
  | expression =>
    obtain rfl := hdepth rfl
    rfl

/-- What is scanned to be a token does not begin with spacing. -/
theorem head_of_content (h : scan (.inside tag depth lastKind) cs = .segment s m rest)
    (hs : s.content ≠ none) : cs.head?.any Text.isSpacing = false := by
  rw [scan, scanInside.eq_def] at h
  split at h
  · rfl
  split at h
  · cases h
    exact absurd rfl hs
  · rename_i hc
    exact Bool.eq_false_iff.mpr hc

/-- What stands for a token inside a tag is the mark that closes it, or the longest token. -/
theorem closer_or_longest (h : scan (.inside tag depth lastKind) cs = .segment s m rest)
    (hs : s.content ≠ none) : (s = ⟨tag.closer, some (tag.closeKind, tag.closer)⟩ ∧ m = .outside ∧
        cs = tag.closer ++ rest ∧ (tag = .expression → depth = 0)) ∨
      ∃ f : Found, Longest lastKind f ∧ cs = f.spelling ++ f.rest ∧ closing? tag depth cs = none ∧
        s = ⟨f.spelling, some (f.kind, f.value)⟩ ∧
        m = .inside tag (depthAfter depth f.kind) (some f.kind) ∧ rest = f.rest := by
  rw [scan, scanInside.eq_def] at h
  split at h
  · cases h
  split at h
  · cases h
    exact absurd rfl hs
  split at h
  · rename_i hclosing
    cases h
    exact .inl ⟨rfl, rfl, eq_of_closing? hclosing, depth_of_closing? hclosing⟩
  rename_i hclosing
  split at h
  · rename_i f hfound
    cases h
    exact .inr ⟨f, longest_of_found? hfound, (lexical_of_found? hfound).1, hclosing, rfl, rfl, rfl⟩
  · cases h

/-- Only one word is the operator `in`. -/
theorem eq_in_of_wordKind (h : Vocabulary.wordKind w = .kwIn) : w = ['i', 'n'] := by
  have hkeywords : ∀ entry ∈ Vocabulary.keywords, entry.2 = .kwIn → entry.1 = ['i', 'n'] := by decide
  unfold Vocabulary.wordKind at h
  cases hlookup : Vocabulary.keywords.lookup w with
  | none => rw [hlookup] at h; cases h
  | some kind =>
    rw [hlookup] at h
    exact hkeywords _ (mem_of_lookup hlookup) h

/-- The token is the word `in` only if that word stands there and ends. -/
theorem Longest.eq_of_kwIn (h : Longest lastKind f) (hf : f.kind = .kwIn) :
    f.spelling = ['i', 'n'] ∧ f.rest.head?.any Text.isWord = false := by
  cases h with
  | word hc hcs hhead => exact ⟨eq_in_of_wordKind hf, hhead⟩
  | notIn | whole | pointed | string => cases hf
  | operator hmem =>
    have hkind : ∀ entry ∈ Vocabulary.operators, entry.2 ≠ .kwIn := by decide
    exact absurd hf (hkind _ hmem)

/-- **The word `in` follows where it is the next token**, whatever spacing is between. -/
theorem memberWord?_eq_none_iff (hw : ∀ c ∈ w, Text.isSpacing c = true)
    (h : scan (.inside tag depth lastKind) cs = .segment s m rest)
    (hs : s.content = some (kind, value)) :
    Lexeme.memberWord? (w ++ cs) = none ↔ kind ≠ .kwIn := by
  have hcontent := hs ▸ Option.some_ne_none (kind, value)
  have hstarts : Text.startsWord 'i' = true := by decide +kernel
  have hletter : ∀ d ∈ ['n'], Text.isWord d = true :=
    List.forall_mem_singleton.mpr (by decide +kernel)
  constructor
  · rintro hmember rfl
    rcases closer_or_longest h hcontent with ⟨rfl, -⟩ | ⟨f, hlongest, rfl, -, rfl, -⟩
    · cases tag <;> cases hs
    · have hkind : f.kind = .kwIn := congrArg Prod.fst (Option.some.inj hs)
      obtain ⟨hspelling, hhead⟩ := hlongest.eq_of_kwIn hkind
      rw [hspelling] at hmember
      cases hmember.symm.trans (memberWord?_of_spacing hw hhead)
  · intro hkind
    cases hmember : Lexeme.memberWord? (w ++ cs) with
    | none => rfl
    | some found =>
      obtain ⟨heq, hspacing⟩ := eq_of_memberWord? hmember
      have hhead : (['i', 'n'] ++ found.2).head?.any Text.isSpacing = false := rfl
      have hdrop := congrArg (List.dropWhile Text.isSpacing) heq
      rw [List.append_assoc, (span_of_head hw (head_of_content h hcontent)).2,
        (span_of_head hspacing hhead).2] at hdrop
      subst hdrop
      -- the word `in` is what is scanned here
      have hlongest : Longest lastKind _ :=
        .word hstarts hletter (head?_of_memberWord? hmember) nofun
      cases h.symm.trans (scan_of_longest hlongest rfl)
      cases hs
      exact absurd rfl hkind

end Stencil.Lexer
