import Mathlib.Data.List.TakeWhile
import Stencil.Proofs.Lexer.Segment

/-!
# Lexer — what the lexemes are

Each function that recognises a spelling at the front of a text recognises a segment of the kind that
it is for: plain text is maximal (`isPlain_text`, `text_of_isPlain`), a comment ends at the first
closing mark (`endsAtMark_of_commentEnd?`), and the spellings inside a tag are `Lexical`.
-/

namespace Stencil.Lexer

/-! ### Outside tags -/

/-- Where none of the three openers is at hand, no markup starts. -/
theorem startsMarkup_eq_false {cs : List Char} (hstatement : ∀ ds, cs = '{' :: '%' :: ds → False)
    (hexpression : ∀ ds, cs = '{' :: '{' :: ds → False)
    (hcomment : ∀ ds, cs = '{' :: '#' :: ds → False) : Lexeme.startsMarkup cs = false := by
  unfold Lexeme.startsMarkup
  split
  · exact absurd rfl (hstatement _)
  · exact absurd rfl (hexpression _)
  · exact absurd rfl (hcomment _)
  · rfl

/-- The run of plain text has no markup in it, and markup or the end comes behind it. -/
theorem isPlain_text (cs : List Char) : IsPlain (Lexeme.text cs).1 (Lexeme.text cs).2 ∧
    ((Lexeme.text cs).2 = [] ∨ Lexeme.startsMarkup (Lexeme.text cs).2 = true) := by
  have nothing (rest : List Char) : IsPlain [] rest := fun before behind h hne =>
    absurd (List.append_eq_nil_iff.mp h.symm).2 hne
  induction cs with
  | nil => exact ⟨nothing [], .inl rfl⟩
  | cons c cs ih =>
    rw [Lexeme.text]
    split
    · rename_i hmarkup
      exact ⟨nothing _, .inr hmarkup⟩
    · rename_i hmarkup
      refine ⟨fun before behind h hne => ?_, ih.2⟩
      cases before with
      | nil =>
        subst h
        simpa only [List.cons_append, Lexeme.text_append] using Bool.eq_false_iff.mpr hmarkup
      | cons d before => exact ih.1 before behind (List.cons.inj h).2 hne

/-- No other run is plain text up to a tag or comment. -/
theorem text_of_isPlain {run rest : List Char} (hplain : IsPlain run rest)
    (hrest : rest = [] ∨ Lexeme.startsMarkup rest = true) : Lexeme.text (run ++ rest) = (run, rest) := by
  induction run with
  | nil =>
    cases rest with
    | nil => rfl
    | cons c cs => rw [List.nil_append, Lexeme.text, if_pos (hrest.resolve_left (List.cons_ne_nil _ _))]
  | cons c run ih =>
    have hfront : Lexeme.startsMarkup (c :: (run ++ rest)) = false :=
      hplain [] (c :: run) rfl (List.cons_ne_nil _ _)
    have hplain' : IsPlain run rest := fun before behind h hne =>
      hplain (c :: before) behind (by rw [h, List.cons_append]) hne
    rw [List.cons_append, Lexeme.text, hfront, if_neg Bool.false_ne_true, ih hplain']

/-- Where no markup starts and something is left, there is plain text. -/
theorem text_ne_nil {cs : List Char} (hne : cs ≠ []) (h : Lexeme.startsMarkup cs = false) :
    (Lexeme.text cs).1 ≠ [] := by
  cases cs with
  | nil => exact absurd rfl hne
  | cons c cs =>
    rw [Lexeme.text, if_neg (by rw [h]; exact Bool.false_ne_true)]
    exact List.cons_ne_nil _ _

/-- The end that is found is the first one: none lies before it. -/
theorem endsAtMark_of_commentEnd? {cs inside after : List Char}
    (h : Lexeme.commentEnd? cs = some (inside, after)) : EndsAtMark (inside ++ ['#', '}']) := by
  fun_induction Lexeme.commentEnd? cs generalizing inside with
  | case1 => cases h
  | case2 rest =>
    cases h
    intro before behind heq
    have hlength := congrArg List.length heq
    simp only [List.nil_append, List.length_append, List.length_cons, List.length_nil] at hlength
    exact List.length_eq_zero_iff.mp (by omega)
  | case3 c rest hnot ih =>
    obtain ⟨⟨i, a⟩, hi, he⟩ := Option.map_eq_some_iff.mp h
    cases he
    intro before behind heq
    cases before with
    | nil =>
      -- the mark would have been found here
      obtain ⟨rfl, htail⟩ := List.cons.inj heq
      have hrest : rest = i ++ ['#', '}'] ++ after := by
        rw [Lexeme.eq_of_commentEnd? hi, List.append_assoc]; rfl
      have hmark : i ++ ['#', '}'] = '}' :: behind := htail
      rw [hmark] at hrest
      exact absurd hrest (hnot _ rfl)
    | cons d before => exact ih hi before behind (List.cons.inj heq).2

/-! ### Inside tags -/

/-- What goes on to a character goes up to it, and else to the end. -/
theorem span_of_head {p : Char → Bool} {w rest : List Char} (hw : ∀ c ∈ w, p c = true)
    (hrest : rest.head?.any p = false) :
    (w ++ rest).takeWhile p = w ∧ (w ++ rest).dropWhile p = rest := by
  rw [List.takeWhile_append_of_pos hw, List.dropWhile_append_of_pos hw]
  cases rest with
  | nil => exact ⟨List.append_nil w, rfl⟩
  | cons c cs =>
    have hc : ¬ p c = true := Bool.eq_false_iff.mp hrest
    rw [List.takeWhile_cons_of_neg hc, List.dropWhile_cons_of_neg hc, List.append_nil]
    exact ⟨rfl, rfl⟩

/-- A character that is no backslash is the quote or stands for itself. -/
theorem quotation?_cons {quote c : Char} (hc : c ≠ '\\') (cs : List Char) :
    Lexeme.quotation? quote (c :: cs) = if c = quote then some ⟨[], [c], cs⟩
      else (Lexeme.quotation? quote cs).map fun q =>
        { q with value := c :: q.value, spelling := c :: q.spelling } := by
  rw [Lexeme.quotation?]
  · exact fun h _ => hc h
  · exact fun _ _ h _ => hc h

/-- A character that is neither the last backslash nor an escape is no backslash. -/
theorem ne_backslash_of_case {c : Char} {cs : List Char} (hlast : c = '\\' → cs = [] → False)
    (hescape : ∀ d ds, c = '\\' → cs = d :: ds → False) : c ≠ '\\' := by
  rintro rfl
  cases cs with
  | nil => exact hlast rfl rfl
  | cons d ds => exact hescape d ds rfl rfl

/-- A literal that is found is its inside with the escapes resolved, and its closing quote. -/
theorem quoted_of_quotation? {quote : Char} {cs : List Char}
    {q : Lexeme.Quotation} (h : Lexeme.quotation? quote cs = some q) :
    ∃ inside, q.spelling = inside ++ [quote] ∧ Quoted quote inside q.value := by
  fun_induction Lexeme.quotation? quote cs generalizing q with
  | case1 | case2 => cases h
  | case3 c rest ih =>
    obtain ⟨p, hp, rfl⟩ := Option.map_eq_some_iff.mp h
    obtain ⟨inside, hspelling, hvalue⟩ := ih hp
    exact ⟨'\\' :: c :: inside, by rw [hspelling]; rfl, hvalue.escape c⟩
  | case4 rest =>
    cases h
    exact ⟨[], rfl, .nil⟩
  | case5 c rest hlast hescape hne ih =>
    obtain ⟨p, hp, rfl⟩ := Option.map_eq_some_iff.mp h
    obtain ⟨inside, hspelling, hvalue⟩ := ih hp
    exact ⟨c :: inside, by rw [hspelling]; rfl,
      .plain (ne_backslash_of_case hlast hescape) hne hvalue⟩

/-- A quote that ends a string is found. -/
theorem quotation?_of_quoted {quote : Char} {spelling value : List Char} (hquote : quote ≠ '\\')
    (h : Quoted quote spelling value) (behind : List Char) :
    Lexeme.quotation? quote (spelling ++ quote :: behind) =
      some ⟨value, spelling ++ [quote], behind⟩ := by
  induction h with
  | nil => rw [List.nil_append, quotation?_cons hquote, if_pos rfl]; rfl
  | escape c _ ih => rw [List.cons_append, List.cons_append, Lexeme.quotation?, ih]; rfl
  | plain hc hne _ ih => rw [List.cons_append, quotation?_cons hc, if_neg hne, ih]; rfl

theorem allDigits_takeWhile {c : Char} (hc : Text.isDigit c = true) (cs : List Char) :
    AllDigits ((c :: cs).takeWhile Text.isDigit) := by
  refine ⟨?_, fun d hd => List.mem_takeWhile_imp hd⟩
  rw [List.takeWhile_cons_of_pos hc]
  exact List.cons_ne_nil _ _

/-- Digits, with a sign or a point and more digits, spell a number. -/
theorem lexical_number {sign : List Char} (hsign : sign = [] ∨ sign = ['-']) {c : Char}
    (hc : Text.isDigit c = true) (cs : List Char) :
    Lexical (sign ++ (Lexeme.number (c :: cs)).1) .number
      (sign ++ (Lexeme.number (c :: cs)).1) := by
  have hwhole := allDigits_takeWhile hc cs
  unfold Lexeme.number
  split
  · rename_i d rest _
    split
    · rename_i hd
      rw [← List.append_assoc]
      exact .pointed hsign hwhole (allDigits_takeWhile hd rest)
    · exact .whole hsign hwhole
  · exact .whole hsign hwhole

/-- An `in` behind `not` is found behind spacing only. -/
theorem eq_of_memberWord? {cs spacing rest : List Char}
    (h : Lexeme.memberWord? cs = some (spacing, rest)) :
    cs = spacing ++ ['i', 'n'] ++ rest ∧ ∀ c ∈ spacing, Text.isSpacing c = true := by
  unfold Lexeme.memberWord? at h
  split at h
  · rename_i rest' heq
    split at h
    · cases h
    · cases h
      have happend := List.takeWhile_append_dropWhile (p := Text.isSpacing) (l := cs)
      rw [heq] at happend
      exact ⟨by simpa using happend.symm, fun c hc => List.mem_takeWhile_imp hc⟩
  · cases h

/-- Between the two words there is spacing: else the first would have gone on. -/
theorem ne_nil_of_memberWord? {cs spacing rest : List Char}
    (h : Lexeme.memberWord? (cs.dropWhile Text.isWord) = some (spacing, rest)) : spacing ≠ [] := by
  rintro rfl
  have hend := List.head?_dropWhile_not Text.isWord cs
  rw [(eq_of_memberWord? h).1] at hend
  have hletter : Text.isWord 'i' = true := by decide +kernel
  exact Bool.noConfusion (hletter.symm.trans hend)

/-- Where no word goes on, `in` is a word. -/
theorem takeWhile_in {cs : List Char} (h : cs.head?.any Text.isWord = false) :
    ('i' :: 'n' :: cs).takeWhile Text.isWord = ['i', 'n'] := by
  have hletters : ['i', 'n'].all Text.isWord = true := by decide +kernel
  exact (span_of_head (List.all_eq_true.mp hletters) h).1

/-- An operator that is found spells itself. -/
theorem lexical_operator {cs spelling rest : List Char} {kind : Token.Kind}
    (h : Lexeme.operator? cs = some (kind, spelling, rest)) : Lexical spelling kind spelling := by
  unfold Lexeme.operator? at h
  split at h
  · cases h
  · obtain ⟨k, hk, he⟩ := Option.map_eq_some_iff.mp h
    cases he
    exact .operator (mem_of_lookup hk)
  · split at h
    · rename_i hk
      cases h
      exact .operator (mem_of_lookup hk)
    · obtain ⟨k, hk, he⟩ := Option.map_eq_some_iff.mp h
      cases he
      exact .operator (mem_of_lookup hk)

end Stencil.Lexer
