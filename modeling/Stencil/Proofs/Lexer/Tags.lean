import Stencil.Proofs.Lexer.Cutting

/-!
# Lexer — the tags of a text

What the tokens of a text look like to their reader (`tagged_of_tokenize`): every tag is opened, has
tokens of its inside, and is closed by a mark of its own kind before anything else stands there, and
between tags there is text only.  None of these tokens stands for the end of the input.

So a token that is no text and opens no tag stands inside one (`Tagged.insideTag`), and it has a
place of its own in the text (`line_of_tokenize`).
-/

namespace Stencil

/-- May a token of this kind stand between the marks of a tag? -/
def Token.Kind.isInner : Token.Kind → Bool
  | .text | .openStatement | .closeStatement | .openExpression | .closeExpression => false
  | .endOfInput | .other _ => false
  | _ => true

namespace Lexer

variable {tag : Tag} {state state' : Option Tag} {place : Place} {segments : List Segment}
  {cs rest : List Char} {t : Token} {ts us : List Token}

/-- All of the tokens may stand between the marks of a tag. -/
def AllInner (ts : List Token) : Prop := ∀ t ∈ ts, t.kind.isInner = true

@[simp] theorem allInner_nil : AllInner [] := fun _ h => nomatch h

@[simp] theorem allInner_cons : AllInner (t :: ts) ↔ t.kind.isInner = true ∧ AllInner ts :=
  List.forall_mem_cons

@[simp] theorem allInner_append : AllInner (ts ++ us) ↔ AllInner ts ∧ AllInner us :=
  List.forall_mem_append

/-- The kinds of the tokens behind the mark that opens a tag, up to the one that closes it and with
that. -/
def Within (kind : Token.Kind) : Prop := kind.isInner = true ∨ ∃ tag : Tag, kind = tag.closeKind

/-- The kinds of the tokens behind which no tag is open. -/
def Completes (kind : Token.Kind) : Prop := kind = .text ∨ ∃ tag : Tag, kind = tag.closeKind

/-- Tokens of texts and of whole tags, of which the first stands where a tag is open, or none. -/
inductive Tagged : Option Tag → List Token → Prop
  | nil : Tagged none []
  | text {t : Token} {ts : List Token} : t.kind = .text → Tagged none ts → Tagged none (t :: ts)
  | opener {tag : Tag} {t : Token} {ts : List Token} : t.kind = tag.openKind →
      Tagged (some tag) ts → Tagged none (t :: ts)
  | inner {tag : Tag} {t : Token} {ts : List Token} : t.kind.isInner = true →
      Tagged (some tag) ts → Tagged (some tag) (t :: ts)
  | closer {tag : Tag} {t : Token} {ts : List Token} : t.kind = tag.closeKind → Tagged none ts →
      Tagged (some tag) (t :: ts)

/-- The token stands behind the mark that opens a tag, with nothing but the inside of the tag
between them, and belongs to the inside itself or closes the tag. -/
def InsideTag (ts : List Token) (t : Token) : Prop :=
  ∃ (tag : Tag) (before inner after : List Token) (o : Token),
    ts = before ++ o :: (inner ++ t :: after) ∧ o.kind = tag.openKind ∧ AllInner inner ∧
      (t.kind.isInner = true ∨ t.kind = tag.closeKind)

/-! ### The kinds -/

theorem isInner_openKind (tag : Tag) : tag.openKind.isInner = false := by cases tag <;> rfl

theorem isInner_closeKind (tag : Tag) : tag.closeKind.isInner = false := by cases tag <;> rfl

theorem openKind_ne_closeKind (tag tag' : Tag) : tag.openKind ≠ tag'.closeKind := by
  cases tag <;> cases tag' <;> nofun

/-- The two kinds of tags are told by their openers. -/
theorem openKind_inj {tag tag' : Tag} (h : tag.openKind = tag'.openKind) : tag = tag' := by
  cases tag <;> cases tag' <;> first | rfl | cases h

/-- A text is not inside a tag. -/
theorem not_within_text : ¬ Within .text := by
  rintro (h | ⟨tag, h⟩)
  · cases h
  · cases tag <;> cases h

theorem not_within_openKind (tag : Tag) : ¬ Within tag.openKind := by
  rintro (h | ⟨tag', h⟩)
  · rw [isInner_openKind] at h
    cases h
  · exact openKind_ne_closeKind tag tag' h

theorem not_completes_openKind (tag : Tag) : ¬ Completes tag.openKind := by
  rintro (h | ⟨tag', h⟩)
  · cases tag <;> cases h
  · exact openKind_ne_closeKind tag tag' h

/-- A token that completes a tag or a text is not inside one. -/
theorem not_isInner_of_completes {kind : Token.Kind} (h : Completes kind) :
    ¬ kind.isInner = true := by
  rcases h with rfl | ⟨tag, rfl⟩
  · exact Bool.false_ne_true
  · simp [isInner_closeKind]

/-! ### Tokens of whole tags -/

namespace Tagged

/-- A token inside a tag leaves the tag open. -/
theorem of_inner (h : Tagged (some tag) (t :: ts)) (ht : t.kind.isInner = true) :
    Tagged (some tag) ts := by
  cases h with
  | inner _ h => exact h
  | closer hclose =>
    rw [hclose, isInner_closeKind] at ht
    cases ht

/-- Behind the inside of a tag the tag is still open. -/
theorem behind_inner (h : Tagged (some tag) (ts ++ us)) (hinner : AllInner ts) :
    Tagged (some tag) us := by
  induction ts with
  | nil => exact h
  | cons t ts ih =>
    obtain ⟨ht, hts⟩ := allInner_cons.mp hinner
    exact ih (h.of_inner ht) hts

/-- Behind tokens some tag is open, or none. -/
theorem behind (h : Tagged state (ts ++ us)) : ∃ state, Tagged state us := by
  induction ts generalizing state with
  | nil => exact ⟨state, h⟩
  | cons t ts ih =>
    cases h with
    | text _ h | opener _ h | inner _ h | closer _ h => exact ih h

/-- Behind a text, and behind a mark that closes a tag, no tag is open. -/
theorem of_completes (ht : Completes t.kind) (h : Tagged state (t :: ts)) : Tagged none ts := by
  cases h with
  | text _ h | closer _ h => exact h
  | opener hopen => exact absurd (hopen ▸ ht) (not_completes_openKind _)
  | inner hinner => exact absurd hinner (not_isInner_of_completes ht)

/-- Before a mark that opens a tag no tag is open. -/
theorem before_opener (ht : t.kind = tag.openKind) (h : Tagged state (t :: ts)) :
    Tagged none (t :: ts) := by
  cases h with
  | text hk h => exact .text hk h
  | opener hk h => exact .opener hk h
  | inner hk =>
    rw [ht, isInner_openKind] at hk
    cases hk
  | closer hk => exact absurd (ht.symm.trans hk) (openKind_ne_closeKind _ _)

/-- Where no tag is open, a text comes next or a mark that opens a tag. -/
theorem cases_none (h : Tagged none (t :: ts)) : t.kind = .text ∧ Tagged none ts ∨
    ∃ tag : Tag, t.kind = tag.openKind ∧ Tagged (some tag) ts := by
  cases h with
  | text ht h => exact .inl ⟨ht, h⟩
  | opener ht h => exact .inr ⟨_, ht, h⟩

/-- Where a tag is open, a token of its inside comes next or the mark that closes it. -/
theorem cases_some (h : Tagged (some tag) ts) : ∃ t us, ts = t :: us ∧
    (t.kind.isInner = true ∨ t.kind = tag.closeKind) := by
  cases h with
  | inner ht => exact ⟨_, _, rfl, .inl ht⟩
  | closer ht => exact ⟨_, _, rfl, .inr ht⟩

/-- The tag that is open at the start, or another one, is around the token. -/
theorem around (ht : Within t.kind) (h : Tagged state ts) (hmem : t ∈ ts) :
    InsideTag ts t ∨ ∃ tag inner after, state = some tag ∧ ts = inner ++ t :: after ∧
      AllInner inner ∧ (t.kind.isInner = true ∨ t.kind = tag.closeKind) := by
  have further {u : Token} {us : List Token} : InsideTag us t → InsideTag (u :: us) t := by
    rintro ⟨tag, before, inner, after, o, rfl, hrest⟩
    exact ⟨tag, u :: before, inner, after, o, rfl, hrest⟩
  induction h with
  | nil => cases hmem
  | @text u us hu _ ih =>
    rcases List.mem_cons.mp hmem with rfl | hmem
    · exact absurd (hu ▸ ht) not_within_text
    · rcases ih hmem with hinside | ⟨_, _, _, hnone, -⟩
      · exact .inl (further hinside)
      · cases hnone
  | @opener tag u us hu _ ih =>
    rcases List.mem_cons.mp hmem with rfl | hmem
    · exact absurd (hu ▸ ht) (not_within_openKind tag)
    · rcases ih hmem with hinside | ⟨_, inner, after, htag, rfl, hinner, hkind⟩
      · exact .inl (further hinside)
      · cases htag
        exact .inl ⟨tag, [], inner, after, u, rfl, hu, hinner, hkind⟩
  | @inner tag u us hu _ ih =>
    by_cases hut : t = u
    · exact .inr ⟨tag, [], us, rfl, hut ▸ rfl, allInner_nil, .inl (hut ▸ hu)⟩
    · rcases ih ((List.mem_cons.mp hmem).resolve_left hut) with
        hinside | ⟨_, inner, after, htag, rfl, hinner, hkind⟩
      · exact .inl (further hinside)
      · exact .inr ⟨_, u :: inner, after, htag, rfl, allInner_cons.mpr ⟨hu, hinner⟩, hkind⟩
  | @closer tag u us hu _ ih =>
    by_cases hut : t = u
    · exact .inr ⟨tag, [], us, rfl, hut ▸ rfl, allInner_nil, .inr (hut ▸ hu)⟩
    · rcases ih ((List.mem_cons.mp hmem).resolve_left hut) with hinside | ⟨_, _, _, hnone, -⟩
      · exact .inl (further hinside)
      · cases hnone

/-- **A token that is no text and opens no tag stands inside a tag.** -/
theorem insideTag (h : Tagged none ts) (hmem : t ∈ ts) (ht : Within t.kind) : InsideTag ts t := by
  rcases h.around ht hmem with hinside | ⟨_, _, _, hnone, -⟩
  · exact hinside
  · cases hnone

end Tagged

/-! ### The tokens of segments -/

/-- Whatever is spelled inside a tag is of a kind that stands inside tags. -/
theorem Lexical.isInner {spelling value : List Char} {kind : Token.Kind}
    (h : Lexical spelling kind value) : kind.isInner = true := by
  cases h with
  | word =>
    have reserved : ∀ entry ∈ Vocabulary.keywords, entry.2.isInner = true := by decide
    exact wordKind_of_forall (P := (·.isInner = true)) rfl reserved _
  | notIn | whole | pointed | string => rfl
  | operator h =>
    have made : ∀ entry ∈ Vocabulary.operators, entry.2.isInner = true := by decide
    exact made _ h

/-- Segments up to where no tag is open make tokens with every tag opened and closed. -/
theorem Cuts.tagged (h : Cuts state cs segments state' rest) :
    state' = none → ∀ place, Tagged state (tokensOf place segments) := by
  induction h with
  | nil tag cs =>
    rintro rfl place
    exact .nil
  | @cons tag tag' tag'' s segments cs rest hs _ ih =>
    intro hend place
    have htail := ih hend (place.after s.spelling)
    rw [tokensOf]
    cases hs with
    | comment | spacing => exact htail
    | text => exact .text rfl htail
    | opener tag => exact .opener rfl htail
    | closer tag => exact .closer rfl htail
    | token h => exact .inner h.isInner htail

/-- No character leads back to an earlier line. -/
theorem line_le_after (cs : List Char) (place : Place) : place.line ≤ (place.after cs).line := by
  rw [Place.line_after]
  exact Int.le_add_of_nonneg_right (Int.natCast_nonneg _)

/-- A token stands where a segment starts, and stands for it. -/
theorem exists_segment_of_mem (segments : List Segment) : ∀ place : Place,
    t ∈ tokensOf place segments →
    ∃ s ∈ segments, ∃ p : Place, place.line ≤ p.line ∧ s.tokenAt p = some t := by
  induction segments with
  | nil => exact fun _ h => nomatch h
  | cons s segments ih =>
    intro place h
    rcases List.mem_append.mp h with h | h
    · exact ⟨s, .head _, place, Int.le_refl _, Option.mem_toList.mp h⟩
    · obtain ⟨s', hs', p, hline, htoken⟩ := ih _ h
      exact ⟨s', .tail _ hs', p, Int.le_trans (line_le_after _ place) hline, htoken⟩

/-- Every segment of a text is admissible where it stands. -/
theorem Cuts.admits (h : Cuts state cs segments state' rest) : ∀ s ∈ segments,
    ∃ tag rest tag', Admits tag s rest tag' := by
  induction h with
  | nil => exact fun _ h => nomatch h
  | cons hs _ ih => exact List.forall_mem_cons.mpr ⟨⟨_, _, _, hs⟩, ih⟩

/-! ### The tokens of a text -/

variable {source : String}

theorem cuts_of_tokenize (h : tokenize source = .ok ts) :
    ∃ segments, Cuts none source.toList segments none [] ∧ tokensOf .start segments = ts := by
  obtain ⟨lexer', hrun⟩ := tokenize_eq_ok.mp h
  obtain ⟨⟨segments, hcuts, -, htokens⟩, htag, hrest⟩ :=
    passes_drain _ _ _ (Nat.lt_succ_self _) hrun
  rw [htag, hrest] at hcuts
  exact ⟨segments, hcuts, htokens⟩

/-- **The tokens of a text are texts and whole tags.** -/
theorem tagged_of_tokenize (h : tokenize source = .ok ts) : Tagged none ts := by
  obtain ⟨segments, hcuts, rfl⟩ := cuts_of_tokenize h
  exact hcuts.tagged rfl .start

theorem kind_ne_of_tokenize (h : tokenize source = .ok ts) : ∀ t ∈ ts, t.kind ≠ .endOfInput := by
  obtain ⟨segments, hcuts, rfl⟩ := cuts_of_tokenize h
  exact hcuts.kind_ne .start

/-- Every token of a text has a line of the text. -/
theorem line_of_tokenize (h : tokenize source = .ok ts) (hmem : t ∈ ts) : 1 ≤ t.line := by
  obtain ⟨segments, -, rfl⟩ := cuts_of_tokenize h
  obtain ⟨s, -, p, hline, htoken⟩ := exists_segment_of_mem _ _ hmem
  obtain ⟨content, -, rfl⟩ := Option.map_eq_some_iff.mp htoken
  exact hline

/-- A number of a text is spelt as one. -/
theorem lexical_of_number (h : tokenize source = .ok ts) (hmem : t ∈ ts) (ht : t.kind = .number) :
    ∃ spelling value, Lexical spelling .number value ∧ t.value = String.ofList value := by
  obtain ⟨segments, hcuts, rfl⟩ := cuts_of_tokenize h
  obtain ⟨s, hs, p, -, htoken⟩ := exists_segment_of_mem _ _ hmem
  obtain ⟨tag, rest, tag', hadmits⟩ := hcuts.admits s hs
  cases hadmits with
  | comment | spacing => cases htoken
  | text => cases htoken; cases ht
  | opener tag | closer tag => cases htoken; cases tag <;> cases ht
  | token hlexical =>
    cases htoken
    cases ht
    exact ⟨_, _, hlexical, rfl⟩

end Lexer

end Stencil
