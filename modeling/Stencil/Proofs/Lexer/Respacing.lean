import Mathlib.Data.List.Forall2
import Stencil.Proofs.Lexer.Longest
import Stencil.Proofs.Lexer.Writing

/-!
# Lexer — other spacing in a tag

In front of a token, or of the mark that closes a tag, spacing may be put or replaced by other
spacing.  `Respaced` says that a text is another one so changed, in any number of places, and the
lexer makes of both tokens of the same kinds and values (`tokenize_respaced`).

What stands behind a token in the one text stands there in the other, at least up to some spacing
(`UpToSpacing`).  No token goes on to spacing, so that the longest token stays the longest
(`Longest.upToSpacing`), but for the word `not`: the next token is the same, so that it is `in` in both
texts or in neither (`memberWord?_eq_none_iff`).
-/

namespace Stencil.Lexer

variable {tag : Tag} {depth : Nat} {lastKind : Option Token.Kind} {m : Mode} {s s' : Segment}
  {f : Found} {kind : Token.Kind} {c : Char} {w w' a cs cs' value rest rest' : List Char}

/-! ### Up to spacing -/

/-- The second text goes on as the first one, up to spacing or to the end of both. -/
inductive UpToSpacing : List Char → List Char → Prop
  | nil : UpToSpacing [] []
  | spacing {c : Char} {cs cs' : List Char} : Text.isSpacing c = true → UpToSpacing cs (c :: cs')
  | cons (c : Char) {cs cs' : List Char} : UpToSpacing cs cs' → UpToSpacing (c :: cs) (c :: cs')

namespace UpToSpacing

/-- The same characters in front of both texts. -/
theorem append (w : List Char) (h : UpToSpacing cs cs') : UpToSpacing (w ++ cs) (w ++ cs') := by
  induction w with
  | nil => exact h
  | cons c w ih => exact .cons c ih

/-- What the second text begins with, apart from spacing, the first one begins with. -/
theorem of_append : ∀ {a cs : List Char}, UpToSpacing cs (a ++ cs') →
    (∀ c ∈ a, Text.isSpacing c = false) → ∃ more, cs = a ++ more := by
  intro a
  induction a with
  | nil => exact fun {cs} _ _ => ⟨cs, rfl⟩
  | cons c a ih =>
    intro cs h ha
    obtain ⟨hc, ha⟩ := List.forall_mem_cons.mp ha
    cases h with
    | spacing hspacing => cases hc.symm.trans hspacing
    | cons _ h =>
      obtain ⟨more, rfl⟩ := ih h ha
      exact ⟨more, rfl⟩

/-- What is true of no spacing, and not of the first character, is not true of the first one of the
second text. -/
theorem head {p : Char → Bool} (h : UpToSpacing cs cs')
    (hp : ∀ c, Text.isSpacing c = true → p c = false) (hcs : cs.head?.any p = false) :
    cs'.head?.any p = false := by
  cases h with
  | nil => rfl
  | spacing hc => exact hp _ hc
  | cons => exact hcs

end UpToSpacing

theorem isDigit_of_isSpacing (h : Text.isSpacing c = true) : Text.isDigit c = false := by
  rw [← Bool.not_eq_true]
  intro hdigit
  cases (Text.isWord_of_isDigit hdigit).symm.trans (Text.isWord_of_isSpacing h)

/-- No spacing is in two characters whose second one is a digit. -/
theorem isSpacing_of_digit_behind (hc : Text.isSpacing c = false) {d : Char}
    (hd : Text.isDigit d = true) : ∀ e ∈ [c, d], Text.isSpacing e = false :=
  List.forall_mem_cons.mpr
    ⟨hc, List.forall_mem_singleton.mpr (isSpacing_of_isWord (Text.isWord_of_isDigit hd))⟩

/-- No operator has spacing in it. -/
theorem lookup_operators_of_isSpacing (hc : Text.isSpacing c = true) (w : List Char) :
    Vocabulary.operators.lookup (w ++ [c]) = none := by
  cases h : Vocabulary.operators.lookup (w ++ [c]) with
  | none => rfl
  | some kind =>
    have hapart := operators_apart _ (mem_of_lookup h) c (by simp)
    cases hc.symm.trans hapart.1

/-- A minus sign before a digit in the second text is one in the first. -/
theorem startsNegative_upToSpacing (h : UpToSpacing cs cs') (hcs : startsNegative lastKind cs = false) :
    startsNegative lastKind cs' = false := by
  rw [← Bool.not_eq_true]
  intro hcs'
  obtain ⟨d, ds, hd, rfl⟩ := eq_of_startsNegative hcs'
  obtain ⟨more, rfl⟩ := UpToSpacing.of_append (a := ['-', d]) h (isSpacing_of_digit_behind rfl hd)
  cases hcs.symm.trans hcs'

/-- **The longest token stays the longest** where the same follows up to spacing. -/
theorem Longest.upToSpacing (h : Longest lastKind f) (hrest : UpToSpacing f.rest rest')
    (hmember : Lexeme.memberWord? f.rest = none → Lexeme.memberWord? rest' = none) :
    Longest lastKind { f with rest := rest' } := by
  have hword := fun h => hrest.head (fun _ => Text.isWord_of_isSpacing) h
  have hdigit := fun h => hrest.head (fun _ => isDigit_of_isSpacing) h
  cases h with
  | word hc hcs hhead hnot => exact .word hc hcs (hword hhead) fun heq => hmember (hnot heq)
  | notIn hne hspacing hhead => exact .notIn hne hspacing (hword hhead)
  | whole hsign hdigits hhead hpart =>
    refine .whole hsign hdigits (hdigit hhead) fun d more heq => ?_
    subst heq
    rw [← Bool.not_eq_true]
    intro hd
    obtain ⟨more', heq⟩ :=
      UpToSpacing.of_append (a := ['.', d]) hrest (isSpacing_of_digit_behind rfl hd)
    cases hd.symm.trans (hpart d more' heq)
  | pointed hsign hdigits hpart hhead => exact .pointed hsign hdigits hpart (hdigit hhead)
  | string hquote hquoted => exact .string hquote hquoted
  | operator hmem hlonger hnegative =>
    refine .operator hmem (fun c more heq => ?_)
      (startsNegative_upToSpacing (hrest.append _) hnegative)
    subst heq
    cases hrest with
    | spacing hc => exact lookup_operators_of_isSpacing hc _
    | cons _ _ => exact hlonger c _ rfl

/-! ### The mark that closes a tag -/

/-- A mark that closes the tag does not come about by spacing. -/
theorem closing?_upToSpacing (h : UpToSpacing cs cs') (hcs : closing? tag depth cs = none) :
    closing? tag depth cs' = none := by
  cases hcs' : closing? tag depth cs' with
  | none => rfl
  | some rest =>
    have hspacing : ∀ c ∈ tag.closer, Text.isSpacing c = false := by
      cases tag <;> exact List.forall_mem_cons.mpr ⟨rfl, List.forall_mem_singleton.mpr rfl⟩
    rw [eq_of_closing? hcs'] at h
    obtain ⟨more, rfl⟩ := h.of_append hspacing
    cases hcs.symm.trans (closing?_closer (depth_of_closing? hcs') more)

/-! ### One token -/

/-- `not in`, with spacing between the words. -/
def notIn (spacing : List Char) : Segment :=
  ⟨['n', 'o', 't'] ++ (spacing ++ ['i', 'n']), some (.kwNotIn, ['n', 'o', 't', ' ', 'i', 'n'])⟩

/-- Spacing, at least one character. -/
def IsGap (cs : List Char) : Prop := cs ≠ [] ∧ ∀ c ∈ cs, Text.isSpacing c = true

/-- The same token, where `not in` may have other spacing. -/
inductive Respelt : Segment → Segment → Prop
  | same (s : Segment) : Respelt s s
  | notIn (spacing : List Char) {spacing' : List Char} : IsGap spacing' →
      Respelt (notIn spacing) (notIn spacing')

/-- Other spacing inside `not in` makes the same token. -/
theorem Respelt.content_eq (h : Respelt s s') : s'.content = s.content := by
  cases h <;> rfl

/-- No character of a word goes on behind `not in`. -/
theorem Longest.head_of_notIn (h : Longest lastKind f) (hf : f.kind = .kwNotIn) :
    f.rest.head?.any Text.isWord = false := by
  cases h with
  | word hc hcs hhead => exact hhead
  | notIn _ _ hhead => exact hhead
  | whole | pointed | string => cases hf
  | operator hmem =>
    have hkind : ∀ entry ∈ Vocabulary.operators, entry.2 ≠ .kwNotIn := by decide
    exact absurd hf (hkind _ hmem)

/-- A token, or the mark that closes the tag, is scanned again. -/
theorem scan_respelt (h : scan (.inside tag depth lastKind) cs = .segment s m rest)
    (hs : s.content ≠ none) (hs' : Respelt s s') (hrest : UpToSpacing rest rest')
    (hmember : m ≠ .outside → Lexeme.memberWord? rest = none → Lexeme.memberWord? rest' = none) :
    scan (.inside tag depth lastKind) (s'.spelling ++ rest') = .segment s' m rest' := by
  cases hs' with
  | same =>
    rcases closer_or_longest h hs with
      ⟨rfl, rfl, -, hdepth⟩ | ⟨f, hlongest, rfl, hclosing, rfl, rfl, rfl⟩
    · exact scan_closer hdepth rest'
    · exact scan_of_longest (hlongest.upToSpacing hrest (hmember Mode.inside_ne_outside))
        (closing?_upToSpacing (hrest.append _) hclosing)
  | @notIn spacing spacing' hspacing =>
    rcases closer_or_longest h hs with ⟨hcloser, -⟩ | ⟨f, hlongest, -, -, hf, rfl, rfl⟩
    · cases tag <;> cases hcloser
    · obtain ⟨spelling, kind, value, behind⟩ := f
      cases hf
      have hhead := hrest.head (fun _ => Text.isWord_of_isSpacing) (hlongest.head_of_notIn rfl)
      simpa [notIn] using scan_of_longest (.notIn hspacing.1 hspacing.2 hhead) rfl

/-! ### Outside tags -/

/-- A comment ends at its first end mark, whatever stands behind it. -/
theorem commentEnd?_of_endsAtMark : ∀ {inside : List Char}, EndsAtMark (inside ++ ['#', '}']) →
    ∀ rest, Lexeme.commentEnd? (inside ++ '#' :: '}' :: rest) = some (inside, rest) := by
  intro inside
  induction inside with
  | nil => exact fun _ _ => rfl
  | cons c inside ih =>
    intro h rest
    have htail : EndsAtMark (inside ++ ['#', '}']) := fun before behind heq =>
      h (c :: before) behind (congrArg (c :: ·) heq)
    have hmark : ∀ behind, inside ++ '#' :: '}' :: rest = '}' :: behind → c ≠ '#' := by
      rintro behind heq rfl
      cases inside with
      | nil => cases heq
      | cons d ds =>
        obtain ⟨rfl, -⟩ := List.cons.inj heq
        exact absurd (h [] _ rfl) (by simp)
    rw [List.cons_append, Lexeme.commentEnd?, ih htail]
    · rfl
    · exact fun behind hc heq => hmark behind heq hc

/-- Two texts begin with the same two characters, or are the same shorter text. -/
def SameFront (cs cs' : List Char) : Prop := cs.take 2 = cs'.take 2

namespace SameFront

theorem append (w : List Char) (h : SameFront cs cs') : SameFront (w ++ cs) (w ++ cs') := by
  have hshorter : cs.take (2 - w.length) = cs'.take (2 - w.length) := by
    have htake := congrArg (List.take (2 - w.length)) h
    rwa [List.take_take, List.take_take, Nat.min_eq_left (Nat.sub_le 2 _)] at htake
  rw [SameFront, List.take_append, List.take_append, hshorter]

theorem eq_nil (h : SameFront [] cs') : cs' = [] := by
  cases cs' with
  | nil => rfl
  | cons => cases h

/-- Whether markup starts is told by two characters. -/
theorem startsMarkup (h : SameFront cs cs') : Lexeme.startsMarkup cs = Lexeme.startsMarkup cs' := by
  match cs, cs' with
  | [], [] => rfl
  | [c], [d] => cases h; rfl
  | c :: d :: cs, c' :: d' :: cs' =>
    cases h
    exact startsMarkup_congr c d cs cs'
  | [], _ :: _ | [_], [] | [_], _ :: _ :: _ | _ :: _ :: _, [] | _ :: _ :: _, [_] => cases h

end SameFront

/-- What stands outside tags is scanned again, where behind a text or a comment the same follows. -/
theorem scan_outside (h : scan .outside cs = .segment s m rest)
    (hrest : m = .outside → SameFront rest rest') :
    scan .outside (s.spelling ++ rest') = .segment s m rest' := by
  rw [scan, scanOutside.eq_def] at h
  split at h
  · cases h
  · split at h
    · rename_i hend
      cases h
      have hend' := commentEnd?_of_endsAtMark (endsAtMark_of_commentEnd? hend) rest'
      simp [scan, scanOutside, hend']
    · cases h
  · cases h
    rfl
  · cases h
    rfl
  · rename_i hne hcomment hstatement hexpression
    cases h
    have hmarkup := startsMarkup_eq_false hstatement hexpression hcomment
    obtain ⟨hplain, hbehind⟩ := isPlain_text cs
    have hfront := hrest rfl
    -- plain text depends on two characters behind its end, which are the same
    refine scan_text (text_ne_nil hne hmarkup) (fun before behind heq hnil => ?_) ?_
    · exact (hfront.append behind).startsMarkup ▸ hplain before behind heq hnil
    · rcases hbehind with hnil | hbehind
      · rw [hnil] at hfront
        exact .inl hfront.eq_nil
      · exact .inr (hfront.startsMarkup ▸ hbehind)

/-! ### Whole texts -/

/-- The second text is the first one with other spacing, not none, in front of some of the tokens
and closing marks of its tags and inside some `not in`.  In front of such a token `w` is all the
spacing there is, as the token does not begin with any (`head_of_content`). -/
inductive Respaced : Mode → List Char → List Char → Prop
  | ended : Respaced .outside [] []
  | outside {m : Mode} {s : Segment} {cs rest rest' : List Char} :
      scan .outside cs = .segment s m rest → Respaced m rest rest' →
      Respaced .outside cs (s.spelling ++ rest')
  | inside {tag : Tag} {depth : Nat} {lastKind : Option Token.Kind} {m : Mode} {s s' : Segment}
      {w w' cs rest rest' : List Char} : (∀ c ∈ w, Text.isSpacing c = true) →
      scan (.inside tag depth lastKind) cs = .segment s m rest → s.content ≠ none →
      (w' = w ∨ IsGap w') → Respelt s s' → Respaced m rest rest' →
      Respaced (.inside tag depth lastKind) (w ++ cs) (w' ++ (s'.spelling ++ rest'))

/-- More spacing in front of both texts. -/
theorem Respaced.behind (h : Respaced (.inside tag depth lastKind) cs cs')
    (hw : ∀ c ∈ w, Text.isSpacing c = true) :
    Respaced (.inside tag depth lastKind) (w ++ cs) (w ++ cs') := by
  cases h with
  | @inside _ _ _ _ _ _ run run' cs rest rest' hrun hscan hs hrun' hs' h =>
    have hmore : w ++ run' = w ++ run ∨ IsGap (w ++ run') := by
      rcases hrun' with rfl | ⟨hne, hspacing⟩
      · exact .inl rfl
      · exact .inr ⟨List.append_ne_nil_of_right_ne_nil w hne,
          List.forall_mem_append.mpr ⟨hw, hspacing⟩⟩
    rw [← List.append_assoc, ← List.append_assoc]
    exact .inside (List.forall_mem_append.mpr ⟨hw, hrun⟩) hscan hs hmore hs' h

/-- A text that is scanned to its end is one of its own respacings: no gap is changed. -/
theorem Scans.respaced {m' : Mode} {segments : List Segment} (h : Scans m cs segments m' rest) :
    m' = .outside → rest = [] → Respaced m cs cs := by
  induction h with
  | nil =>
    rintro rfl rfl
    exact .ended
  | @cons m _ _ s _ cs rest _ hscan _ ih =>
    intro hm hnil
    have hrest := ih hm hnil
    obtain ⟨hsplit, hadmits⟩ := admits_of_scan hscan
    cases m with
    | outside =>
      have houtside := Respaced.outside hscan hrest
      rwa [← hsplit] at houtside
    | inside tag depth lastKind =>
      by_cases hs : s.content = none
      · subst hsplit
        cases leads_of_scan hscan with
        | spacing =>
          cases hadmits with
          | spacing _ hspacing => exact hrest.behind hspacing
        | closer | token => cases hs
      · have hinside := Respaced.inside (w := []) nofun hscan hs (.inl rfl) (.same s) hrest
        rwa [List.nil_append, List.nil_append, ← hsplit] at hinside

/-- Every text that the lexer reads is such a text, with the spacing as it is. -/
theorem respaced_self {source : String} {ts : List Token} (h : tokenize source = .ok ts) :
    Respaced .outside source.toList source.toList := by
  obtain ⟨segments, hscans, -⟩ := tokenize_eq_ok_iff_scans.mp h
  exact hscans.respaced rfl rfl

/-- What the second text has in common with the first. -/
structure Again (m : Mode) (cs cs' : List Char) : Prop where
  upTo : UpToSpacing cs cs'
  front : m = .outside → SameFront cs cs'
  member : m ≠ .outside → Lexeme.memberWord? cs = none → Lexeme.memberWord? cs' = none
  scanned : ∃ contents, Scanned m cs contents .outside [] ∧ Scanned m cs' contents .outside []

/-- Where the second text has spacing it may go on in any way. -/
theorem UpToSpacing.gap (w : List Char) (hw' : IsGap w') (cs cs' : List Char) :
    UpToSpacing (w ++ cs) (w' ++ cs') := by
  obtain ⟨hne, hspacing⟩ := hw'
  obtain ⟨c, w', rfl⟩ := List.exists_cons_of_ne_nil hne
  exact .spacing (hspacing c (.head w'))

/-- The same token, with what follows it the same up to spacing. -/
theorem Respelt.upToSpacing (h : Respelt s s') (hrest : UpToSpacing rest rest') :
    UpToSpacing (s.spelling ++ rest) (s'.spelling ++ rest') := by
  cases h with
  | same => exact hrest.append s.spelling
  | notIn spacing hgap =>
    simpa [Lexer.notIn] using (UpToSpacing.gap spacing hgap _ _).append ['n', 'o', 't']

/-- One segment outside tags, and by induction what follows it. -/
theorem again_outside (h : scan .outside cs = .segment s m rest) (hrest : Again m rest rest') :
    Again .outside cs (s.spelling ++ rest') := by
  obtain ⟨hsplit, -⟩ := admits_of_scan h
  have hscan := scan_outside h hrest.front
  obtain ⟨contents, hscanned, hscanned'⟩ := hrest.scanned
  refine ⟨hsplit ▸ hrest.upTo.append s.spelling, fun _ => ?_, fun hne => absurd rfl hne, ?_⟩
  · rw [hsplit]
    cases leads_of_scan h with
    | comment | text => exact (hrest.front rfl).append _
    | opener tag => cases tag <;> rfl
  · obtain ⟨spelling, content⟩ := s
    cases content with
    | none => exact ⟨contents, .skip h hscanned, .skip hscan hscanned'⟩
    | some content => exact ⟨content :: contents, .cons h hscanned, .cons hscan hscanned'⟩

/-- One token inside a tag with the spacing before it, and by induction what follows it. -/
theorem again_inside (hw : ∀ c ∈ w, Text.isSpacing c = true)
    (h : scan (.inside tag depth lastKind) cs = .segment s m rest) (hs : s.content ≠ none)
    (hw' : w' = w ∨ IsGap w') (hs' : Respelt s s') (hrest : Again m rest rest') :
    Again (.inside tag depth lastKind) (w ++ cs) (w' ++ (s'.spelling ++ rest')) := by
  have hscan := scan_respelt h hs hs' hrest.upTo hrest.member
  have hspacing : ∀ c ∈ w', Text.isSpacing c = true := by
    rcases hw' with rfl | hgap
    exacts [hw, hgap.2]
  obtain ⟨⟨kind, value⟩, hcontent⟩ := Option.ne_none_iff_exists'.mp hs
  have hcontent' := hs'.content_eq.trans hcontent
  obtain ⟨contents, hscanned, hscanned'⟩ := hrest.scanned
  refine ⟨?_, fun hm => absurd hm Mode.inside_ne_outside, fun _ hmember => ?_,
    ⟨_, scanned_spaced hw h hcontent hscanned, scanned_spaced hspacing hscan hcontent' hscanned'⟩⟩
  · rcases hw' with rfl | hgap
    · exact ((admits_of_scan h).1 ▸ hs'.upToSpacing hrest.upTo).append w'
    · exact .gap w hgap _ _
  · exact (memberWord?_eq_none_iff hspacing hscan hcontent').mpr
      ((memberWord?_eq_none_iff hw h hcontent).mp hmember)

/-- What is scanned is scanned again, with other spacing between. -/
theorem Respaced.again (h : Respaced m cs cs') : Again m cs cs' := by
  induction h with
  | ended =>
    exact ⟨.nil, fun _ => rfl, fun hne => absurd rfl hne, [], .nil _ _, .nil _ _⟩
  | outside hscan _ ih => exact again_outside hscan ih
  | inside hw hscan hs hw' hs' _ ih => exact again_inside hw hscan hs hw' hs' ih

/-- Two tokens of the same kind and value, wherever they stand. -/
def SameContent (t t' : Token) : Prop := t.kind = t'.kind ∧ t.value = t'.value

/-- Segments with the same kinds and values make tokens with the same, wherever they are placed. -/
theorem sameContent_of_contents {segments segments' : List Segment} {place place' : Place}
    (h : segments.filterMap Segment.content = segments'.filterMap Segment.content) :
    List.Forall₂ SameContent (tokensOf place segments) (tokensOf place' segments') := by
  rw [← contents_tokensOf segments place, ← contents_tokensOf segments' place',
    ← List.forall₂_eq_eq_eq, List.forall₂_map_left_iff, List.forall₂_map_right_iff] at h
  refine h.imp fun t t' heq => ?_
  obtain ⟨hkind, hvalue⟩ := Prod.mk.inj heq
  exact ⟨hkind, String.toList_injective hvalue⟩

/-- **Spacing between tokens does not count**: the lexer makes of both texts tokens of the same
kinds and values. -/
theorem tokenize_respaced {source source' : String}
    (h : Respaced .outside source.toList source'.toList) :
    ∃ ts ts', tokenize source = .ok ts ∧ tokenize source' = .ok ts' ∧
      List.Forall₂ SameContent ts ts' := by
  obtain ⟨contents, ⟨segments, hscans, hcontents⟩, segments', hscans', hcontents'⟩ := h.again.scanned
  exact ⟨_, _, tokenize_of_scans hscans, tokenize_of_scans hscans',
    sameContent_of_contents (hcontents.trans hcontents'.symm)⟩

end Stencil.Lexer
