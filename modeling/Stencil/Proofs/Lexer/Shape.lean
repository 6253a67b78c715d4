import Stencil.Proofs.Lexer.Call
import Stencil.Proofs.Lexer.Tags

/-!
# Lexer — the shape of the tokens

However often the lexer was called on a text, and whether calls failed or not, the tokens so far are
texts and whole tags, and behind them the tokens of a tag that is open (`Shaped`).  One segment keeps
that shape (`Shaped.step`), so that a row of segments does (`Scans.shaped`).

Two texts are next to each other only where a comment stands between them (`apart_of_scans`): plain
text goes up to a tag, a comment or the end, so that no plain text starts behind it.
-/

namespace Stencil.Lexer

variable {m m' : Mode} {s : Segment} {segments gap : List Segment} {cs rest source : List Char}
  {place : Place} {tag : Tag} {openTag : Option Tag} {depth : Nat} {o c t u : Token}
  {ts us inner before after : List Token}

/-! ### Braces -/

/-- What a token adds to the depth of braces. -/
def weight : Token.Kind → Int
  | .leftBrace => 1
  | .rightBrace => -1
  | _ => 0

/-- The depth of braces behind tokens: a brace that closes takes nothing away where none is open. -/
def braces (ts : List Token) : Int := ts.foldl (fun depth t => max 0 (depth + weight t.kind)) 0

theorem braces_concat (ts : List Token) (t : Token) :
    braces (ts ++ [t]) = max 0 (braces ts + weight t.kind) := by
  rw [braces, List.foldl_append]
  rfl

/-- The lexer counts the braces. -/
theorem depthAfter_eq_braces (h : (depth : Int) = braces ts) (t : Token) :
    (depthAfter depth t.kind : Int) = braces (ts ++ [t]) := by
  rw [braces_concat, ← h]
  generalize t.kind = kind
  cases kind <;> simp only [depthAfter, weight] <;> omega

/-! ### Texts and tags -/

/-- Texts and whole tags.  An expression is closed where no brace is open in it. -/
inductive Row : List Token → Prop
  | nil : Row []
  | text {t : Token} {ts : List Token} : t.kind = .text → Row ts → Row (t :: ts)
  | tag {tag : Tag} {o c : Token} {inner ts : List Token} : o.kind = tag.openKind → AllInner inner →
      c.kind = tag.closeKind → (tag = .expression → braces inner = 0) → Row ts →
      Row (o :: (inner ++ c :: ts))

/-- Texts and whole tags, and behind them the tokens of the tag that is open, if one is, in which
braces are open to the depth. -/
inductive Shaped : List Token → Option Tag → Nat → Prop
  | whole {ts : List Token} {depth : Nat} : Row ts → Shaped ts none depth
  | unfinished {tag : Tag} {whole inner : List Token} {o : Token} {depth : Nat} : Row whole →
      o.kind = tag.openKind → AllInner inner → (depth : Int) = braces inner →
      Shaped (whole ++ o :: inner) (some tag) depth

theorem Row.append (h : Row ts) (h' : Row us) : Row (ts ++ us) := by
  induction h with
  | nil => exact h'
  | text ht _ ih => exact .text ht ih
  | tag ho hinner hc hbraces _ ih =>
    rw [List.cons_append, List.append_assoc, List.cons_append]
    exact .tag ho hinner hc hbraces ih

theorem Shaped.row (h : Shaped ts none depth) : Row ts := by
  cases h with
  | whole h => exact h

/-- A token inside the open tag. -/
theorem Shaped.push (h : Shaped ts (some tag) depth) (ht : t.kind.isInner = true) :
    Shaped (ts ++ [t]) (some tag) (depthAfter depth t.kind) := by
  cases h with
  | unfinished hwhole ho hinner hbraces =>
    rw [List.append_assoc, List.cons_append]
    exact .unfinished hwhole ho (allInner_append.mpr ⟨hinner, allInner_cons.mpr ⟨ht, allInner_nil⟩⟩)
      (depthAfter_eq_braces hbraces t)

/-- The mark that closes the open tag. -/
theorem Shaped.close (h : Shaped ts (some tag) depth) (hdepth : tag = .expression → depth = 0)
    (ht : t.kind = tag.closeKind) : Row (ts ++ [t]) := by
  cases h with
  | @unfinished _ whole inner o _ hwhole ho hinner hbraces =>
    have hopen : tag = .expression → braces inner = 0 := fun htag => by
      rw [← hbraces, hdepth htag]
      rfl
    rw [List.append_assoc, List.cons_append]
    exact hwhole.append (.tag ho hinner ht hopen .nil)

/-- The depth of braces in a mode, which is of no matter outside tags. -/
def Mode.braceDepth : Mode → Nat
  | outside => 0
  | inside _ depth _ => depth

/-- **A segment keeps the shape.** -/
theorem Shaped.step (h : Shaped ts m.openTag m.braceDepth) (hleads : Leads m s m') (place : Place) :
    Shaped (ts ++ (s.tokenAt place).toList) m'.openTag m'.braceDepth := by
  cases hleads with
  | comment | spacing =>
    rw [show (Segment.tokenAt _ place).toList = [] from rfl, List.append_nil]
    exact h
  | text run => exact .whole (h.row.append (.text rfl .nil))
  | opener tag => exact .unfinished h.row rfl allInner_nil rfl
  | closer hdepth => exact .whole (h.close hdepth rfl)
  | token hlexical => exact h.push hlexical.isInner

/-- **So does a row of segments.** -/
theorem Scans.shaped (h : Scans m cs segments m' rest) : ∀ {ts : List Token} (place : Place),
    Shaped ts m.openTag m.braceDepth →
    Shaped (ts ++ tokensOf place segments) m'.openTag m'.braceDepth := by
  induction h with
  | nil =>
    intro ts place hshaped
    rwa [tokensOf, List.append_nil]
  | @cons _ _ _ s _ _ _ _ hs _ ih =>
    intro ts place hshaped
    rw [tokensOf, ← List.append_assoc]
    exact ih (place.after s.spelling) (hshaped.step (leads_of_scan hs) place)

/-- Behind any calls the tokens have that shape, and the tag that is open is that of the lexer. -/
theorem shaped_calls (source : String) (n : Nat) : Shaped (calls n (ofText source)).1
    (calls n (ofText source)).2.openTag (calls n (ofText source)).2.braceDepth := by
  obtain ⟨segments, rest, hscans, htokens, -⟩ := trails_calls source n
  have hshaped := hscans.shaped .start (.whole .nil)
  rw [List.nil_append, htokens] at hshaped
  generalize (calls n (ofText source)).2 = lexer at hshaped ⊢
  unfold mode at hshaped
  cases htag : lexer.openTag with
  | none =>
    rw [htag] at hshaped
    exact .whole hshaped.row
  | some tag =>
    rw [htag] at hshaped
    exact hshaped

/-! ### Texts next to each other -/

/-- A comment, which ends at the first mark that ends one. -/
def IsComment (cs : List Char) : Prop :=
  ∃ inside, cs = '{' :: '#' :: inside ++ ['#', '}'] ∧ EndsAtMark (inside ++ ['#', '}'])

/-- In the text there are comments between two texts, one at least, and nothing else. -/
def Apart (source : List Char) (t u : Token) : Prop :=
  ∃ (front : List Char) (comments : List (List Char)) (behind : List Char),
    source = front ++ (t.value.toList ++ (comments.flatten ++ (u.value.toList ++ behind))) ∧
    comments ≠ [] ∧ (∀ cs ∈ comments, IsComment cs) ∧ StandsAt t (Place.start.after front) ∧
    StandsAt u (Place.start.after (front ++ (t.value.toList ++ comments.flatten)))

/-- Where a token is in the row, there is the segment that stands for it. -/
theorem exists_split_of_tokensOf (segments : List Segment) : ∀ {place : Place} {before : List Token},
    tokensOf place segments = before ++ t :: after →
    ∃ front s behind, segments = front ++ s :: behind ∧ tokensOf place front = before ∧
      s.tokenAt (place.after (spellingOf front)) = some t ∧
      tokensOf (place.after (spellingOf front ++ s.spelling)) behind = after := by
  induction segments with
  | nil =>
    intro place before h
    simp [tokensOf] at h
  | cons s segments ih =>
    intro place before h
    -- the token is in a later segment, and the first one is passed
    have further {before' : List Token} (hbefore : (s.tokenAt place).toList ++ before' = before)
        (h' : tokensOf (place.after s.spelling) segments = before' ++ t :: after) :
        ∃ front s' behind, s :: segments = front ++ s' :: behind ∧ tokensOf place front = before ∧
          s'.tokenAt (place.after (spellingOf front)) = some t ∧
          tokensOf (place.after (spellingOf front ++ s'.spelling)) behind = after := by
      obtain ⟨front, s', behind, rfl, rfl, hs', rfl⟩ := ih h'
      refine ⟨s :: front, s', behind, rfl, hbefore, ?_, ?_⟩
      · rwa [spellingOf_cons, Place.after_append]
      · rw [spellingOf_cons, List.append_assoc, Place.after_append]
    cases htoken : s.tokenAt place with
    | none =>
      rw [tokensOf, htoken] at h
      exact further (by rw [htoken]; rfl) h
    | some x =>
      rw [tokensOf, htoken] at h
      cases before with
      | nil =>
        cases h
        exact ⟨[], s, segments, rfl, rfl, htoken, rfl⟩
      | cons y before =>
        obtain ⟨rfl, htail⟩ := List.cons.inj h
        exact further (by rw [htoken]; rfl) htail

theorem Cuts.split {front behind : List Segment} {openTag' : Option Tag} :
    ∀ {openTag cs}, Cuts openTag cs (front ++ behind) openTag' rest →
      ∃ mid cs', Cuts openTag cs front mid cs' ∧ Cuts mid cs' behind openTag' rest := by
  induction front with
  | nil => exact fun h => ⟨_, _, .nil _ _, h⟩
  | cons s front ih =>
    intro openTag cs h
    cases h with
    | cons hs h =>
      obtain ⟨mid, cs', hfront, hbehind⟩ := ih h
      exact ⟨mid, cs', .cons hs hfront, hbehind⟩

/-- A text stands outside tags, and goes up to a tag, a comment or the end. -/
theorem Admits.of_text {tag tag' : Option Tag} (h : Admits tag s rest tag')
    (hs : s.tokenAt place = some t) (ht : t.kind = .text) :
    tag = none ∧ tag' = none ∧ s.spelling = t.value.toList ∧ s.spelling ≠ [] ∧
      IsPlain s.spelling rest ∧ (rest = [] ∨ Lexeme.startsMarkup rest = true) := by
  cases h with
  | comment | spacing => cases hs
  | text hne hplain hrest =>
    cases hs
    exact ⟨rfl, rfl, String.toList_ofList.symm, hne, hplain, hrest⟩
  | opener tag | closer tag => cases hs; cases tag <;> cases ht
  | token h =>
    cases hs
    cases ht
    cases h.isInner

theorem silent_of_tokensOf : ∀ {place : Place}, tokensOf place gap = [] → Silent gap := by
  induction gap with
  | nil => exact fun _ _ h => nomatch h
  | cons s gap ih =>
    intro place h
    obtain ⟨hs, hgap⟩ := List.append_eq_nil_iff.mp h
    refine List.forall_mem_cons.mpr ⟨?_, ih hgap⟩
    exact Option.map_eq_none_iff.mp (Option.toList_eq_nil_iff.mp hs)

/-- What makes no token outside tags is a comment. -/
theorem Cuts.comments {tag tag' : Option Tag} (h : Cuts tag cs gap tag' rest) : tag = none →
    Silent gap → ∀ s ∈ gap, IsComment s.spelling := by
  induction h with
  | nil => exact fun _ _ _ h => nomatch h
  | cons hs _ ih =>
    rintro rfl hsilent
    obtain ⟨hcontent, hrest⟩ := List.forall_mem_cons.mp hsilent
    cases hs with
    | comment hmark => exact List.forall_mem_cons.mpr ⟨⟨_, rfl, hmark⟩, ih rfl hrest⟩
    | text | opener => cases hcontent

/-- **Between two texts next to each other there is a comment.** -/
theorem Cuts.apart {tag' : Option Tag} (h : Cuts none source segments tag' rest)
    (htokens : tokensOf .start segments = before ++ t :: u :: after) (ht : t.kind = .text)
    (hu : u.kind = .text) : Apart source t u := by
  obtain ⟨front, s, behind, rfl, -, hs, hbehind⟩ := exists_split_of_tokensOf segments htokens
  obtain ⟨gap, s', behind, rfl, hgap, hs', -⟩ :=
    exists_split_of_tokensOf behind (show _ = [] ++ u :: after from hbehind)
  obtain ⟨_, _, hfront, hmid⟩ := h.split
  -- the first text is a segment, and the second one too; what is between them has no token
  cases hmid with
  | cons hadmits hmid =>
    obtain ⟨rfl, rfl, hspelling, -, -, hmarkup⟩ := hadmits.of_text hs ht
    obtain ⟨_, _, hcomments, hlast⟩ := hmid.split
    cases hlast with
    | cons hadmits' hlast =>
      obtain ⟨rfl, rfl, hspelling', hne, hplain, -⟩ := hadmits'.of_text hs' hu
      have hflat : (gap.map Segment.spelling).flatten = spellingOf gap := List.flatMap_def.symm
      refine ⟨spellingOf front, gap.map Segment.spelling, spellingOf behind ++ rest, ?_, ?_, ?_,
        standsAt_of_tokenAt hs, ?_⟩
      · rw [h.spelling_append, hflat, ← hspelling, ← hspelling']
        simp only [spellingOf_append, spellingOf_cons, List.append_assoc]
      · -- no plain text starts where plain text has ended
        rintro hnil
        obtain rfl := List.map_eq_nil_iff.mp hnil
        cases hcomments with
        | nil =>
          have hfalse := hplain [] s'.spelling rfl hne
          rcases hmarkup with hnil | htrue
          · exact hne (List.append_eq_nil_iff.mp hnil).1
          · cases hfalse.symm.trans htrue
      · exact List.forall_mem_map.mpr (hcomments.comments rfl (silent_of_tokensOf hgap))
      · rw [hflat, ← hspelling, ← List.append_assoc, Place.after_append]
        exact standsAt_of_tokenAt hs'

/-! ### Any calls -/

/-- Behind any calls texts next to each other have a comment between them. -/
theorem apart_calls (source : String) (n : Nat)
    (h : (calls n (ofText source)).1 = before ++ t :: u :: after) (ht : t.kind = .text)
    (hu : u.kind = .text) : Apart source.toList t u := by
  obtain ⟨segments, rest, hscans, htokens, -⟩ := trails_calls source n
  exact hscans.cuts.apart (htokens.trans h) ht hu

/-- **The shape of the tokens.**  Behind any calls on a text the tokens so far are texts and whole
tags, and behind them the tokens of the tag that is open in the lexer, if one is: what opens it, and
tokens of its inside, in which as many braces are open as the lexer has counted.  Texts next to each
other have a comment between them.  And where the lexer comes to the end, no tag is open. -/
theorem shape_of_calls (source : String) : (∀ n, Shaped (calls n (ofText source)).1
      (calls n (ofText source)).2.openTag (calls n (ofText source)).2.braceDepth) ∧
    (∀ n before t u after, (calls n (ofText source)).1 = before ++ t :: u :: after →
      t.kind = .text → u.kind = .text → Apart source.toList t u) ∧
    ∀ ts lexer, tokens.run (ofText source) = .ok ts lexer → lexer.openTag = none := by
  refine ⟨shaped_calls source, fun n before t u after => apart_calls source n, fun ts lexer hrun => ?_⟩
  exact (passes_drain _ (ofText source) ts (Nat.lt_succ_self _) hrun).2.1

end Stencil.Lexer
