import Stencil.Proofs.Lexer.Agreement

/-!
# Lexer — call after call

What one call of the lexer can do (`outcome_next`): it passes comments and spacing, and then it is at
the end, or makes the token of the segment that is scanned there, or fails over a flaw.  So a call
that makes a token takes a character at least (`position_lt_of_next`), and at the end of the input
nothing changes any more (`next_of_endOfInput`).

`calls` are calls in a row, where a call that fails makes no token and the next one goes on from there.
Behind any of them the tokens that were made are those of segments from the start of the text
(`trails_calls`): behind a failure no further token is made.
-/

namespace Stencil.Lexer

variable {lexer lexer' mid : Lexer} {m m' : Mode} {s : Segment} {segments gap more : List Segment}
  {cs rest source : List Char} {f : Flaw} {e : Error} {token : Token} {ts : List Token}

/-! ### Segments without a token -/

/-- The segments stand for no token. -/
def Silent (segments : List Segment) : Prop := ∀ s ∈ segments, s.content = none

theorem tokensOf_of_silent (h : Silent gap) : ∀ place : Place, tokensOf place gap = [] := by
  induction gap with
  | nil => exact fun _ => rfl
  | cons s gap ih =>
    obtain ⟨hs, hgap⟩ := List.forall_mem_cons.mp h
    intro place
    rw [tokensOf, Segment.tokenAt, hs, ih hgap]
    rfl

/-- Comments and spacing leave the mode as it is. -/
theorem mode_of_silent (h : scan m cs = .segment s m' rest) (hs : s.content = none) : m' = m := by
  cases leads_of_scan h with
  | comment | spacing => rfl
  | text | opener | closer | token => cases hs

/-- Where nothing is left no segment is scanned. -/
theorem scan_nil_ne (m : Mode) : scan m [] ≠ .segment s m' rest := by
  cases m <;> nofun

/-- The token has the line and the column of a place. -/
def StandsAt (t : Token) (place : Place) : Prop := t.line = place.line ∧ t.column = place.column

theorem standsAt_of_tokenAt {place : Place} (h : s.tokenAt place = some token) :
    StandsAt token place := by
  obtain ⟨content, -, rfl⟩ := Option.map_eq_some_iff.mp h
  exact ⟨rfl, rfl⟩

/-! ### One call -/

/-- From the one lexer to the other, segments without a token are passed. -/
structure Skips (lexer : Lexer) (gap : List Segment) (mid : Lexer) : Prop where
  silent : Silent gap
  scans : Scans lexer.mode lexer.cursor.rest gap mid.mode mid.cursor.rest
  mode_eq : mid.mode = lexer.mode
  place_eq : mid.cursor.place = lexer.cursor.place.after (spellingOf gap)
  next_eq : next.run lexer = next.run mid

theorem Skips.refl (lexer : Lexer) : Skips lexer [] lexer where
  silent := fun _ h => nomatch h
  scans := .nil _ _
  mode_eq := rfl
  place_eq := rfl
  next_eq := rfl

theorem Skips.cons (hs : s.content = none)
    (h : scan lexer.mode lexer.cursor.rest = .segment s m rest) :
    ∃ mid, mid.cursor.rest = rest ∧
      ∀ {gap lexer'}, Skips mid gap lexer' → Skips lexer (s :: gap) lexer' := by
  obtain ⟨mid, hmode, hcursor, hnext⟩ := takes_of_scan h
  have hmode' : mid.mode = lexer.mode := hmode.trans (mode_of_silent h hs)
  rw [Segment.tokenAt, hs] at hnext
  refine ⟨mid, by rw [hcursor]; rfl, fun {gap lexer'} hskips => ?_⟩
  have hscans := hskips.scans
  rw [hmode, hcursor] at hscans
  refine ⟨List.forall_mem_cons.mpr ⟨hs, hskips.silent⟩, .cons h hscans,
    hskips.mode_eq.trans hmode', ?_, hnext.trans hskips.next_eq⟩
  rw [hskips.place_eq, hcursor, spellingOf_cons, Place.after_append]
  rfl

/-- The lexer passes comments or spacing up to a segment with a token, to a flaw or to the end. -/
theorem exists_skips (lexer : Lexer) : ∃ gap mid, Skips lexer gap mid ∧
    ∀ s m rest, scan mid.mode mid.cursor.rest = .segment s m rest → s.content ≠ none := by
  by_cases hsilent : ∃ s m rest,
      scan lexer.mode lexer.cursor.rest = .segment s m rest ∧ s.content = none
  · obtain ⟨s, m, rest, hscan, hs⟩ := hsilent
    have hlt := length_lt_of_scan hscan
    obtain ⟨mid, rfl, hcons⟩ := Skips.cons hs hscan
    obtain ⟨gap, lexer', hskips, hend⟩ := exists_skips mid
    exact ⟨s :: gap, lexer', hcons hskips, hend⟩
  · exact ⟨[], lexer, .refl lexer, fun s m rest hscan hs => hsilent ⟨s, m, rest, hscan, hs⟩⟩
termination_by lexer.cursor.rest.length

/-- The token that stands for the end of the input at a place. -/
def endAt (place : Place) : Token := ⟨.endOfInput, "EOF", place.line, place.column⟩

/-- What a call may come to. -/
inductive Outcome (lexer : Lexer) : EStateM.Result Error Lexer Token → Prop
  | ended {gap : List Segment} {mid : Lexer} : Skips lexer gap mid →
      scan mid.mode mid.cursor.rest = .ended → Outcome lexer (.ok (endAt mid.cursor.place) mid)
  | made {gap : List Segment} {mid lexer' : Lexer} {s : Segment} {token : Token} :
      Skips lexer gap mid →
      scan mid.mode mid.cursor.rest = .segment s lexer'.mode lexer'.cursor.rest →
      lexer'.cursor.place = mid.cursor.place.after s.spelling →
      s.tokenAt mid.cursor.place = some token → Outcome lexer (.ok token lexer')
  | failed {gap : List Segment} {mid : Lexer} {f : Flaw} : Skips lexer gap mid →
      scan mid.mode mid.cursor.rest = .flaw f →
      Outcome lexer (.error (f.errorAt mid.cursor.place) (mid.halted f))

/-- **What one call does.** -/
theorem outcome_next (lexer : Lexer) : Outcome lexer (next.run lexer) := by
  obtain ⟨gap, mid, hskips, hsounds⟩ := exists_skips lexer
  rw [hskips.next_eq]
  cases hscan : scan mid.mode mid.cursor.rest with
  | ended =>
    rw [next_of_ended hscan]
    exact .ended hskips hscan
  | flaw f =>
    rw [next_of_flaw hscan]
    exact .failed hskips hscan
  | segment s m rest =>
    obtain ⟨content, hcontent⟩ := Option.ne_none_iff_exists'.mp (hsounds s m rest hscan)
    obtain ⟨lexer', rfl, hcursor, hnext⟩ := takes_of_scan hscan
    rw [hnext, Segment.tokenAt, hcontent]
    refine .made hskips (hscan.trans ?_) (by rw [hcursor]; rfl) ?_
    · rw [hcursor]
      rfl
    · rw [Segment.tokenAt, hcontent]
      rfl

/-- A token that a segment stands for is not the end of the input. -/
theorem kind_ne_of_scan {place : Place} (h : scan m cs = .segment s m' rest)
    (htoken : s.tokenAt place = some token) : token.kind ≠ .endOfInput :=
  (admits_of_scan h).2.kind_ne htoken

/-- **A call that makes a token moves on.** -/
theorem position_lt_of_next (h : next.run lexer = .ok token lexer') (hkind : token.kind ≠ .endOfInput) :
    lexer.cursor.place.position < lexer'.cursor.place.position := by
  have houtcome := outcome_next lexer
  rw [h] at houtcome
  cases houtcome with
  | ended => exact absurd rfl hkind
  | made hskips hscan hplace _ =>
    have hpos := List.length_pos_iff.mpr (admits_of_scan hscan).2.ne_nil
    rw [hplace, hskips.place_eq, Place.position_after, Place.position_after]
    omega

/-- **At the end of the input nothing changes.** -/
theorem next_of_endOfInput (h : next.run lexer = .ok token lexer') (hkind : token.kind = .endOfInput) :
    next.run lexer' = .ok token lexer' := by
  have houtcome := outcome_next lexer
  rw [h] at houtcome
  cases houtcome with
  | ended _ hended => exact next_of_ended hended
  | made _ hscan _ htoken => exact absurd hkind (kind_ne_of_scan hscan htoken)

/-! ### Calls in a row -/

/-- The tokens that so many calls make, without the end of the input, and the lexer behind them. -/
def calls : Nat → Lexer → List Token × Lexer
  | 0, lexer => ([], lexer)
  | n + 1, lexer =>
    match next.run lexer with
    | .ok token lexer' =>
      if token.kind = .endOfInput then calls n lexer'
      else (token :: (calls n lexer').1, (calls n lexer').2)
    | .error _ lexer' => calls n lexer'

/-- No further token is made. -/
def Stuck (lexer : Lexer) : Prop :=
  ∀ s m rest, scan lexer.mode lexer.cursor.rest ≠ .segment s m rest

theorem Stuck.of_eq (h : Stuck lexer) (hmode : lexer'.mode = lexer.mode)
    (hrest : lexer'.cursor.rest = lexer.cursor.rest) : Stuck lexer' := by
  intro s m rest hscan
  rw [hmode, hrest] at hscan
  exact h s m rest hscan

/-- The tokens are those of segments from the start of the text, behind which the mode is that of the
lexer; and the lexer stands behind them, or it makes no further token. -/
def Trails (source : List Char) (ts : List Token) (lexer : Lexer) : Prop :=
  ∃ segments rest, Scans .outside source segments lexer.mode rest ∧ tokensOf .start segments = ts ∧
    (lexer.cursor = ⟨Place.start.after (spellingOf segments), rest⟩ ∨ Stuck lexer)

theorem trails_ofText (source : String) : Trails source.toList [] (ofText source) :=
  ⟨[], source.toList, .nil _ _, rfl, .inl rfl⟩

/-- A lexer that makes no further token passes nothing. -/
theorem Stuck.of_skips (h : Stuck lexer) (hskips : Skips lexer gap mid) : gap = [] ∧ Stuck mid := by
  obtain ⟨-, hscans, hmode, -, -⟩ := hskips
  generalize hrest : mid.cursor.rest = rest at hscans
  generalize hm : mid.mode = m at hscans
  cases hscans with
  | nil => exact ⟨rfl, h.of_eq hmode hrest⟩
  | cons hs _ => exact absurd hs (h _ _ _)

theorem mode_halted (lexer : Lexer) (f : Flaw) : (lexer.halted f).mode = lexer.mode := by
  cases f <;> rfl

/-- Behind a failure no token is made. -/
theorem stuck_halted (h : scan lexer.mode lexer.cursor.rest = .flaw f) : Stuck (lexer.halted f) := by
  have here : Stuck lexer := by
    intro s m rest hscan
    cases hscan.symm.trans h
  have there : Stuck (lexer.beyond lexer.cursor.rest []) := fun s m rest => scan_nil_ne _
  cases f with
  | comment | string => exact there
  | tag | character => exact here

theorem Trails.skip (h : Trails source ts lexer) (hskips : Skips lexer gap mid) :
    Trails source ts mid := by
  obtain ⟨segments, rest, hscans, rfl, hcursor | hstuck⟩ := h
  · have hgap := hskips.scans
    rw [hcursor] at hgap
    have hplace : lexer.cursor.place = Place.start.after (spellingOf segments) := by rw [hcursor]
    refine ⟨segments ++ gap, mid.cursor.rest, hscans.append hgap, ?_, .inl ?_⟩
    · rw [tokensOf_append, tokensOf_of_silent hskips.silent, List.append_nil]
    · rw [spellingOf_append, Place.after_append, ← hplace, ← hskips.place_eq]
  · refine ⟨segments, rest, ?_, rfl, .inr (hstuck.of_skips hskips).2⟩
    rwa [hskips.mode_eq]

/-- **What a call adds.** -/
theorem Trails.next (h : Trails source ts lexer) : match Lexer.next.run lexer with
    | .ok token lexer' => if token.kind = .endOfInput then Trails source ts lexer'
      else Trails source (ts ++ [token]) lexer'
    | .error _ lexer' => Trails source ts lexer' := by
  have houtcome := outcome_next lexer
  generalize Lexer.next.run lexer = result at houtcome ⊢
  cases houtcome with
  | ended hskips _ => exact h.skip hskips
  | @made gap mid lexer' s token hskips hscan hplace htoken =>
    dsimp only
    rw [if_neg (kind_ne_of_scan hscan htoken)]
    obtain ⟨segments, rest, hscans, rfl, hcursor | hstuck⟩ := h.skip hskips
    · rw [hcursor] at hscan hplace htoken
      refine ⟨segments ++ [s], lexer'.cursor.rest, hscans.append (.cons hscan (.nil _ _)), ?_, .inl ?_⟩
      · rw [tokensOf_append, tokensOf, htoken]
        rfl
      · rw [spellingOf_append, spellingOf_cons, spellingOf_nil, List.append_nil, Place.after_append,
          ← hplace]
    · exact absurd hscan (hstuck _ _ _)
  | @failed gap mid f hskips hflaw =>
    obtain ⟨segments, rest, hscans, rfl, -⟩ := h.skip hskips
    refine ⟨segments, rest, ?_, rfl, .inr (stuck_halted hflaw)⟩
    rwa [mode_halted]

theorem Trails.calls (n : Nat) : ∀ {lexer : Lexer} {ts : List Token}, Trails source ts lexer →
    Trails source (ts ++ (Lexer.calls n lexer).1) (Lexer.calls n lexer).2 := by
  induction n with
  | zero =>
    intro lexer ts h
    rwa [Lexer.calls, List.append_nil]
  | succ n ih =>
    intro lexer ts h
    have hnext := h.next
    rw [Lexer.calls]
    cases hrun : Lexer.next.run lexer with
    | ok token lexer' =>
      rw [hrun] at hnext
      dsimp only at hnext ⊢
      split_ifs at hnext ⊢
      · exact ih hnext
      · simpa using ih hnext
    | error e lexer' =>
      rw [hrun] at hnext
      exact ih hnext

/-- **Behind any calls the tokens are those of segments from the start of the text.** -/
theorem trails_calls (source : String) (n : Nat) :
    Trails source.toList (calls n (ofText source)).1 (calls n (ofText source)).2 :=
  (trails_ofText source).calls n

end Stencil.Lexer
