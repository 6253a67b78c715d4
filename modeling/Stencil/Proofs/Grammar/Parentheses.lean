import Stencil.Proofs.Grammar.Completeness
import Stencil.Proofs.Grammar.Locality
import Stencil.Proofs.Grammar.Tokens

/-!
# Grammar — redundant parentheses

Parentheses around what a level has taken change nothing (`parentheses_redundant`): the level takes
them as well, builds the same tree, and stops in front of the same token.

Behind the closing parenthesis every level from the primary up to this one comes to that token, and
each of them has to stop there.  None of their operators stands there, for the level would have gone
on with it without the parentheses (`Level.unjoined`).  What remains are the tokens that go on from
a primary but not from every expression (`resumes`); the statement sets them apart.
-/

namespace Stencil.Parser

/-- A repetition ends where no further step begins.  What every step leaves behind itself, the
repetition leaves. -/
theorem extendFor_stops {step : Steps} (hs : Advances step) {P : List Token → Prop}
    (hstep : ∀ {node next : Node} {p : Parser Node} {ts rest : List Token},
      step node (front ts).kind = some p → p.run ts = .ok next rest → P rest)
    {rounds : Nat} {node n : Node} {ts rest : List Token} (hr : ts.length ≤ rounds) (hts : P ts)
    (h : (extendFor step rounds node).run ts = .ok n rest) :
    P rest ∧ step n (front rest).kind = none := by
  induction rounds generalizing node ts with
  | zero =>
    cases h
    obtain rfl := List.length_eq_zero_iff.mp (Nat.le_zero.mp hr)
    exact ⟨hts, hs.endOfInput n⟩
  | succ rounds ih =>
    cases hnext : step node (front ts).kind with
    | none =>
      rw [extendFor_of_none hnext] at h
      cases h
      exact ⟨hts, hnext⟩
    | some p =>
      rw [extendFor_of_some hnext, bind_eq_ok] at h
      obtain ⟨next, mid, hp, h⟩ := h
      have hlt := hs.shorter hnext hp
      exact ih (by omega) (hstep hnext hp) h

namespace Session

/-- The session with a token before what lies between its position and a later one, and a token
behind it. -/
def enclosed (s after : Session) (o c : Token) : Session :=
  { s with tokens := s.tokens.take s.position ++ o :: (s.taken after ++ c :: after.left) }

theorem left_enclosed {s : Session} (hs : s.position ≤ s.tokens.length) (after : Session)
    (o c : Token) : (s.enclosed after o c).left = o :: (s.taken after ++ c :: after.left) :=
  List.drop_left' (List.length_take_of_le hs)

/-- A position with tokens behind it is one of those of the tokens. -/
theorem position_le_of_left {s : Session} (h : s.left ≠ []) : s.position ≤ s.tokens.length := by
  by_contra hlt
  exact h (List.drop_eq_nil_of_le (by omega))

end Session

end Stencil.Parser

namespace Stencil.Grammar
open Stencil.Parser Filter

variable {l m : Level} {d : Nat} {n : Node} {ts rest : List Token} {kind : Token.Kind}

/-! ### Where a level stops -/

/-- The token at hand is no operator of the level, or of a tighter one. -/
def Unjoined (l : Level) (rest : List Token) : Prop :=
  ∀ m : Level, m.rank ≤ l.rank → m.joins (front rest).kind = false

/-- Tests and the tighter levels have no operators. -/
theorem unjoined_of_le_tested (h : l.rank ≤ Level.tested.rank) (rest : List Token) :
    Unjoined l rest := by
  intro m hm
  by_contra hjoins
  obtain ⟨k, -, hrank, hle, -⟩ := Level.exists_operand (Bool.not_eq_false _ ▸ hjoins)
  omega

theorem Unjoined.loosen (h : Unjoined m rest) (hm : l.tighter? = some m)
    (hl : l.joins (front rest).kind = false) : Unjoined l rest := by
  intro k hk
  by_cases heq : k = l
  · exact heq ▸ hl
  · obtain ⟨j, hj, hle⟩ := Level.exists_tighter heq hk
    cases hm.symm.trans hj
    exact h k hle

/-- The tokens that go on from what stands in parentheses, whatever stands there. -/
def resumes : Token.Kind → Bool
  | .dot | .leftBracket | .leftParen | .pipe | .kwIs | .kwIf => true
  | _ => false

/-- Looser than a test, a level goes on by its operators alone.  The tighter levels go on at the
tokens that resume. -/
theorem Level.step_eq_none (hjoins : l.joins kind = false)
    (h : tested.rank < l.rank ∨ resumes kind = false) : l.step d n kind = none := by
  have hif : ¬ l.joins kind = true := Bool.eq_false_iff.mp hjoins
  cases l with
  | disjunction | conjunction | comparison | sum | product => exact if_neg hif
  | tested => exact if_neg fun he => by subst he; exact h.elim (by decide) nofun
  | filtered => exact if_neg fun he => by subst he; exact h.elim (by decide) nofun
  | chained =>
    have hk := h.resolve_left (by decide)
    cases kind <;> first | rfl | cases hk
  | expression | negation | primary => rfl

/-- A repetition ends behind its last operand, and not at one of its own operators. -/
theorem unjoined_repeats (hl : l.repeats = true) (hm : l.tighter? = some m)
    (hlow : Level.tested.rank < l.rank)
    (hoperand : ∀ {ts rest : List Token} {n : Node}, (m.parser d).run ts = .ok n rest →
      Unjoined m rest)
    (h : (l.parser (d + 1)).run ts = .ok n rest) : Unjoined l rest := by
  rw [Level.parser_succ hl hm, extend_run, bind_eq_ok] at h
  obtain ⟨first, mid, hfirst, h⟩ := h
  have hstep {node next : Node} {p : Parser Node} {us vs : List Token}
      (hp : l.step d node (front us).kind = some p) (hrun : p.run us = .ok next vs) :
      Unjoined m vs := by
    by_cases hjoins : l.joins (front us).kind = true
    · rw [Level.step_of_joins hm hjoins] at hp
      cases hp
      obtain ⟨o, left, -, hrun⟩ := bind_eq_ok.mp hrun
      obtain ⟨right, left', hright, hrun⟩ := bind_eq_ok.mp hrun
      obtain ⟨-, rfl⟩ := pure_eq_ok.mp hrun
      exact hoperand hright
    · cases (Level.step_eq_none (Bool.eq_false_iff.mpr hjoins) (.inl hlow)).symm.trans hp
  obtain ⟨htighter, hnone⟩ := extendFor_stops (l.advances_step d) hstep (Nat.le_refl _)
    (hoperand hfirst) h
  refine htighter.loosen hm (Bool.eq_false_iff.mpr fun hjoins => ?_)
  rw [Level.step_of_joins hm hjoins] at hnone
  cases hnone

/-- **Behind what a level has taken stands none of its operators**, and none of a tighter level. -/
theorem Level.unjoined (h : (l.parser d).run ts = .ok n rest) : Unjoined l rest := by
  induction d generalizing l ts n rest with
  | zero =>
    have hdeep : (l.parser 0).run ts = tooDeep.run ts := by cases l <;> rfl
    rw [hdeep, tooDeep, failHere_run] at h
    cases h
  | succ d ih =>
    cases l with
    | expression =>
      obtain ⟨value, mid, hvalue, h⟩ := bind_eq_ok.mp h
      rw [bind_of_ok (current_run mid)] at h
      split at h
      · simp only [bind_eq_ok] at h
        obtain ⟨_, _, _, _, _, _, _, _, _, other, _, hother, h⟩ := h
        obtain ⟨-, rfl⟩ := pure_eq_ok.mp h
        exact (ih (l := disjunction) hother).loosen rfl rfl
      · obtain ⟨-, rfl⟩ := pure_eq_ok.mp h
        exact (ih (l := disjunction) hvalue).loosen rfl rfl
    | negation =>
      obtain ⟨t, mid, ht, h⟩ := bind_eq_ok.mp h
      split at h
      · simp only [bind_eq_ok] at h
        obtain ⟨_, _, _, inner, _, hinner, h⟩ := h
        obtain ⟨-, rfl⟩ := pure_eq_ok.mp h
        exact ih (l := negation) hinner
      · exact (ih (l := comparison) h).loosen rfl rfl
    | disjunction | conjunction | comparison | sum | product =>
      exact unjoined_repeats rfl rfl (by decide) ih h
    | tested | filtered | chained | primary => exact unjoined_of_le_tested (by decide) rest

/-! ### Parentheses around what a level takes -/

/-- A token that neither joins nor resumes stops the level. -/
theorem Unjoined.stops (h : Unjoined l rest) (hk : resumes (front rest).kind = false) :
    Stops l.rank rest := by
  have joiner {kind : Token.Kind} (hlt : rankOf kind < Level.expression.rank)
      (hk : resumes kind = false) : ∃ m : Level, m.joins kind = true ∧ m.rank = rankOf kind := by
    cases kind with
    | comparison | kwIn | kwNotIn => exact ⟨.comparison, rfl, rfl⟩
    | kwAnd => exact ⟨.conjunction, rfl, rfl⟩
    | kwOr => exact ⟨.disjunction, rfl, rfl⟩
    | additive => exact ⟨.sum, rfl, rfl⟩
    | multiplicative => exact ⟨.product, rfl, rfl⟩
    | dot | leftBracket | leftParen | pipe | kwIs | kwIf => cases hk
    | other => exact absurd hlt (Nat.not_lt_of_le (Nat.le_succ _))
    | _ => exact absurd hlt (by decide)
  by_contra hstops
  have hlt : rankOf (front rest).kind < l.rank := Nat.lt_of_not_le hstops
  have hle : l.rank ≤ Level.expression.rank := by cases l <;> decide
  obtain ⟨m, hjoins, hrank⟩ := joiner (hlt.trans_le hle) hk
  cases (h m (by omega)).symm.trans hjoins

/-- A level that takes some tokens takes them in parentheses, with depth enough. -/
theorem eventually_parenthesized {o c : Token} (h : (l.parser d).run (ts ++ rest) = .ok n rest)
    (hk : resumes (front rest).kind = false) (ho : o.kind = .leftParen)
    (hc : c.kind = .rightParen) :
    ∀ᶠ e in atTop, (l.parser e).run (o :: (ts ++ [c]) ++ rest) = .ok n rest := by
  obtain ⟨used, hused, hn⟩ := (rules_sound d).level l h
  obtain rfl := List.append_cancel_right hused
  have hexpression : Derives (.level .expression) ts n := hn.loosen (by cases l <;> decide)
  have hlevel : Derives (.level l) (o :: (ts ++ [c])) n :=
    (Derives.parenthesis ho hexpression hc).loosen (Nat.zero_le _)
  filter_upwards [hlevel.found.stopped] with e he
  exact he rest ((Level.unjoined h).stops hk) fun e =>
    Level.step_eq_none (Level.unjoined h l (Nat.le_refl _)) (.inr hk)

/-- **Redundant parentheses never change the tree.**  Wherever a level takes some tokens, and the
token behind them does not resume, it takes them in parentheses with the same tree and stops behind
the closing one: with depth enough, and at any depth at which the nesting is not too deep. -/
theorem parentheses_redundant {s after : Session} {o c : Token}
    (h : s.run (l.parser d) = (.ok n, after))
    (hnext : ∀ t ∈ after.left.head?, resumes t.kind = false)
    (ho : o.kind = .leftParen) (hc : c.kind = .rightParen) :
    let inside := s.enclosed after o c
    let behind : Session := { inside with position := after.position + 2 }
    (∃ limit, ∀ e ≥ limit, inside.run (l.parser e) = (.ok n, behind)) ∧
    ∀ e, (∃ token, (inside.run (l.parser e)).1 = .error (.malformed ⟨.nestingTooDeep, token⟩)) ∨
      inside.run (l.parser e) = (.ok n, behind) := by
  intro inside behind
  obtain ⟨used, rest, hleft, hrun, rfl⟩ := (Session.run_eq_ok (l.tracks d s)).mp h
  have hposition : s.position ≤ s.tokens.length := by
    refine Session.position_le_of_left fun hnil => ?_
    rw [hnil] at hrun
    exact absurd (takes_level l d hrun) (Nat.not_lt_zero _)
  -- the two parentheses stand around just what was taken
  have hinside : inside.left = (o :: (used ++ [c])) ++ rest := by
    simp [inside, Session.left_enclosed hposition, Session.taken_skip hleft,
      Session.left_skip hleft]
  have hbehind : behind = inside.skip (o :: (used ++ [c])) := by
    simp [behind, inside, Session.skip, Session.enclosed, Nat.add_assoc]
  have hkind : resumes (front rest).kind = false := by
    rw [Session.left_skip hleft] at hnext
    cases rest with
    | nil => rfl
    | cons t rest => exact hnext t rfl
  rw [hleft] at hrun
  have hfound := eventually_parenthesized hrun hkind ho hc
  rw [← hinside] at hfound
  rw [hbehind]
  -- enough depth is found by the grammar; at any other depth the answer can only be the same or too
  -- deep
  constructor
  · obtain ⟨limit, hlimit⟩ := eventually_atTop.mp hfound
    exact ⟨limit, fun e he => Session.run_of_ok (l.tracks e inside) hinside (hlimit e he)⟩
  · intro e
    obtain ⟨e', he'⟩ := hfound.exists
    by_cases hdeep : TooDeep (EStateM.run (l.parser e) inside.left)
    · obtain ⟨token, left, hdeep⟩ := hdeep
      exact .inl ⟨token, Session.run_fst_of_error (l.tracks e inside).follows hdeep⟩
    · have hsame := eq_of_shallower (ExpressionRule.level l).shallower (he' ▸ not_tooDeep_ok n rest)
        hdeep
      exact .inr (Session.run_of_ok (l.tracks e inside) hinside (hsame.symm.trans he'))

/-- The tokens of `a * b + c`, to be read from the start. -/
def sampleFactors : Session :=
  ⟨[⟨.identifier, "a", 1, 1⟩, ⟨.multiplicative, "*", 1, 3⟩, ⟨.identifier, "b", 1, 5⟩,
    ⟨.additive, "+", 1, 7⟩, ⟨.identifier, "c", 1, 9⟩], 0⟩

/-- In `(a * b) + c` the product is that of `a * b + c`. -/
theorem parentheses_redundant_sample :
    sampleFactors.run (Level.product.parser 20) =
      (.ok (.binary "*" (.identifier "a") (.identifier "b")),
        { sampleFactors with position := 3 }) ∧
    ∃ limit, ∀ e ≥ limit,
      (sampleFactors.enclosed { sampleFactors with position := 3 } (token .leftParen)
        (token .rightParen)).run (Level.product.parser e) =
          (.ok (.binary "*" (.identifier "a") (.identifier "b")),
            ⟨[token .leftParen, ⟨.identifier, "a", 1, 1⟩, ⟨.multiplicative, "*", 1, 3⟩,
              ⟨.identifier, "b", 1, 5⟩, token .rightParen, ⟨.additive, "+", 1, 7⟩,
              ⟨.identifier, "c", 1, 9⟩], 5⟩) := by
  have hrun : sampleFactors.run (Level.product.parser 20) =
      (.ok (.binary "*" (.identifier "a") (.identifier "b")),
        { sampleFactors with position := 3 }) := rfl
  have hnext : ∀ t ∈ (⟨sampleFactors.tokens, 3⟩ : Session).left.head?, resumes t.kind = false := by
    rintro t ⟨⟩
    rfl
  exact ⟨hrun, (parentheses_redundant hrun hnext rfl rfl).1⟩

end Stencil.Grammar
