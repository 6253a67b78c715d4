import Stencil.Proofs.Grammar.Position

/-!
# Grammar — the token that an error is about

Nearly every error is about the token at hand.  Two are noticed later: that the variable of a loop
is no name is seen behind the variable, and that what stands before `=` among arguments is no name
is seen behind the sign.  These are about the first token of the expression that should have been a
name.

`Points` says this of all the ways in which a rule can break off, with the tokens taken before and
those left (`Breaks.points`).  For a whole template these are the tokens before and behind the
position, which gives the main statement (`error_blames`).
-/

namespace Stencil.Parser

/-- What a cause says of the token at hand where it is noticed.  The variable of a loop and the
target of a keyword are not noticed at hand. -/
def Cause.Fits : Cause → Token → Prop
  | .expectedToken kind, t => t.kind ≠ kind
  | .sliceParts _, t | .emptyIndex, t => t.kind = .rightBracket
  | .loopVariable _, _ | .keywordTarget _, _ => False
  | _, _ => True

end Stencil.Parser

namespace Stencil.Grammar
open Stencil.Parser

variable {r s : Rule} {t : Token} {ts us rest : List Token} {e : Failure}

/-- An argument begins behind the tokens. -/
def BeforeArgument (ts : List Token) : Prop :=
  ∃ t ∈ ts.getLast?, t.kind = .leftParen ∨ t.kind = .comma

/-- The rules that begin with an argument. -/
def Rule.StartsArgument : Rule → Prop
  | .item .argument | .items .argument => True
  | _ => False

/-- The failure is about the token at hand, or about the first token of an expression that has been
taken and should have been a name. -/
inductive Points : List Token → List Token → Failure → Prop
  | numeral {ts rest : List Token} (e : Numeral.Error) : Points ts rest (.numeral e)
  | here {ts rest : List Token} {cause : Cause} : cause.Fits (front rest) →
      Points ts rest (foundAt cause rest)
  | loopVariable {before ts rest : List Token} {w : Token} {n : Node} : w.kind = .kwFor →
      Derives (.level .chained) ts n → n.isIdentifier = false →
      Points (before ++ w :: ts) rest (.malformed ⟨.loopVariable n.kind, some (front ts)⟩)
  | keywordTarget {before ts rest : List Token} {q : Token} {n : Node} : BeforeArgument before →
      Derives (.level .expression) ts n → n.isIdentifier = false → q.kind = .equals →
      Points (before ++ (ts ++ [q])) rest (.malformed ⟨.keywordTarget n.kind, some (front ts)⟩)

/-- The first argument is the one that should have begun with a name. -/
inductive FirstTarget : List Token → Failure → Prop
  | mk {ts : List Token} {q : Token} {n : Node} : Derives (.level .expression) ts n →
      n.isIdentifier = false → q.kind = .equals →
      FirstTarget (ts ++ [q]) (.malformed ⟨.keywordTarget n.kind, some (front ts)⟩)

/-- Behind a parenthesis or a comma an argument begins. -/
theorem beforeArgument_snoc (ht : t.kind = .leftParen ∨ t.kind = .comma) (ts : List Token) :
    BeforeArgument (ts ++ [t]) := ⟨t, by simp, ht⟩

/-- Where an argument begins does not depend on what stands further in front. -/
theorem BeforeArgument.append (h : BeforeArgument us) (ts : List Token) :
    BeforeArgument (ts ++ us) := by
  obtain ⟨t, ht, hk⟩ := h
  refine ⟨t, ?_, hk⟩
  rw [List.getLast?_append, Option.mem_def.mp ht]
  rfl

/-- Tokens in front do not change what a failure is about. -/
theorem Points.append (h : Points us rest e) (ts : List Token) : Points (ts ++ us) rest e := by
  cases h with
  | numeral e => exact .numeral e
  | here hcause => exact .here hcause
  | loopVariable hw hn hname =>
    rw [← List.append_assoc]
    exact .loopVariable hw hn hname
  | keywordTarget hbefore hn hname hq =>
    rw [← List.append_assoc]
    exact .keywordTarget (hbefore.append ts) hn hname hq

theorem Points.cons (h : Points us rest e) (t : Token) : Points (t :: us) rest e := h.append [t]

/-- A target that should have been a name is the token that the failure is about, once it is known
that an argument begins there. -/
theorem FirstTarget.points (h : FirstTarget us e) (hts : BeforeArgument ts) :
    Points (ts ++ us) rest e := by
  cases h with
  | mk hn hname hq => exact .keywordTarget hts hn hname hq

/-- A token that is missing is missed at hand. -/
theorem Misses.points {kinds : List Token.Kind} (h : Misses kinds ts rest e) :
    Points ts rest e := by
  induction h with
  | here hne => exact .here hne
  | later _ _ ih => exact ih.cons _

/-- The token at the end of the input is of no kind that has to come. -/
theorem points_at_end {kind : Token.Kind} (hk : kind ≠ .endOfInput) :
    Points ts [] (foundAt (.expectedToken kind) []) := .here hk.symm

/-- **Where a rule breaks off the failure points at the offending token**, unless it is about the
argument that the rule begins with. -/
theorem Breaks.points (h : Breaks r ts rest e) :
    Points ts rest e ∨ r.StartsArgument ∧ FirstTarget ts e := by
  induction h with
  | keywordTarget hn hname hq => exact .inr ⟨trivial, .mk hn hname hq⟩
  | loopTarget _ hw hn hname => exact .inl (@Points.loopVariable [_] _ _ _ _ hw hn hname)
  | @itemsMore i ts us rest c x e _ hc _ ih =>
    -- the first argument behind a comma stands in its place
    left
    rw [List.append_cons]
    rcases ih with ih | ⟨-, ih⟩
    · exact ih.append _
    · exact ih.points (beforeArgument_snoc (.inr hc) ts)
  | @enclosed i ts rest o e ho _ ih =>
    left
    rcases ih with ih | ⟨hi, ih⟩
    · exact ih.cons o
    · cases i with
      | argument => exact ih.points (beforeArgument_snoc (.inl ho) [])
      | element | entry => exact hi.elim
  | @itemsEnd i => exact .inl (points_at_end (by cases i <;> decide))
  | partEnd => exact .inl (points_at_end (by decide))
  | bodyEnd _ hmissing => exact .inl (points_at_end (by rintro rfl; simp at hmissing))
  | _ => grind [Points.append, Points.cons, Points.here, Points.numeral, Misses.points,
      Rule.StartsArgument, Cause.Fits]

/-! ### Whole templates -/

/-- What an error is about, in tokens that were parsed up to a position.  The token at hand behind
the last one stands for the end and has no place. -/
structure Blames (tokens : List Token) (position : Nat) (e : Error) : Prop where
  within : position ≤ tokens.length
  loopVariable : ∀ {found}, e.cause = .loopVariable found →
    ∃ before w ts n, tokens.take position = before ++ w :: ts ∧ w.kind = .kwFor ∧
      Derives (.level .chained) ts n ∧ n.isIdentifier = false ∧ n.kind = found ∧
      ts ≠ [] ∧ e.token = ts.head?
  keywordTarget : ∀ {found}, e.cause = .keywordTarget found →
    ∃ before ts q n, tokens.take position = before ++ (ts ++ [q]) ∧ q.kind = .equals ∧
      BeforeArgument before ∧ Derives (.level .expression) ts n ∧ n.isIdentifier = false ∧
      n.kind = found ∧ ts ≠ [] ∧ e.token = ts.head?
  here : (∀ found, e.cause ≠ .loopVariable found) → (∀ found, e.cause ≠ .keywordTarget found) →
    e.token = some (tokens[position]?.getD .endOfInput)
  expected : ∀ {kind}, e.cause = .expectedToken kind →
    e.token.map Token.kind = some e.actual ∧ e.actual ≠ kind
  bracket : (∃ count, e.cause = .sliceParts count) ∨ e.cause = .emptyIndex →
    e.token.map Token.kind = some .rightBracket

theorem front_eq_getD (ts us : List Token) :
    front us = (ts ++ us)[ts.length]?.getD .endOfInput := by
  cases us <;> simp [front]

theorem head?_eq_front (h : ts ≠ []) : ts.head? = some (front ts) := by
  cases ts with
  | nil => exact absurd rfl h
  | cons t ts => rfl

/-- What the tokens on both sides of a position show, the position shows. -/
theorem Points.blames {error : Error} (h : Points ts rest (.malformed error)) :
    Blames (ts ++ rest) ts.length error := by
  have hwithin : ts.length ≤ (ts ++ rest).length := by simp
  cases h with
  | @here ts rest cause hcause =>
    refine ⟨hwithin, ?_, ?_, fun _ _ => congrArg some (front_eq_getD ts rest), ?_, ?_⟩
    · rintro found rfl
      exact hcause.elim
    · rintro found rfl
      exact hcause.elim
    · rintro kind rfl
      exact ⟨rfl, hcause⟩
    · rintro (⟨count, rfl⟩ | rfl) <;> exact congrArg some hcause
  | @loopVariable before ts rest w n hw hn hname =>
    have hne : ts ≠ [] := ne_nil_of_begins hn.begins
    refine ⟨hwithin, ?_, nofun, fun h => absurd rfl (h _), nofun, nofun⟩
    rintro found ⟨rfl⟩
    exact ⟨before, w, ts, n, List.take_left, hw, hn, hname, rfl, hne, (head?_eq_front hne).symm⟩
  | @keywordTarget before ts rest q n hbefore hn hname hq =>
    have hne : ts ≠ [] := ne_nil_of_begins hn.begins
    refine ⟨hwithin, nofun, ?_, fun _ h => absurd rfl (h _), nofun, nofun⟩
    rintro found ⟨rfl⟩
    exact ⟨before, ts, q, n, List.take_left, hq, hbefore, hn, hname, rfl, hne,
      (head?_eq_front hne).symm⟩

/-- **Every structural error is about the offending token.** -/
theorem error_blames {ts : List Token} {e : Error} {after : Session}
    (h : (Session.ofTokens ts).run program = (.error (.malformed e), after)) :
    Blames (dropEnd ts) after.position e := by
  obtain ⟨used, rest, hleft, hrun, rfl⟩ := (Session.run_eq_error (Session.tracks_program _)).mp h
  rw [Session.left_ofTokens] at hleft hrun
  rw [program_eq_error, all, bind_of_ok (remaining_run _)] at hrun
  obtain ⟨used', hused, hb⟩ := rejects_allFor (rules_sound _).piece (rules_report _).piece _ hrun
  obtain rfl : used' = used := List.append_cancel_right (hused.symm.trans hleft)
  rw [hleft, Session.skip_position, show (Session.ofTokens ts).position = 0 from rfl, Nat.zero_add]
  exact (hb.points.resolve_right fun h => h.1).blames

/-- The tokens of `{{ f(x, a.b = 1) }}`. -/
def sampleCall : List Token :=
  [⟨.openExpression, "\x7b\x7b", 1, 1⟩, ⟨.identifier, "f", 1, 4⟩, ⟨.leftParen, "(", 1, 5⟩,
    ⟨.identifier, "x", 1, 6⟩, ⟨.comma, ",", 1, 7⟩, ⟨.identifier, "a", 1, 9⟩, ⟨.dot, ".", 1, 10⟩,
    ⟨.identifier, "b", 1, 11⟩, ⟨.equals, "=", 1, 13⟩, ⟨.number, "1", 1, 15⟩,
    ⟨.rightParen, ")", 1, 16⟩, ⟨.closeExpression, "\x7d\x7d", 1, 18⟩]

/-- In `{{ f(x, a.b = 1) }}` the error is noticed behind the sign and is about `a`. -/
theorem error_blames_sample :
    (Session.ofTokens sampleCall).run program =
      (.error (.malformed ⟨.keywordTarget "MemberExpression", some ⟨.identifier, "a", 1, 9⟩⟩),
        ⟨sampleCall, 9⟩) ∧
    Blames (dropEnd sampleCall) 9
      ⟨.keywordTarget "MemberExpression", some ⟨.identifier, "a", 1, 9⟩⟩ :=
  have hrun : (Session.ofTokens sampleCall).run program =
      (.error (.malformed ⟨.keywordTarget "MemberExpression", some ⟨.identifier, "a", 1, 9⟩⟩),
        ⟨sampleCall, 9⟩) := rfl
  ⟨hrun, error_blames hrun⟩

end Stencil.Grammar
