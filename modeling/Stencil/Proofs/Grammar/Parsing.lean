import Stencil.Proofs.Grammar.Completeness
import Stencil.Proofs.Grammar.Soundness
import Stencil.Proofs.Parser.Depth

/-!
# Grammar — the parser and the grammar

A template is parsed to a program exactly if the grammar derives its tokens with the body of that
program, and no tokens are derived with two bodies (`parse_eq_ok_iff_derives`).  Only templates whose
nesting the parser finds too deep are set apart (`NestedTooDeep`); the grammar knows no depth.
-/

namespace Stencil.Grammar
open Stencil.Parser Filter

/-- The parser finds the nesting of the template too deep. -/
def NestedTooDeep (ts : List Token) : Prop :=
  ∃ token, parse ts = .error (.malformed ⟨.nestingTooDeep, token⟩)

/-- The tree of a list of tokens where at most `limit` rules are inside one another. -/
def parseWithin (limit : Nat) (ts : List Token) : Except Failure Node :=
  match (do return .program (← all (piece limit)) : Parser Node).run (dropEnd ts) with
  | .ok node _ => .ok node
  | .error e _ => .error e

theorem parseWithin_depthLimit (ts : List Token) : parseWithin depthLimit ts = parse ts := rfl

/-! ### Whole templates -/

theorem parseWithin_eq_ok {limit : Nat} {ts : List Token} {n : Node} :
    parseWithin limit ts = .ok n ↔ ∃ body rest, n = .program body ∧
      (all (piece limit)).run (dropEnd ts) = .ok body rest := by
  unfold parseWithin
  cases h : (all (piece limit)).run (dropEnd ts) with
  | ok body rest =>
    rw [bind_of_ok h, pure_run]
    simp only [Except.ok.injEq, EStateM.Result.ok.injEq]
    exact ⟨fun hn => ⟨body, rest, hn.symm, rfl, rfl⟩, fun ⟨_, _, hn, hb, _⟩ => hb ▸ hn.symm⟩
  | error e rest =>
    rw [bind_of_error h]
    simp

theorem not_tooDeep_of_not_nestedTooDeep {ts : List Token} (h : ¬ NestedTooDeep ts) :
    ¬ TooDeep ((all (piece depthLimit)).run (dropEnd ts)) := by
  rintro ⟨token, rest, hrun⟩
  refine h ⟨token, ?_⟩
  unfold parse program
  rw [bind_of_error hrun]

/-- A piece takes a token. -/
theorem length_lt_of_piece {d : Nat} {ts rest : List Token} {n : Node}
    (h : (piece d).run ts = .ok n rest) : rest.length < ts.length := by
  obtain ⟨used, rfl, hn⟩ := (rules_sound d).piece h
  have hpos := List.length_pos_iff.mpr hn.begins.1
  rw [List.length_append]
  omega

/-- Rounds for all tokens leave none. -/
theorem eq_nil_of_allFor {d rounds : Nat} {ts rest : List Token} {ns : List Node}
    (hrounds : ts.length ≤ rounds) (h : (allFor (piece d) rounds).run ts = .ok ns rest) :
    rest = [] := by
  induction rounds generalizing ts ns with
  | zero =>
    obtain rfl := List.length_eq_zero_iff.mp (Nat.le_zero.mp hrounds)
    rw [allFor_nil] at h
    cases h
    rfl
  | succ rounds ih =>
    cases ts with
    | nil =>
      rw [allFor_nil] at h
      cases h
      rfl
    | cons t ts =>
      rw [allFor, bind_of_ok (atEnd_run _), if_neg (by simp)] at h
      simp only [bind_eq_ok] at h
      obtain ⟨n, mid, hpiece, ms, mid', hmore, h⟩ := h
      obtain ⟨rfl, rfl⟩ := pure_eq_ok.mp h
      have hlt := length_lt_of_piece hpiece
      exact ih (by omega) hmore

/-- What is parsed as a whole is derived as a whole. -/
theorem derives_of_all {d : Nat} {ts rest : List Token} {body : List Node}
    (h : (all (piece d)).run ts = .ok body rest) : Derives .body ts body := by
  rw [all, bind_of_ok (remaining_run ts)] at h
  obtain rfl := eq_nil_of_allFor (Nat.le_refl _) h
  obtain ⟨used, rfl, hbody⟩ := accepts_allFor (rules_sound d).piece _ h
  rwa [List.append_nil]

theorem eventually_all {ts : List Token} {body : List Node} (h : Derives .body ts body) :
    ∀ᶠ d in atTop, (all (piece d)).run ts = .ok body [] := by
  filter_upwards [h.found] with d hd
  rw [all, bind_of_ok (remaining_run ts)]
  exact (hd _ (Nat.le_refl _)).1

/-- **No tokens are derived with two bodies.** -/
theorem Derives.body_unique {ts : List Token} {body other : List Node} (h : Derives .body ts body)
    (h' : Derives .body ts other) : body = other := by
  obtain ⟨d, hd, hd'⟩ := ((eventually_all h).and (eventually_all h')).exists
  rw [hd] at hd'
  cases hd'
  rfl

/-- What is parsed within some limit is derived. -/
theorem derives_of_parseWithin {limit : Nat} {ts : List Token} {n : Node}
    (h : parseWithin limit ts = .ok n) :
    ∃ body, n = .program body ∧ Derives .body (dropEnd ts) body := by
  obtain ⟨body, rest, rfl, hrun⟩ := parseWithin_eq_ok.mp h
  exact ⟨body, rfl, derives_of_all hrun⟩

theorem eventually_parseWithin {ts : List Token} {body : List Node}
    (h : Derives .body (dropEnd ts) body) :
    ∀ᶠ limit in atTop, parseWithin limit ts = .ok (.program body) := by
  filter_upwards [eventually_all h] with limit hrun
  exact parseWithin_eq_ok.mpr ⟨body, [], rfl, hrun⟩

/-- A derivation is found at the limit, unless the nesting is too deep there. -/
theorem parse_of_derives {ts : List Token} {body : List Node} (hdeep : ¬ NestedTooDeep ts)
    (h : Derives .body (dropEnd ts) body) : parse ts = .ok (.program body) := by
  obtain ⟨d, hd⟩ := (eventually_all h).exists
  have hd' : ¬ TooDeep ((all (piece d)).run (dropEnd ts)) := by
    rw [hd]
    exact not_tooDeep_ok body []
  have heq := eq_of_shallower all_shallower (not_tooDeep_of_not_nestedTooDeep hdeep) hd'
  rw [← parseWithin_depthLimit]
  exact parseWithin_eq_ok.mpr ⟨body, [], rfl, heq.trans hd⟩

/-- **The parser accepts what the grammar derives**, with the tree that the grammar builds, and the
grammar builds one tree. -/
theorem parse_eq_ok_iff_derives {ts : List Token} (hdeep : ¬ NestedTooDeep ts) :
    (∀ n, parse ts = .ok n ↔ ∃ body, n = .program body ∧ Derives .body (dropEnd ts) body) ∧
      ∀ body other, Derives .body (dropEnd ts) body → Derives .body (dropEnd ts) other →
        body = other := by
  refine ⟨fun n => ⟨derives_of_parseWithin, ?_⟩, fun body other h h' => h.body_unique h'⟩
  rintro ⟨body, rfl, hbody⟩
  exact parse_of_derives hdeep hbody

/-- The tokens of a template with an inline conditional in the place of an argument. -/
def sampleTokens : List Token :=
  [⟨.openExpression, "\x7b\x7b", 1, 1⟩, ⟨.identifier, "f", 1, 4⟩, ⟨.leftParen, "(", 1, 5⟩,
    ⟨.identifier, "a", 1, 6⟩, ⟨.kwIf, "if", 1, 8⟩, ⟨.kwNot, "not", 1, 11⟩,
    ⟨.identifier, "b", 1, 15⟩, ⟨.kwElse, "else", 1, 17⟩, ⟨.identifier, "c", 1, 22⟩,
    ⟨.rightParen, ")", 1, 23⟩, ⟨.closeExpression, "\x7d\x7d", 1, 25⟩]

/-- The tokens of `{{ f(a if not b else c) }}` are derived. -/
theorem derives_sampleTokens : ¬ NestedTooDeep sampleTokens ∧
    Derives .body (dropEnd sampleTokens)
      [.call (.identifier "f") [.conditional (.unary "not" (.identifier "b"))
        [.identifier "a"] [.identifier "c"]]] := by
  have hparse : parse sampleTokens = .ok (.program
      [.call (.identifier "f") [.conditional (.unary "not" (.identifier "b"))
        [.identifier "a"] [.identifier "c"]]]) := rfl
  have hdeep : ¬ NestedTooDeep sampleTokens := by
    rintro ⟨token, h⟩
    rw [hparse] at h
    cases h
  obtain ⟨body, hbody, hderives⟩ := ((parse_eq_ok_iff_derives hdeep).1 _).mp hparse
  cases hbody
  exact ⟨hdeep, hderives⟩

end Stencil.Grammar
