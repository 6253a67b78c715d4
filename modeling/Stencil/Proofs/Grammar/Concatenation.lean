import Stencil.Proofs.Grammar.Locality

/-!
# Grammar — templates in a row

A whole template does not bear on what is parsed behind it: its pieces are found as if nothing
followed, and what follows is parsed as if it stood alone (`all_append`).  So the tree of two
templates in a row has the pieces of both, and an error in the second is the same error, as many
tokens further on as the first has (`parse_append`).
-/

namespace Stencil.Grammar
open Stencil.Parser

variable {d : Nat} {ts us mid : List Token} {n : Node}

theorem all_nil (item : Parser Node) : (all item).run [] = .ok [] [] := allFor_nil item _

/-- A piece and the pieces behind it. -/
theorem all_piece (hne : ts ≠ []) (hn : (piece d).run ts = .ok n mid) :
    (all (piece d)).run ts = (do return n :: (← all (piece d)) : Parser (List Node)).run mid := by
  obtain ⟨t, ts, rfl⟩ := List.exists_cons_of_ne_nil hne
  have hlt : mid.length < ts.length + 1 := length_lt_of_piece hn
  have hlater := settles_allFor (takes_piece d) (Nat.le_of_lt_succ hlt)
  show (allFor (piece d) (ts.length + 1)).run (t :: ts) = _
  rw [allFor_piece hne hn]
  exact bind_congr_run hlater fun _ _ _ => rfl

/-- An error in a piece. -/
theorem all_of_error {e : Failure} (hne : ts ≠ []) (he : (piece d).run ts = .error e mid) :
    (all (piece d)).run ts = .error e mid := by
  obtain ⟨t, ts, rfl⟩ := List.exists_cons_of_ne_nil hne
  show (allFor (piece d) (ts.length + 1)).run (t :: ts) = _
  rw [allFor, bind_of_ok (atEnd_run _), if_neg (by simp), bind_of_error he]

/-- Whole templates, piece by piece. -/
theorem all_eq_ok {rest : List Token} {body : List Node}
    (h : (all (piece d)).run ts = .ok body rest) :
    ts = [] ∧ body = [] ∨ ∃ n mid later, body = n :: later ∧ (piece d).run ts = .ok n mid ∧
      (all (piece d)).run mid = .ok later rest := by
  by_cases hne : ts = []
  · subst hne
    rw [all_nil] at h
    cases h
    exact .inl ⟨rfl, rfl⟩
  cases hn : (piece d).run ts with
  | error e mid =>
    rw [all_of_error hne hn] at h
    cases h
  | ok n mid =>
    rw [all_piece hne hn, bind_eq_ok] at h
    obtain ⟨later, left, hlater, h⟩ := h
    obtain ⟨rfl, rfl⟩ := pure_eq_ok.mp h
    exact .inr ⟨n, mid, later, rfl, rfl, hlater⟩

/-- **The pieces of a whole template are found in front of any tokens**, and parsing goes on with
those. -/
theorem all_append {body : List Node} (h : (all (piece d)).run ts = .ok body []) :
    (all (piece d)).run (ts ++ us) =
      (do return body ++ (← all (piece d)) : Parser (List Node)).run us := by
  induction body generalizing ts with
  | nil =>
    obtain ⟨rfl, -⟩ | ⟨_, _, _, hbody, -⟩ := all_eq_ok h
    · exact congrArg (EStateM.run · us) (bind_pure (all (piece d))).symm
    · cases hbody
  | cons n body ih =>
    obtain ⟨-, hbody⟩ | ⟨n, mid, later, hbody, hn, hlater⟩ := all_eq_ok h
    · cases hbody
    cases hbody
    obtain ⟨used, rfl⟩ := (rules_nearby d).piece.trims.suffix hn
    -- a piece does not look behind its last token
    have hn' : (piece d).run (used ++ (mid ++ us)) = .ok n (mid ++ us) :=
      (rules_nearby d).piece.ok hn rfl (sure_zero _ _)
    have hne : used ++ (mid ++ us) ≠ [] := fun he => by
      rw [he] at hn'
      exact absurd (length_lt_of_piece hn') (Nat.not_lt_zero _)
    rw [List.append_assoc, all_piece hne hn', bind_congr_run (ih hlater) fun _ _ _ => rfl,
      bind_assoc_run]
    rfl

theorem program_eq_error {e : Failure} : program.run ts = .error e mid ↔
    (all (piece depthLimit)).run ts = .error e mid := by
  unfold program
  cases h : (all (piece depthLimit)).run ts with
  | ok body rest => rw [bind_of_ok h, pure_run]; simp
  | error e' rest => rw [bind_of_error h]; simp

/-- What is parsed has been read to its end. -/
theorem all_of_parse {body : List Node} (h : parse ts = .ok (.program body)) :
    (all (piece depthLimit)).run (dropEnd ts) = .ok body [] := by
  obtain ⟨other, rest, hbody, hrun⟩ := parseWithin_eq_ok.mp ((parseWithin_depthLimit ts).trans h)
  cases hbody
  obtain rfl := eq_nil_of_allFor (Nat.le_refl _) hrun
  exact hrun

/-- **Parsing respects concatenation**: two templates in a row are parsed to the pieces of both, and
an error in the second is found as in the second alone. -/
theorem parse_append {first second : List Token} {body : List Node}
    (hend : ∀ t ∈ first.getLast?, t.kind ≠ .endOfInput)
    (hfirst : parse first = .ok (.program body)) :
    (∀ other, parse second = .ok (.program other) →
      parse (first ++ second) = .ok (.program (body ++ other))) ∧
    ∀ e s, (Session.ofTokens second).run program = (.error e, s) →
      ∃ s', (Session.ofTokens (first ++ second)).run program = (.error e, s') ∧
        s'.position = first.length + s.position := by
  have hall := all_of_parse hfirst
  have hdrop : dropEnd first = first := by
    have := dropEnd_append hend []
    rwa [List.append_nil, show dropEnd [] = [] from rfl, List.append_nil] at this
  -- behind the first template the parser is where it begins with the second
  have hrun : (all (piece depthLimit)).run (first ++ dropEnd second) = _ :=
    all_append (hdrop ▸ hall)
  rw [← dropEnd_append hend] at hrun
  constructor
  · intro other hother
    rw [bind_of_ok (all_of_parse hother), pure_run] at hrun
    rw [← parseWithin_depthLimit]
    exact parseWithin_eq_ok.mpr ⟨_, _, rfl, hrun⟩
  · intro e s h
    obtain ⟨used, rest, hleft, herror, rfl⟩ := (Session.run_eq_error (Session.tracks_program _)).mp h
    rw [Session.left_ofTokens] at hleft herror
    rw [bind_of_error (program_eq_error.mp herror)] at hrun
    have hleft' : (Session.ofTokens (first ++ second)).left = (first ++ used) ++ rest := by
      rw [Session.left_ofTokens, dropEnd_append hend, hleft, List.append_assoc]
    refine ⟨_, Session.run_of_error (Session.tracks_program _) hleft' (program_eq_error.mpr hrun), ?_⟩
    simp [Session.ofTokens]

/-- The tokens of `a{{ b }}`. -/
def sampleTemplate : List Token :=
  [⟨.text, "a", 1, 1⟩, ⟨.openExpression, "\x7b\x7b", 1, 2⟩, ⟨.identifier, "b", 1, 5⟩,
    ⟨.closeExpression, "\x7d\x7d", 1, 7⟩]

/-- The tokens of `{% set %}`, which are no template, with the token for the end behind them. -/
def sampleMistake : List Token :=
  [⟨.openStatement, "\x7b%", 1, 1⟩, ⟨.kwSet, "set", 1, 4⟩, ⟨.closeStatement, "%\x7d", 1, 8⟩,
    .endOfInput]

/-- Behind `a{{ b }}` the same template gives its pieces once more, and `{% set %}` the error that
it gives alone, four tokens further on. -/
theorem parse_append_sample :
    parse (sampleTemplate ++ sampleTemplate) =
      .ok (.program ([.string "a", .identifier "b"] ++ [.string "a", .identifier "b"])) ∧
    ∃ s, (Session.ofTokens (sampleTemplate ++ sampleMistake)).run program =
        (.error (.malformed ⟨.unexpectedToken "expression", some ⟨.closeStatement, "%\x7d", 1, 8⟩⟩),
          s) ∧
      s.position = sampleTemplate.length + 2 :=
  have hfirst : parse sampleTemplate = .ok (.program [.string "a", .identifier "b"]) := rfl
  have happend {second : List Token} := @parse_append sampleTemplate second _ (by decide) hfirst
  ⟨happend.1 _ rfl, happend.2 _ ⟨dropEnd sampleMistake, 2⟩ rfl⟩

end Stencil.Grammar
