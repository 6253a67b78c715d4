import Stencil.Proofs.Lexer.Respacing
import Stencil.Proofs.Parser.Likeness

/-!
# Template — spacing in tags

Spacing inside a tag does not count once the tokens stand apart: a text with other spacing in front
of its tokens, and inside `not in`, is cut into tokens of the same kinds and values
(`Lexer.tokenize_respaced`).  The places of the tokens are others, but the parser puts no place into
a tree: it makes the same tree of both texts, or fails for causes of one class
(`spacing_insignificant`).
-/

namespace Stencil.Template
open Stencil.Parser Stencil.Lexer

/-- The name of the class of errors that a failure of the parser belongs to. -/
def className : Parser.Failure → String
  | .malformed e => e.cause.name
  | .numeral _ => "ValueError"

/-- The same tree, or failures of one class. -/
inductive SameOutcome : Except Parser.Failure Node → Except Parser.Failure Node → Prop
  | ok (n : Node) : SameOutcome (.ok n) (.ok n)
  | error {e e' : Parser.Failure} : className e = className e' → SameOutcome (.error e) (.error e')

variable {source source' : String} {ts ts' : List Token}

theorem eq_of_rel {a b : Option Node} (h : Option.Rel Eq a b) : a = b := by
  cases h with
  | some h => rw [h]
  | none => rfl

theorem eq_of_forall₂ {ns ns' : List Node} (h : List.Forall₂ Eq ns ns') : ns = ns' := by
  rwa [List.forall₂_eq_eq_eq] at h

/-- Of tokens of the same kinds and values the same nodes are made. -/
def contentLikeness : Likeness where
  token := SameContent
  node := Eq
  kind_eq h := h.1
  endOfInput := ⟨rfl, rfl⟩
  nodeKind_eq h := congrArg Node.kind h
  program_like h := congrArg Node.program (eq_of_forall₂ h)
  number_like h _ := by
    rw [h.2]
    cases Numeral.read _ with
    | ok v => exact .ok rfl
    | error e => exact .error e e
  string_like h _ := congrArg Node.string h.2
  boolean_like h _ := by rw [h.2]
  array_like h := congrArg Node.array (eq_of_forall₂ h)
  object_like h := by
    have hpairs := h.imp fun _ _ he => Prod.ext he.1 he.2
    rw [List.forall₂_eq_eq_eq] at hpairs
    rw [hpairs]
  identifier_like h _ := congrArg Node.identifier h.2
  member_like _ ho hp := by rw [ho, hp]
  call_like hf hns := by rw [hf, eq_of_forall₂ hns]
  binary_like ht _ hl hr := by rw [ht.2, hl, hr]
  unary_like ht _ hn := by rw [ht.2, hn]
  conditional_like hc hb ha := by rw [hc, eq_of_forall₂ hb, eq_of_forall₂ ha]
  loop_like hv hi hb := by rw [hv, hi, eq_of_forall₂ hb]
  assignment_like hv hn := by rw [hv, hn]
  filter_like hn hf := by rw [hn, hf]
  test_like _ hn hc := by rw [hn, hc]
  slice_like ha hb hc := by rw [eq_of_rel ha, eq_of_rel hb, eq_of_rel hc]
  keyword_like hk hn := by rw [hk, hn]

/-- Failures that are alike are reported as errors of one class. -/
theorem className_eq {e e' : Parser.Failure} (h : contentLikeness.Fails e e') :
    className e = className e' := by
  cases h with
  | malformed hc _ =>
    have hname := congrArg Cause.name hc
    rwa [Cause.name_unnamed, Cause.name_unnamed] at hname
  | numeral => rfl

/-- Places do not count: tokens of the same kinds and values have the same outcome. -/
theorem sameOutcome_of_sameContent (h : List.Forall₂ SameContent ts ts') :
    SameOutcome (parse ts) (parse ts') := by
  rcases contentLikeness.parse_like h with ⟨n, n', hn, hn', rfl⟩ | ⟨e, e', he, he', hfails⟩
  · rw [hn, hn']
    exact .ok n
  · rw [he, he']
    exact .error (className_eq hfails)

/-- **Spacing in tags does not count.**  Where a text is cut into tokens, the same text with other
spacing in front of the tokens of its tags is cut into tokens of the same kinds and values, and both
have the same tree or fail for causes of one class. -/
theorem spacing_insignificant (h : tokenize source = .ok ts)
    (hspacing : Respaced .outside source.toList source'.toList) :
    ∃ ts', tokenize source' = .ok ts' ∧ List.Forall₂ SameContent ts ts' ∧
      SameOutcome (parse ts) (parse ts') := by
  obtain ⟨us, ts', hus, hts', hsame⟩ := tokenize_respaced hspacing
  obtain rfl : ts = us := Except.ok.inj (h.symm.trans hus)
  exact ⟨ts', hts', hsame, sameOutcome_of_sameContent hsame⟩

/-- The tokens of `{{a not in b}}`. -/
def memberTokens : List Token :=
  [⟨.openExpression, "\x7b\x7b", 1, 1⟩, ⟨.identifier, "a", 1, 3⟩, ⟨.kwNotIn, "not in", 1, 5⟩,
    ⟨.identifier, "b", 1, 12⟩, ⟨.closeExpression, "\x7d\x7d", 1, 13⟩]

/-- The same text with the word `not` on a line of its own. -/
theorem respaced_member : Respaced .outside "\x7b\x7ba not in b\x7d\x7d".toList
    "\x7b\x7b a\nnot\n in b \x7d\x7d".toList := by
  have hspace : IsGap [' '] := ⟨nofun, List.forall_mem_singleton.mpr rfl⟩
  have hline : IsGap ['\n'] := ⟨nofun, List.forall_mem_singleton.mpr rfl⟩
  have hindent : IsGap ['\n', ' '] := ⟨nofun, List.forall_mem_cons.mpr ⟨rfl, hspace.2⟩⟩
  have hclose : Respaced (.inside .expression 0 (some .identifier)) ([] ++ ['\x7d', '\x7d'])
      ([' '] ++ (['\x7d', '\x7d'] ++ [])) :=
    .inside (List.forall_mem_nil _) rfl (Option.some_ne_none _) (.inr hspace)
      (.same ⟨['\x7d', '\x7d'], _⟩) .ended
  have hb : Respaced (.inside .expression 0 (some .kwNotIn)) ([' '] ++ ['b', '\x7d', '\x7d'])
      ([' '] ++ (['b'] ++ [' ', '\x7d', '\x7d'])) :=
    .inside hspace.2 rfl (Option.some_ne_none _) (.inl rfl) (.same ⟨['b'], _⟩) hclose
  have hnotIn : Respaced (.inside .expression 0 (some .identifier))
      ([' '] ++ "not in b\x7d\x7d".toList)
      (['\n'] ++ ((notIn ['\n', ' ']).spelling ++ [' ', 'b', ' ', '\x7d', '\x7d'])) :=
    .inside hspace.2 rfl (Option.some_ne_none _) (.inr hline) (.notIn [' '] hindent) hb
  have ha : Respaced (.inside .expression 0 (some .openExpression))
      ([] ++ "a not in b\x7d\x7d".toList)
      ([' '] ++ (['a'] ++ "\nnot\n in b \x7d\x7d".toList)) :=
    .inside (List.forall_mem_nil _) rfl (Option.some_ne_none _) (.inr hspace) (.same ⟨['a'], _⟩)
      hnotIn
  exact .outside (s := ⟨['\x7b', '\x7b'], _⟩) rfl ha

/-- The words of `not in` on two lines, in a tag with more spacing. -/
theorem spacing_insignificant_member :
    tokenize "\x7b\x7ba not in b\x7d\x7d" = .ok memberTokens ∧
    ∃ ts', tokenize "\x7b\x7b a\nnot\n in b \x7d\x7d" = .ok ts' ∧
      List.Forall₂ SameContent memberTokens ts' ∧ SameOutcome (parse memberTokens) (parse ts') := by
  have htokens : tokenize "\x7b\x7ba not in b\x7d\x7d" = .ok memberTokens := by decide +kernel
  exact ⟨htokens, spacing_insignificant htokens respaced_member⟩

end Stencil.Template
