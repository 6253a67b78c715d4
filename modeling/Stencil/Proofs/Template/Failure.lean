import Stencil.Proofs.Grammar.Position
import Stencil.Proofs.Lexer.Fault
import Stencil.Proofs.Lexer.Tags
import Stencil.Proofs.Number.Legible
import Stencil.Template

/-!
# Template — failures

Which texts fail for their syntax.  A text that cannot be cut into tokens has a fault, and tokens
that are no template have an error in their structure.  One failure is neither: the lexer takes for
digits what no number is read from, and integers of any length, so that it makes numbers that the
parser refuses.  This happens exactly where the last token that the parser takes is such a number
(`fails_by_syntax_iff`).
-/

namespace Stencil.Template
open Stencil.Parser

/-- The failure is one of syntax: the text has a fault, or its tokens have an error in their
structure. -/
def Failure.IsSyntax : Failure → Prop
  | lexical e => e.IsFault
  | structural (.malformed _) => True
  | structural (.numeral _) => False

/-- The text has a tree, or fails for its syntax. -/
def ReadsOrFailsBySyntax (source : String) : Prop :=
  (∃ body, read source = .ok (.program body)) ∨ ∃ e, read source = .error e ∧ e.IsSyntax

/-- The last token that is taken when the tokens are parsed. -/
def lastTaken (ts : List Token) : Option Token :=
  let start := Session.ofTokens ts
  (start.taken (start.run program).2).getLast?

variable {source : String} {ts : List Token} {t : Token}

theorem mem_of_lastTaken (hend : ∀ t ∈ ts, t.kind ≠ .endOfInput) (h : lastTaken ts = some t) :
    t ∈ ts := by
  have hmem := List.mem_of_mem_take (List.mem_of_mem_drop (List.mem_of_getLast? h))
  rwa [Session.ofTokens, dropEnd_eq_self hend] at hmem

/-- A number of a text is refused if it is not legible. -/
theorem refused_iff_of_tokenize (h : tokenize source = .ok ts) (hmem : t ∈ ts) :
    Grammar.Refused t ↔ t.kind = .number ∧ ¬ Numeral.Legible t.value.toList := by
  refine and_congr_right fun ht => ?_
  obtain ⟨spelling, value, hlexical, hvalue⟩ := Lexer.lexical_of_number h hmem ht
  rw [hvalue, Numeral.refused_iff_not_legible hlexical, String.toList_ofList]

/-- The parser fails over a number of a text if it is the last token taken, and not legible. -/
theorem numeral_iff_not_legible (h : tokenize source = .ok ts) :
    (∃ e, parse ts = .error (.numeral e)) ↔
      ∃ t, lastTaken ts = some t ∧ t.kind = .number ∧ ¬ Numeral.Legible t.value.toList := by
  have hend := Lexer.kind_ne_of_tokenize h
  rw [parse_eq_run, Grammar.numeral_iff_refused]
  refine exists_congr fun t => and_congr_right fun hlast => ?_
  exact refused_iff_of_tokenize h (mem_of_lastTaken hend hlast)

theorem read_of_tokenize (h : tokenize source = .ok ts) : read source = tree ts := by
  unfold read tokens
  rw [h]
  rfl

/-- A text has a tree if it is cut into tokens and these are parsed. -/
theorem read_eq_ok {n : Node} :
    read source = .ok n ↔ ∃ ts, tokenize source = .ok ts ∧ parse ts = .ok n := by
  constructor
  · intro h
    cases htokens : tokenize source with
    | error e =>
      rw [read_of_tokenize_error htokens] at h
      cases h
    | ok ts =>
      rw [read_of_tokenize htokens, tree] at h
      cases hparse : parse ts with
      | error failure =>
        rw [hparse] at h
        cases h
      | ok tree =>
        rw [hparse] at h
        cases h
        exact ⟨ts, rfl, hparse⟩
  · rintro ⟨ts, htokens, hparse⟩
    rw [read_of_tokenize htokens, tree, hparse]
    rfl

/-- Tokens that are parsed give a program, and those that are not fail for their structure or for a
number. -/
theorem readsOrFailsBySyntax_iff (h : tokenize source = .ok ts) :
    ReadsOrFailsBySyntax source ↔ ¬ ∃ e, parse ts = .error (.numeral e) := by
  unfold ReadsOrFailsBySyntax
  rw [read_of_tokenize h, tree]
  cases hparse : parse ts with
  | ok n =>
    obtain ⟨body, rfl, -⟩ := Grammar.derives_of_parseWithin hparse
    exact iff_of_true (.inl ⟨body, rfl⟩) nofun
  | error failure =>
    cases failure with
    | malformed error => exact iff_of_true (.inr ⟨_, rfl, trivial⟩) nofun
    | numeral error =>
      refine iff_of_false ?_ fun hno => hno ⟨error, rfl⟩
      rintro (⟨body, hbody⟩ | ⟨e, he, hsyntax⟩)
      · cases hbody
      · cases he
        exact hsyntax

/-- **A text has a tree or fails for its syntax, unless the last token taken is a number that is not
legible**: it has a digit that is not decimal, or it is an integer with too many digits. -/
theorem fails_by_syntax_iff (source : String) : ReadsOrFailsBySyntax source ↔
    ∀ ts t, tokenize source = .ok ts → lastTaken ts = some t → t.kind = .number →
      Numeral.Legible t.value.toList := by
  cases htokens : tokenize source with
  | error e =>
    have hfault := Lexer.fault_of_tokenize htokens
    exact iff_of_true (.inr ⟨_, read_of_tokenize_error htokens, hfault⟩) nofun
  | ok ts =>
    rw [readsOrFailsBySyntax_iff htokens, numeral_iff_not_legible htokens]
    constructor
    · rintro hno _ t ⟨⟩ hlast ht
      exact Decidable.of_not_not fun hlegible => hno ⟨t, hlast, ht, hlegible⟩
    · rintro hall ⟨t, hlast, ht, hlegible⟩
      exact hlegible (hall ts t rfl hlast ht)

/-- The tokens of `{{ ² }}`. -/
def superscriptTokens : List Token :=
  [⟨.openExpression, "\x7b\x7b", 1, 1⟩, ⟨.number, "²", 1, 4⟩, ⟨.closeExpression, "\x7d\x7d", 1, 6⟩]

/-- In `{{ ² }}` the lexer makes a number of a digit that is not decimal, and that the parser
refuses it is no failure of syntax. -/
theorem not_readsOrFailsBySyntax : ¬ ∀ source, ReadsOrFailsBySyntax source := by
  intro h
  have htokens : tokenize "\x7b\x7b ² \x7d\x7d" = .ok superscriptTokens := by decide +kernel
  have hparse : parse superscriptTokens = .error (.numeral (.integer "²")) := rfl
  exact (readsOrFailsBySyntax_iff htokens).mp (h _) ⟨_, hparse⟩

end Stencil.Template
