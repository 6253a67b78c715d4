import Stencil.Proofs.Grammar.Content
import Stencil.Proofs.Grammar.Position
import Stencil.Proofs.Node.Leaves
import Stencil.Proofs.Parser.Likeness

/-!
# Grammar — the kinds of the tokens decide

The parser goes by the kinds of the tokens alone.  What their values are shows at the leaves of the
tree only, and in its operators: tokens of the same kinds have trees of one form, or errors of one
cause at the same position.  Where the tokens that the tree keeps have the same values too, the
trees are the same (`form_of_kinds`).

Both are cases of one likeness: nodes are alike that a change of their leaves makes equal
(`Likeness.ofLeaves`).  One change puts the same value everywhere, the other changes nothing.  A
number may be any that can be read, since a number that cannot be read ends the parsing.
-/

namespace Stencil.Parser

variable {f : LeafMap} {R : Token → Token → Prop} {ts ts' : List Token}

/-- Related tokens are of one kind, and of their values the change makes equal leaves. -/
structure SameLeaves (f : LeafMap) (R : Token → Token → Prop) : Prop where
  kind_eq : ∀ {t t'}, R t t' → t.kind = t'.kind
  endOfInput : R .endOfInput .endOfInput
  number : ∀ {t t'}, R t t' → t.kind = .number →
    ReadAlike (fun v v' => f.number v = f.number v') (Numeral.read t.value) (Numeral.read t'.value)
  string : ∀ {t t'}, R t t' → t.kind = .string ∨ t.kind = .text →
    f.string t.value = f.string t'.value
  boolean : ∀ {t t'}, R t t' → t.kind = .boolean →
    f.boolean (truthValue t.value) = f.boolean (truthValue t'.value)
  name : ∀ {t t'}, R t t' → t.kind = .identifier ∨ t.kind = .boolean →
    f.name t.value = f.name t'.value
  operator : ∀ {t t'}, R t t' → isOperator t.kind = true → f.operator t.value = f.operator t'.value

theorem ReadAlike.imp {V W : Number → Number → Prop} (h : ∀ v v', V v v' → W v v')
    {r r' : Except Numeral.Error Number} (hr : ReadAlike V r r') : ReadAlike W r r' := by
  cases hr with
  | ok hv => exact .ok (h _ _ hv)
  | error e e' => exact .error e e'

/-- Nodes are alike that the change makes equal. -/
def Likeness.ofLeaves (h : SameLeaves f R) : Likeness where
  token := R
  node n n' := n.mapLeaves f = n'.mapLeaves f
  kind_eq := h.kind_eq
  endOfInput := h.endOfInput
  nodeKind_eq {n n'} hn := by rw [← Node.kind_mapLeaves (f := f) n, hn, Node.kind_mapLeaves]
  program_like hb := by simp only [Node.mapLeaves, Node.mapAll_congr hb]
  number_like ht hk := (h.number ht hk).imp fun _ _ hv => by simp only [Node.mapLeaves, hv]
  string_like ht hk := by simp only [Node.mapLeaves, h.string ht hk]
  boolean_like ht hk := by simp only [Node.mapLeaves, h.boolean ht hk]
  array_like hns := by simp only [Node.mapLeaves, Node.mapAll_congr hns]
  object_like hps := by simp only [Node.mapLeaves, Node.mapPairs_congr hps]
  identifier_like ht hk := by simp only [Node.mapLeaves, h.name ht hk]
  member_like _ ho hp := by simp only [Node.mapLeaves, ho, hp]
  call_like hg hns := by simp only [Node.mapLeaves, hg, Node.mapAll_congr hns]
  binary_like ht hk hl hr := by simp only [Node.mapLeaves, h.operator ht hk, hl, hr]
  unary_like ht hk hn := by simp only [Node.mapLeaves, h.operator ht hk, hn]
  conditional_like hc hb ha := by
    simp only [Node.mapLeaves, hc, Node.mapAll_congr hb, Node.mapAll_congr ha]
  loop_like hv hi hb := by simp only [Node.mapLeaves, hv, hi, Node.mapAll_congr hb]
  assignment_like hv hn := by simp only [Node.mapLeaves, hv, hn]
  filter_like hn hg := by simp only [Node.mapLeaves, hn, hg]
  test_like _ hn hc := by simp only [Node.mapLeaves, hn, hc]
  slice_like ha hb hc := by
    simp only [Node.mapLeaves, Node.mapPart_congr ha, Node.mapPart_congr hb, Node.mapPart_congr hc]
  keyword_like hk hn := by simp only [Node.mapLeaves, hk, hn]

/-- **Tokens that are alike are parsed alike up to the same position.** -/
theorem Likeness.session_like (L : Likeness) (h : List.Forall₂ L.token ts ts') :
    ((Session.ofTokens ts).run program).2.position =
      ((Session.ofTokens ts').run program).2.position ∧
    ((∃ n n', parse ts = .ok n ∧ parse ts' = .ok n' ∧ L.node n n') ∨
      ∃ e e', parse ts = .error e ∧ parse ts' = .error e' ∧ L.Fails e e') := by
  refine ⟨?_, L.parse_like h⟩
  have hts := L.dropEnd_like h
  have hbehind : (behindRun (program.run (dropEnd ts))).length =
      (behindRun (program.run (dropEnd ts'))).length := by
    have hagree := L.run_program_like hts
    generalize program.run (dropEnd ts) = r, program.run (dropEnd ts') = r' at hagree
    cases hagree with
    | ok _ hrest => exact hrest.length_eq
    | error _ hrest => exact hrest.length_eq
  have hrun := Session.position_run (Session.ofTokens ts).tracks_program
  have hrun' := Session.position_run (Session.ofTokens ts').tracks_program
  rw [Session.left_ofTokens] at hrun hrun'
  have hlength := hts.length_eq
  simp only [Session.ofTokens] at hrun hrun' ⊢
  omega

end Stencil.Parser

namespace Stencil.Grammar
open Stencil.Parser

variable {ts ts' : List Token}

/-- Two tokens of one kind. -/
def SameKind (t t' : Token) : Prop := t.kind = t'.kind

/-- If the tree keeps the first token, the second has its value. -/
def SameKept (t t' : Token) : Prop := t.kind.isContent = true → t.value = t'.value

/-- No number among the tokens is one that cannot be read. -/
def AllNumerals (ts : List Token) : Prop := ∀ t ∈ ts, ¬ Refused t

theorem isContent_of_isOperator {kind : Token.Kind} (h : isOperator kind = true) :
    kind.isContent = true := by
  cases kind <;> first | rfl | cases h

theorem exists_read {t : Token} (h : ¬ Refused t) (hk : t.kind = .number) :
    ∃ v, Numeral.read t.value = .ok v := by
  cases hread : Numeral.read t.value with
  | ok v => exact ⟨v, rfl⟩
  | error e => exact absurd ⟨hk, e, hread⟩ h

/-- The form goes by the kinds. -/
theorem sameLeaves_blank :
    SameLeaves .blank fun t t' => SameKind t t' ∧ ¬ Refused t ∧ ¬ Refused t' where
  kind_eq h := h.1
  endOfInput := ⟨rfl, nofun, nofun⟩
  number {t t'} h hk := by
    obtain ⟨v, hv⟩ := exists_read h.2.1 hk
    obtain ⟨v', hv'⟩ := exists_read h.2.2 (h.1 ▸ hk)
    rw [hv, hv']
    exact .ok rfl
  string _ _ := rfl
  boolean _ _ := rfl
  name _ _ := rfl
  operator _ _ := rfl

/-- The tree goes by the kinds and the values that it keeps. -/
theorem sameLeaves_unchanged : SameLeaves .unchanged fun t t' => SameKind t t' ∧ SameKept t t' where
  kind_eq h := h.1
  endOfInput := ⟨rfl, fun _ => rfl⟩
  number {t t'} h hk := by
    rw [← h.2 (by rw [hk]; rfl)]
    cases Numeral.read t.value with
    | ok v => exact .ok rfl
    | error e => exact .error e e
  string h hk := h.2 (by rcases hk with hk | hk <;> rw [hk] <;> rfl)
  boolean h hk := by rw [h.2 (by rw [hk]; rfl)]
  name h hk := h.2 (by rcases hk with hk | hk <;> rw [hk] <;> rfl)
  operator h hk := h.2 (isContent_of_isOperator hk)

/-- Where all numbers can be read, a failure is an error in the structure. -/
theorem parse_ne_numeral (h : AllNumerals ts) (e : Numeral.Error) :
    parse ts ≠ .error (.numeral e) := by
  intro hparse
  rw [parse_eq_run] at hparse
  obtain ⟨t, ht, hrefused⟩ := (numeral_iff_refused (.ofTokens ts)).mp ⟨e, hparse⟩
  have htaken : t ∈ dropEnd ts :=
    List.mem_of_mem_take (List.mem_of_mem_drop (List.mem_of_getLast? ht))
  obtain ⟨ends, hts, -⟩ := eq_dropEnd_append ts
  exact h t (hts ▸ List.mem_append_left ends htaken) hrefused

/-- Two errors of one cause, at tokens of one kind. -/
structure SameError (e e' : Error) : Prop where
  cause : e.cause.unnamed = e'.cause.unnamed
  actual : e.actual = e'.actual

/-- Trees of one form, or errors of one cause. -/
inductive SameForm : Except Failure Node → Except Failure Node → Prop
  | tree {n n' : Node} : n.erase = n'.erase → SameForm (.ok n) (.ok n')
  | error {e e' : Error} : SameError e e' →
      SameForm (.error (.malformed e)) (.error (.malformed e'))

theorem forall₂_both {P : Token → Prop} {R : Token → Token → Prop} (h : List.Forall₂ R ts ts')
    (hts : ∀ t ∈ ts, P t) (hts' : ∀ t ∈ ts', P t) :
    List.Forall₂ (fun t t' => R t t' ∧ P t ∧ P t') ts ts' := by
  induction h with
  | nil => exact .nil
  | cons hR _ ih =>
    rw [List.forall_mem_cons] at hts hts'
    exact .cons ⟨hR, hts.1, hts'.1⟩ (ih hts.2 hts'.2)

/-- **The kinds of the tokens decide the form of the tree, or the error and its position**, as long
as every number can be read.  The values that the tree keeps decide the tree. -/
theorem form_of_kinds (hkinds : List.Forall₂ SameKind ts ts') (hts : AllNumerals ts)
    (hts' : AllNumerals ts') :
    SameForm (parse ts) (parse ts') ∧
    ((Session.ofTokens ts).run program).2.position =
      ((Session.ofTokens ts').run program).2.position ∧
    (List.Forall₂ SameKept ts ts' → ∀ n, parse ts = .ok n ↔ parse ts' = .ok n) := by
  have hblank := (Likeness.ofLeaves sameLeaves_blank).session_like (forall₂_both hkinds hts hts')
  refine ⟨?_, hblank.1, fun hkept n => ?_⟩
  · obtain ⟨n, n', hn, hn', hform⟩ | ⟨e, e', he, he', hfails⟩ := hblank.2
    · rw [hn, hn']
      exact .tree hform
    · rw [he, he']
      cases hfails with
      | malformed hcause ht => exact .error ⟨hcause, ht.1⟩
      | numeral e => exact absurd he (parse_ne_numeral hts e)
  · have hboth : List.Forall₂ (fun t t' => SameKind t t' ∧ SameKept t t') ts ts' := by
      rw [List.forall₂_iff_get] at hkinds hkept ⊢
      exact ⟨hkinds.1, fun i hi hi' => ⟨hkinds.2 i hi hi', hkept.2 i hi hi'⟩⟩
    obtain ⟨m, m', hm, hm', heq⟩ | ⟨e, e', he, he', -⟩ :=
      (Likeness.ofLeaves sameLeaves_unchanged).parse_like hboth
    · obtain rfl : m = m' := by
        rw [← m.mapLeaves_unchanged, ← m'.mapLeaves_unchanged]
        exact heq
      rw [hm, hm']
    · simp [he, he']

/-- The tokens of `{{ a + 1 }}`. -/
def sampleOne : List Token :=
  [⟨.openExpression, "\x7b\x7b", 1, 1⟩, ⟨.identifier, "a", 1, 4⟩, ⟨.additive, "+", 1, 6⟩,
    ⟨.number, "1", 1, 8⟩, ⟨.closeExpression, "\x7d\x7d", 1, 10⟩]

/-- The tokens of `{{total-42}}` on another line. -/
def sampleOther : List Token :=
  [⟨.openExpression, "\x7b\x7b", 7, 1⟩, ⟨.identifier, "total", 7, 3⟩, ⟨.additive, "-", 7, 8⟩,
    ⟨.number, "42", 7, 9⟩, ⟨.closeExpression, "\x7d\x7d", 7, 11⟩]

/-- The tokens of `{{ a + 1 }}` further down. -/
def sampleMoved : List Token := sampleOne.map fun t => { t with line := t.line + 6 }

/-- A sum and a difference have trees of one form, and a sum has the same tree at another place. -/
theorem form_of_kinds_sample :
    (List.Forall₂ SameKind sampleOne sampleOther ∧ AllNumerals sampleOne ∧
      AllNumerals sampleOther ∧ SameForm (parse sampleOne) (parse sampleOther)) ∧
    (List.Forall₂ SameKind sampleOne sampleMoved ∧ AllNumerals sampleMoved ∧
      List.Forall₂ SameKept sampleOne sampleMoved ∧
      ∀ n, parse sampleOne = .ok n ↔ parse sampleMoved = .ok n) := by
  have hone : Numeral.read "1" = .ok (.integer 1) := rfl
  have hmore : Numeral.read "42" = .ok (.integer 42) := rfl
  have hsum : AllNumerals sampleOne := by simp [AllNumerals, Refused, sampleOne, hone]
  have hdifference : AllNumerals sampleOther := by
    simp [AllNumerals, Refused, sampleOther, hmore]
  have hmoved : AllNumerals sampleMoved := by
    simp [AllNumerals, Refused, sampleMoved, sampleOne, hone]
  have hkinds : List.Forall₂ SameKind sampleOne sampleOther := by
    simp [sampleOne, sampleOther, SameKind]
  have hkinds' : List.Forall₂ SameKind sampleOne sampleMoved := by
    simp [sampleMoved, sampleOne, SameKind]
  have hkept : List.Forall₂ SameKept sampleOne sampleMoved := by
    simp [sampleMoved, sampleOne, SameKept]
  exact ⟨⟨hkinds, hsum, hdifference, (form_of_kinds hkinds hsum hdifference).1⟩,
    hkinds', hmoved, hkept, (form_of_kinds hkinds' hsum hmoved).2.2 hkept⟩

end Stencil.Grammar
