import Stencil.Proofs.Grammar.Tokens
import Stencil.Proofs.Lexer.Tags

/-!
# Grammar — inside a tag

Expressions and assignments stay inside the tag that they stand in.  What they derive is made of
tokens of its inside (`Derives.allInner`).  Where they break off, they have taken such tokens only
(`Breaks.allInner`), and the failure is about one of these or the token at hand (`Breaks.noticed`);
it is never that no piece begins there, nor that a block is not ended.
-/

namespace Stencil.Parser

/-- The causes that an error inside a tag can have.  The others are that no piece begins here, and
that the word is missing that ends a block. -/
def Cause.Inside : Cause → Prop
  | .unexpectedToken context => context ≠ ""
  | .expectedToken kind => kind ≠ .kwEndif ∧ kind ≠ .kwEndfor
  | _ => True

end Stencil.Parser

namespace Stencil.Grammar
open Stencil.Parser Stencil.Lexer

variable {l : Level} {r : Rule} {t : Token} {ts us rest : List Token} {e : Failure}

/-- The rules for what stands inside a tag. -/
def Rule.Inside : Rule → Prop
  | .applied names => names ⊆ [.identifier, .boolean]
  | .branches | .piece | .body => False
  | _ => True

/-- The failure is about the token at hand, or about one of those taken. -/
inductive Noticed (ts rest : List Token) : Failure → Prop
  | numeral (e : Numeral.Error) : Noticed ts rest (.numeral e)
  | here {cause : Cause} : cause.Inside → Noticed ts rest (foundAt cause rest)
  | before {cause : Cause} {t : Token} : cause.Inside → t ∈ ts →
      Noticed ts rest (.malformed ⟨cause, some t⟩)

/-- The operators of a level stand inside tags only. -/
theorem isInner_of_joins (h : l.joins t.kind = true) : t.kind.isInner = true := by
  cases hk : t.kind <;> rw [hk] at h <;> first | rfl | (cases l <;> cases h)

/-- Brackets stand inside tags only. -/
@[simp] theorem Item.isInner_opening (i : Item) : i.opening.isInner = true := by cases i <;> rfl

@[simp] theorem Item.isInner_closing (i : Item) : i.closing.isInner = true := by cases i <;> rfl

/-- A bracket that is missing is missed inside a tag. -/
theorem Item.inside_opening (i : Item) : (Cause.expectedToken i.opening).Inside := by
  cases i <;> exact ⟨by decide, by decide⟩

theorem Item.inside_closing (i : Item) : (Cause.expectedToken i.closing).Inside := by
  cases i <;> exact ⟨by decide, by decide⟩

/-- A name stands inside a tag if those rules that admit it do. -/
theorem isInner_of_name {names : List Token.Kind} (hr : (Rule.applied names).Inside)
    (ht : t.kind ∈ names) : t.kind.isInner = true := by
  rcases kind_of_named hr ht with hk | hk <;> rw [hk] <;> rfl

/-- **What is derived inside a tag is made of tokens of its inside.** -/
theorem Derives.allInner {v : r.Tree} (h : Derives r ts v) (hr : r.Inside) : AllInner ts := by
  induction h with
  | name ht => simpa using isInner_of_name hr ht
  | operator _ _ hjoins => simp_all [Rule.Inside, isInner_of_joins hjoins]
  | enclosed => simp_all [Rule.Inside]
  | _ => simp_all [Rule.Inside, Token.Kind.isInner]

/-- The parts of a slice, with their colons, stand inside a tag. -/
theorem Parts.allInner {ps : List (Option Node)} (h : Parts ts ps) : AllInner ts := by
  induction h with
  | nil => exact allInner_nil
  | cons hpart hc _ ih =>
    have hpart := hpart.allInner trivial
    simp [hpart, ih, hc, Token.Kind.isInner]

/-- Tokens in front do not change where an error is noticed. -/
theorem Noticed.append (h : Noticed us rest e) (ts : List Token) : Noticed (ts ++ us) rest e := by
  cases h with
  | numeral e => exact .numeral e
  | here hcause => exact .here hcause
  | before hcause ht => exact .before hcause (List.mem_append_right ts ht)

theorem Noticed.cons (h : Noticed us rest e) (t : Token) : Noticed (t :: us) rest e := h.append [t]

/-- **Where a rule breaks off inside a tag it has taken tokens of its inside.** -/
theorem Breaks.allInner (h : Breaks r ts rest e) (hr : r.Inside) : AllInner ts := by
  induction h with
  | operator _ hl hjoins =>
    have hl := hl.allInner trivial
    simp_all [Rule.Inside, isInner_of_joins hjoins]
  | enclosed => simp_all [Rule.Inside]
  | _ => grind [Rule.Inside, Token.Kind.isInner, allInner_nil, allInner_append,
      allInner_cons, Derives.allInner, Parts.allInner]

/-- **Where a rule breaks off inside a tag the failure is about a token it has taken**, or about the
one at hand. -/
theorem Breaks.noticed (h : Breaks r ts rest e) (hr : r.Inside) : Noticed ts rest e := by
  induction h with
  | @keywordTarget ts rest q n hn _ hq =>
    exact .before trivial (List.mem_append_left [q] (front_mem (ne_nil_of_begins hn.begins)))
  | @itemsEnd i => exact .here i.inside_closing
  | @opening i => exact .here i.inside_opening
  | _ => grind [Rule.Inside, Cause.Inside, Noticed.append, Noticed.cons, Noticed.numeral,
      Noticed.here]

end Stencil.Grammar
