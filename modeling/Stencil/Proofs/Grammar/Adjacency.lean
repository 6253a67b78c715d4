import Stencil.Proofs.Grammar.Parsing
import Stencil.Proofs.Grammar.Tokens

/-!
# Grammar — neighbouring tokens

What stands before the tokens that a lexer has to choose by the token before them.  In a template
that is parsed, a number stands behind a token that awaits an operand, an additive or multiplicative
operator behind one that does not, and no `in` behind a `not` (`linked_of_parse`).

The kind of the token before is threaded through the tokens (`Linked`).  Two facts carry it through
the grammar: what is derived ends like an operand (`Derives.ends`), and wherever a rule may begin
with a number, the token before awaits an operand (`Derives.linked`).
-/

namespace Stencil.Grammar
open Stencil.Parser

/-- A token of the kind may stand behind one of the kind `before`, or at the start. -/
structure Follows (before : Option Token.Kind) (kind : Token.Kind) : Prop where
  number : kind = .number → before.any Token.Kind.awaitsOperand = true
  additive : kind = .additive → before.any (fun k => !k.awaitsOperand) = true
  kwIn : kind = .kwIn → before ≠ some .kwNot
  multiplicative : kind = .multiplicative → before.any (fun k => !k.awaitsOperand) = true

/-- Each of the tokens may stand behind the one before it, and the first behind the kind
`before`. -/
def Linked : Option Token.Kind → List Token → Prop
  | _, [] => True
  | before, t :: ts => Follows before t.kind ∧ Linked (some t.kind) ts

/-- The kind of the last token, behind the kind `before`. -/
def kindBehind (before : Option Token.Kind) (ts : List Token) : Option Token.Kind :=
  ts.foldl (fun _ t => some t.kind) before

variable {before : Option Token.Kind} {kind : Token.Kind} {t : Token} {ts us : List Token}

@[simp] theorem kindBehind_nil : kindBehind before [] = before := rfl

@[simp] theorem kindBehind_cons : kindBehind before (t :: ts) = kindBehind (some t.kind) ts := rfl

/-- The kind behind two rows is that behind the second one, seen from the first. -/
@[simp] theorem kindBehind_append :
    kindBehind before (ts ++ us) = kindBehind (kindBehind before ts) us := List.foldl_append

theorem kindBehind_none (ts : List Token) : kindBehind none ts = ts.getLast?.map Token.kind := by
  rcases List.eq_nil_or_concat ts with rfl | ⟨init, t, rfl⟩
  · rfl
  · simp

@[simp] theorem linked_nil : Linked before [] := trivial

/-- The first token stands behind the kind before, and the others behind it. -/
@[simp] theorem linked_cons :
    Linked before (t :: ts) ↔ Follows before t.kind ∧ Linked (some t.kind) ts := .rfl

/-- Rows are linked one behind the other if the second is behind the kind that the first ends with.
-/
@[simp] theorem linked_append :
    Linked before (ts ++ us) ↔ Linked before ts ∧ Linked (kindBehind before ts) us := by
  induction ts generalizing before with
  | nil => simp
  | cons t ts ih => simp [ih, and_assoc]

/-! ### How an operand ends -/

/-- The tokens that can end an operand. -/
def endsOperand : Token.Kind → Bool
  | .number | .string | .boolean | .identifier => true
  | .rightParen | .rightBracket | .rightBrace => true
  | _ => false

/-- The rules for operands, and for what stands at the end of some. -/
def Rule.Closes : Rule → Prop
  | .level _ | .applied _ | .enclosed _ => True
  | _ => False

/-- **An operand ends with a token that can end one.** -/
theorem Derives.ends {r : Rule} {v : r.Tree} (h : Derives r ts v) (hr : r.Named)
    (hcloses : r.Closes) (before : Option Token.Kind) :
    (kindBehind before ts).any endsOperand = true := by
  induction h generalizing before with
  | tighter _ _ ih => exact ih trivial trivial before
  | inline _ _ _ _ _ _ _ ih => simpa using ih trivial trivial _
  | operator _ _ _ _ _ ih | not _ _ ih => simpa using ih trivial trivial _
  | test _ _ _ _ ih | testNot _ _ _ _ _ ih => simpa using ih (List.Subset.refl _) trivial _
  | filter _ _ _ _ ih => simpa using ih (List.subset_append_left [_] [_]) trivial _
  | call _ _ _ ih | array _ ih | object _ ih => simpa using ih trivial trivial _
  | property _ _ ht | number ht | string ht | boolean ht | identifier ht => simp [ht, endsOperand]
  | subscript _ _ _ hc | parenthesis _ _ hc => simp [hc, endsOperand]
  | name ht =>
    rcases kind_of_named hr ht with hk | hk <;> simp [hk, endsOperand]
  | applied _ _ _ ih => simpa using ih trivial trivial _
  | @enclosed i _ _ _ _ _ _ hc => cases i <;> simp [hc, Item.closing, endsOperand]
  | _ => exact hcloses.elim

/-! ### What follows what -/

/-- The kinds that the token before does not matter for. -/
def standsAnywhere : Token.Kind → Bool
  | .number | .additive | .kwIn | .multiplicative => false
  | _ => true

/-- Most kinds stand behind any other. -/
theorem follows_of_standsAnywhere (h : standsAnywhere kind = true) : Follows before kind := by
  constructor <;> rintro rfl <;> cases h

/-- Behind an operand stands any token but a number. -/
theorem follows_of_ends (h : before.any endsOperand = true) (hk : kind ≠ .number) :
    Follows before kind := by
  cases before with
  | none => cases h
  | some k =>
    have hawaits : (some k).any (fun k => !k.awaitsOperand) = true := by
      cases k <;> first | rfl | cases h
    refine ⟨fun he => absurd he hk, fun _ => hawaits, fun _ he => ?_, fun _ => hawaits⟩
    cases he
    cases h

theorem ne_number_of_joins {l : Level} (h : l.joins kind = true) : kind ≠ .number := by
  rintro rfl
  cases l <;> cases h

/-- Behind every operator an operand is awaited. -/
theorem awaitsOperand_of_joins {l : Level} (h : l.joins kind = true) :
    kind.awaitsOperand = true := by
  cases l <;> cases kind <;> first | rfl | cases h

/-- If the tokens begin with a number, the kind before them awaits an operand. -/
def Opens (before : Option Token.Kind) (ts : List Token) : Prop :=
  (front ts).kind = .number → before.any Token.Kind.awaitsOperand = true

theorem Opens.of_append (h : Opens before (ts ++ us)) : Opens before ts := by
  intro hk
  have hend : (front ts).kind ≠ .endOfInput := by rw [hk]; decide
  obtain ⟨t, rest, rfl, -⟩ := eq_cons_of_front hend
  exact h hk

/-- No piece begins with a number, and so no row of pieces. -/
theorem Derives.front_ne_number {r : Rule} {v : r.Tree} (h : Derives r ts v)
    (hr : r = .piece ∨ r = .body) : (front ts).kind ≠ .number := by
  induction h with
  | text ht | output ht | set ht | conditional ht | loop ht => simp [ht]
  | bodyNil => nofun
  | bodyMore hn _ ih =>
    rw [front_append hn.begins.1]
    exact ih (.inl rfl)
  | _ => simp at hr

/-- A name, even in parentheses, does not begin with a number. -/
theorem Derives.front_of_name {name : String}
    (h : Derives (.level .chained) ts (Node.identifier name)) : (front ts).kind ≠ .number := by
  cases h with
  | tighter hm h =>
    cases hm
    cases h with
    | tighter hm => cases hm
    | identifier ht | parenthesis ht => simp [ht]

/-- The name of a test or filter does not begin with a number, and neither do arguments. -/
theorem Derives.front_of_closes {r : Rule} {v : r.Tree} (h : Derives r ts v) (hr : r.Named)
    (hcloses : r.Closes) (hlevel : ∀ l, r ≠ .level l) : (front ts).kind ≠ .number := by
  cases r with
  | level l => exact absurd rfl (hlevel l)
  | applied names => rcases kind_of_named hr h.begins.2 with hk | hk <;> simp [hk]
  | enclosed i =>
    have hk : (front ts).kind = i.opening := h.begins
    rw [hk]
    cases i <;> decide
  | _ => exact hcloses.elim

/-! ### Tokens in a row -/

/-- A token that stands anywhere may be put in front. -/
theorem linked_plain (ht : t.kind = kind) (hk : standsAnywhere kind = true)
    (h : Linked (some kind) ts) : Linked before (t :: ts) :=
  linked_cons.mpr ⟨follows_of_standsAnywhere (ht ▸ hk), ht ▸ h⟩

/-- A token that stands anywhere may be put between two rows. -/
theorem linked_apart (ht : t.kind = kind) (hk : standsAnywhere kind = true)
    (hts : Linked before ts) (hus : Linked (some kind) us) : Linked before (ts ++ t :: us) :=
  linked_append.mpr ⟨hts, linked_plain ht hk hus⟩

theorem linked_number (ht : t.kind = .number) (h : Opens before [t]) : Linked before [t] :=
  linked_cons.mpr ⟨⟨h, fun he => (nomatch ht.symm.trans he), fun he => (nomatch ht.symm.trans he),
    fun he => (nomatch ht.symm.trans he)⟩, trivial⟩

/-- **In what is derived, every token may stand behind the one before it**, if the kind before
awaits an operand wherever the tokens begin with a number. -/
theorem Derives.linked {r : Rule} {v : r.Tree} (h : Derives r ts v) (hr : r.Named)
    (hopens : Opens before ts) : Linked before ts := by
  have awaits {kind : Token.Kind} {ts : List Token} (h : kind.awaitsOperand = true) :
      Opens (some kind) ts := fun _ => h
  have front_ne {before : Option Token.Kind} {ts : List Token} (h : (front ts).kind ≠ .number) :
      Opens before ts := fun hk => absurd hk h
  induction h generalizing before with
  -- expressions
  | inline _ hi _ he _ ih ih' ih'' =>
    exact linked_apart hi rfl (ih trivial hopens.of_append)
      (linked_apart he rfl (ih' trivial (awaits rfl)) (ih'' trivial (awaits rfl)))
  | operator _ ha ho _ ih ih' =>
    refine linked_append.mpr ⟨ih trivial hopens.of_append, linked_cons.mpr ⟨?_, ?_⟩⟩
    · exact follows_of_ends (ha.ends trivial trivial _) (ne_number_of_joins ho)
    · exact ih' trivial (awaits (awaitsOperand_of_joins ho))
  | not ho _ ih => exact linked_plain ho rfl (ih trivial (awaits rfl))
  | test _ hi hf ih ih' =>
    have hr := List.Subset.refl [Token.Kind.identifier, Token.Kind.boolean]
    exact linked_apart hi rfl (ih trivial hopens.of_append)
      (ih' hr (front_ne (hf.front_of_closes hr trivial nofun)))
  | testNot _ hi ho hf ih ih' =>
    have hr := List.Subset.refl [Token.Kind.identifier, Token.Kind.boolean]
    exact linked_apart hi rfl (ih trivial hopens.of_append)
      (linked_plain ho rfl (ih' hr (front_ne (hf.front_of_closes hr trivial nofun))))
  | filter _ hp hf ih ih' =>
    have hr := List.subset_append_left [Token.Kind.identifier] [Token.Kind.boolean]
    exact linked_apart hp rfl (ih trivial hopens.of_append)
      (ih' hr (front_ne (hf.front_of_closes hr trivial nofun)))
  | property _ hd ht ih =>
    exact linked_apart hd rfl (ih trivial hopens.of_append) (linked_plain ht rfl linked_nil)
  | subscript _ ho _ hc ih ih' =>
    exact linked_apart ho rfl (ih trivial hopens.of_append)
      (linked_apart hc rfl (ih' trivial (awaits rfl)) linked_nil)
  | call _ hargs ih ih' =>
    exact linked_append.mpr ⟨ih trivial hopens.of_append,
      ih' trivial (front_ne (hargs.front_of_closes trivial trivial nofun))⟩
  | applied _ hargs ih ih' =>
    exact linked_append.mpr ⟨ih hr hopens.of_append,
      ih' trivial (front_ne (hargs.front_of_closes trivial trivial nofun))⟩
  -- primaries and names
  | number ht => exact linked_number ht hopens
  | string ht | boolean ht | identifier ht => exact linked_plain ht rfl linked_nil
  | parenthesis ho _ hc ih =>
    exact linked_plain ho rfl (linked_apart hc rfl (ih trivial (awaits rfl)) linked_nil)
  | name ht =>
    rcases kind_of_named hr ht with hk | hk <;> exact linked_plain hk rfl linked_nil
  -- rules that are others
  | tighter _ _ ih | array _ ih | object _ ih | index _ ih | slice _ _ ih | present _ ih
  | element _ ih | positional _ ih | itemsLast _ ih | plain _ ih => exact ih trivial hopens
  | absent | itemsNil | bodyNil => exact linked_nil
  -- between brackets
  | sliceEnd _ hc ih => exact linked_apart hc rfl (ih trivial hopens.of_append) linked_nil
  | sliceLast _ hc _ ih ih' | sliceMore _ hc _ ih ih' | keyword _ hc _ ih ih'
  | entry _ hc _ ih ih' | itemsMore _ hc _ ih ih' | assign _ hc _ ih ih' =>
    exact linked_apart hc rfl (ih trivial hopens.of_append) (ih' trivial (awaits rfl))
  | @enclosed i _ _ _ _ ho _ hc ih =>
    exact linked_plain ho (by cases i <;> rfl) (linked_apart hc (by cases i <;> rfl)
      (ih trivial (awaits (by cases i <;> rfl))) linked_nil)
  -- statements
  | noElse _ hc hbody ih ih' =>
    exact linked_apart hc rfl (ih trivial hopens.of_append)
      (ih' trivial (front_ne (hbody.front_ne_number (.inr rfl))))
  | elseIf _ hc hbody ho hw _ ih ih' ih'' =>
    exact linked_apart hc rfl (ih trivial hopens.of_append)
      (linked_apart ho rfl (ih' trivial (front_ne (hbody.front_ne_number (.inr rfl))))
        (linked_plain hw rfl (ih'' trivial (awaits rfl))))
  | elseBody _ hc hbody ho hw hc' hother ih ih' ih'' =>
    exact linked_apart hc rfl (ih trivial hopens.of_append)
      (linked_apart ho rfl (ih' trivial (front_ne (hbody.front_ne_number (.inr rfl))))
        (linked_plain hw rfl (linked_plain hc' rfl
          (ih'' trivial (front_ne (hother.front_ne_number (.inr rfl)))))))
  -- pieces
  | text ht => exact linked_plain ht rfl linked_nil
  | output ho _ hc ih =>
    exact linked_plain ho rfl (linked_apart hc rfl (ih trivial (awaits rfl)) linked_nil)
  | set ho hw _ hc ih =>
    exact linked_plain ho rfl (linked_plain hw rfl
      (linked_apart hc rfl (ih trivial (awaits rfl)) linked_nil))
  | conditional ho hw _ ho' hw' hc ih =>
    exact linked_plain ho rfl (linked_plain hw rfl (linked_apart ho' rfl (ih trivial (awaits rfl))
      (linked_plain hw' rfl (linked_plain hc rfl linked_nil))))
  | loop ho hw hv hi _ hc hbody ho' hw' hc' ih ih' ih'' =>
    refine linked_plain ho rfl (linked_plain hw rfl (linked_append.mpr
      ⟨ih trivial (front_ne hv.front_of_name), linked_cons.mpr ⟨?_, ?_⟩⟩))
    · exact follows_of_ends (hv.ends trivial trivial _) (by rw [hi]; nofun)
    · rw [hi]
      exact linked_apart hc rfl (ih' trivial (awaits rfl)) (linked_apart ho' rfl
        (ih'' trivial (front_ne (hbody.front_ne_number (.inr rfl))))
        (linked_plain hw' rfl (linked_plain hc' rfl linked_nil)))
  | bodyMore _ hbody ih ih' =>
    exact linked_append.mpr ⟨ih trivial hopens.of_append,
      ih' trivial (front_ne (hbody.front_ne_number (.inr rfl)))⟩

/-! ### Whole templates -/

/-- At most one token is dropped, and it stands for the end. -/
theorem eq_dropEnd_append (ts : List Token) :
    ∃ ends, ts = dropEnd ts ++ ends ∧ ∀ t ∈ ends, t.kind = .endOfInput := by
  rcases List.eq_nil_or_concat ts with rfl | ⟨init, t, rfl⟩
  · exact ⟨[], rfl, nofun⟩
  · by_cases ht : t.kind = .endOfInput
    · exact ⟨[t], by simp [dropEnd, ht], by simpa using ht⟩
    · exact ⟨[], by simp [dropEnd, ht], nofun⟩

/-- **In a template that is parsed, every token may stand behind the one before it.** -/
theorem linked_of_parse {n : Node} (h : parse ts = .ok n) : Linked none ts := by
  rw [← parseWithin_depthLimit] at h
  obtain ⟨body, -, hbody⟩ := derives_of_parseWithin h
  obtain ⟨ends, hts, hends⟩ := eq_dropEnd_append ts
  rw [hts, linked_append]
  refine ⟨hbody.linked trivial fun hk => absurd hk (hbody.front_ne_number (.inr rfl)), ?_⟩
  clear hts
  generalize kindBehind none (dropEnd ts) = before
  induction ends generalizing before with
  | nil => exact linked_nil
  | cons t ends ih =>
    obtain ⟨ht, hends⟩ := List.forall_mem_cons.mp hends
    exact linked_plain ht rfl (ih hends _)

end Stencil.Grammar
