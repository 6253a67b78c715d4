import Mathlib.Order.Filter.AtTopBot.Basic
import Stencil.Proofs.Grammar.Lookahead

/-!
# Grammar — what is derived is found

Whatever the grammar derives, the parser takes, with the tree of the derivation, at all depths from
some depth on (`Derives.found`).  What a rule asks of the tokens behind is only that they do not go
on from what it derives (`Stops`).

A level that repeats is told by what it does in the midst of its work: behind the tokens of an
operand and some steps it goes on as from their tree (`Found`).  So an operator, a test, a filter or
a member behind a node is one more step, and a step that is not taken ends the level
(`Found.complete`).
-/

namespace Stencil.Grammar
open Stencil.Parser Filter

/-- The parser of an item. -/
def Item.parser : (i : Item) → Nat → Parser i.Tree
  | element => Parser.expression
  | argument => Parser.argument
  | entry => Parser.entry

/-- The parser finds what the rule derives, wherever it comes to it with depth enough. -/
abbrev Found : (r : Rule) → List Token → r.Tree → Prop
  | .level l, ts, n => ∀ᶠ d in atTop, ∀ rest, Stops l.rank rest →
      (l.parser (d + 1)).run (ts ++ rest) = (again (l.step d) n).run rest
  | .applied names, ts, n => ∀ᶠ d in atTop, ∀ cause rest,
      (nameOf names cause >>= Parser.applied (d + 2)).run (ts ++ rest) =
        (again (callStep d) n).run rest
  | .index, ts, n => ∀ᶠ d in atTop, ∀ rest, (front rest).kind = .rightBracket →
      (Parser.index d).run (ts ++ rest) = .ok n rest
  | .part, ts, part => ∀ᶠ d in atTop, ∀ rounds c rest, c.kind = .colon →
      (subscriptFor (Parser.expression d) (rounds + 1)).run (ts ++ c :: rest) =
        (withPart part (subscriptFor (Parser.expression d) rounds)).run rest
  | .slice, ts, parts => ∃ before last, before ≠ [] ∧ parts = before ++ (last.map some).toList ∧
      ∀ᶠ d in atTop, ∀ rounds rest, ts.length < rounds → (front rest).kind = .rightBracket →
        (subscriptFor (Parser.expression d) rounds).run (ts ++ rest) = .ok ⟨before, last⟩ rest
  | .item i, ts, x => ∀ᶠ d in atTop, ∀ rest, Stops (Level.expression.rank + 1) rest →
      (i.parser d).run (ts ++ rest) = .ok x rest
  | .items i, ts, xs => ∀ᶠ d in atTop, ∀ rounds c rest, ts.length ≤ rounds →
      c.kind = i.closing →
        (delimitedFor i.closing (i.parser d) rounds).run (ts ++ c :: rest) = .ok xs rest
  | .enclosed i, ts, xs => ∃ o us, ts = o :: us ∧ o.kind = i.opening ∧ ∀ᶠ d in atTop, ∀ rest,
      (delimited i.closing (i.parser d)).run (us ++ rest) = .ok xs rest
  | .assignment, ts, n => ∀ᶠ d in atTop, ∀ rest, Stops (Level.expression.rank + 1) rest →
      (Parser.assignment d).run (ts ++ rest) = .ok n rest
  | .branches, ts, n => ∀ᶠ d in atTop, ∀ rest,
      beginsWith [.openStatement, .kwEndif] rest = true →
        (Parser.branches d).run (ts ++ rest) = .ok n rest
  | .piece, ts, n => ∀ᶠ d in atTop, ∀ rest, (Parser.piece d).run (ts ++ rest) = .ok n rest
  | .body, ts, ns => ∀ᶠ d in atTop, ∀ rounds, ts.length ≤ rounds →
      (allFor (Parser.piece d) rounds).run ts = .ok ns [] ∧
      ∀ rest ends missing, ends ⊆ blockEnds →
        (ends.any fun kind => beginsWith [.openStatement, kind] rest) = true →
          (piecesFor ends missing (Parser.piece d) (rounds + 1)).run (ts ++ rest) = .ok ns rest

/-- Enough depth and one more is enough depth. -/
theorem eventually_succ {P : Nat → Prop} : (∀ᶠ d in atTop, P (d + 1)) ↔ ∀ᶠ d in atTop, P d := by
  conv_rhs => rw [← map_add_atTop_eq_nat 1]
  rfl

variable {l m : Level} {i : Item} {ts us vs : List Token} {n : Node}

/-! ### Whole expressions -/

/-- A level ends where it takes no step at what follows. -/
theorem Found.stopped (h : Found (.level l) ts n) : ∀ᶠ d in atTop, ∀ rest, Stops l.rank rest →
    (∀ e, l.step e n (front rest).kind = none) → (l.parser d).run (ts ++ rest) = .ok n rest := by
  refine eventually_succ.mp ?_
  filter_upwards [h] with d hd rest hrest hstep
  rw [hd rest hrest, again_of_none (hstep d)]

/-- What a level finds is an operand of the level that is next looser. -/
theorem Found.complete (h : Found (.level m) ts n) (hm : l.tighter? = some m) :
    ∀ᶠ d in atTop, ∀ rest, Stops l.rank rest → (m.parser d).run (ts ++ rest) = .ok n rest := by
  have hlt := Level.rank_lt_of_tighter? hm
  filter_upwards [h.stopped] with d hd rest hrest
  exact hd rest (hrest.of_le hlt.le) fun e => Level.step_of_lt (hlt.trans_le hrest) e n

/-- An expression ends where neither a looser operator nor an `if` follows. -/
theorem Found.expression (h : Found (.level .expression) ts n) : ∀ᶠ d in atTop, ∀ rest,
    Stops Level.expression.rank rest → (Parser.expression d).run (ts ++ rest) = .ok n rest := by
  filter_upwards [h.stopped] with d hd rest hrest
  exact hd rest hrest fun _ => rfl

/-! ### Expressions -/

/-- What the next tighter level finds, a level finds, unless `not` begins it. -/
theorem Found.tighter (hm : l.tighter? = some m) (hbegins : m.begins (front ts).kind = true)
    (h : Found (.level m) ts n) : Found (.level l) ts n := by
  by_cases hl : l.repeats = true
  · filter_upwards [h.complete hm] with d hd rest hrest
    rw [Level.parser_succ hl hm, extend_run, bind_of_ok (hd rest hrest)]
  cases l with
  | expression =>
    filter_upwards [h.complete hm] with d hd rest hrest
    cases hm
    show (Parser.expression (d + 1)).run _ = _
    have hif : (front rest).kind ≠ .kwIf := fun he => by
      have hrank : Level.expression.rank ≤ rankOf (front rest).kind := hrest
      rw [he] at hrank
      exact absurd hrank (by decide)
    have hvalue : (Parser.disjunction d).run (ts ++ rest) = .ok n rest := hd rest hrest
    rw [Parser.expression, bind_of_ok hvalue, bind_of_ok (current_run rest), if_neg hif,
      again_of_none rfl, pure_run]
  | negation =>
    filter_upwards [h.complete hm] with d hd rest hrest
    cases hm
    show (Parser.negation (d + 1)).run _ = _
    have hnot : (front (ts ++ rest)).kind ≠ .kwNot := fun he => by
      have hkind := begins_append hbegins rest
      rw [he, Level.begins_kwNot (by decide)] at hkind
      cases hkind
    rw [Parser.negation, bind_of_ok (current_run _), if_neg hnot, again_of_none rfl]
    exact hd rest hrest
  | primary => cases hm
  | _ => exact absurd rfl hl

/-- A value, its condition and its alternative are read with the keywords between them. -/
theorem Found.inline {i e : Token} {value test other : Node}
    (hvalue : Found (.level .disjunction) ts value) (hi : i.kind = .kwIf)
    (htest : Found (.level .disjunction) us test) (he : e.kind = .kwElse)
    (hother : Found (.level .disjunction) vs other) :
    Found (.level .expression) (ts ++ i :: (us ++ e :: vs))
      (Node.conditional test [value] [other]) := by
  have operand {ws : List Token} {x : Node} (h : Found (.level .disjunction) ws x) :
      ∀ᶠ d in atTop, ∀ rest, Stops (Level.disjunction.rank + 1) rest →
        (Parser.disjunction d).run (ws ++ rest) = .ok x rest := by
    filter_upwards [h.stopped] with d hd rest hrest
    exact hd rest (hrest.of_le (Nat.le_succ _)) fun e => Level.step_of_lt hrest e x
  filter_upwards [operand hvalue, operand htest, operand hother] with d hv ht ho rest hrest
  show (Parser.expression (d + 1)).run _ = _
  rw [List.append_assoc, List.cons_append, List.append_assoc, List.cons_append, Parser.expression,
    bind_of_ok (hv _ (stops_cons hi (by decide) _)), bind_of_ok (current_run _), front_cons,
    if_pos hi, bind_of_ok (advance_cons i _), bind_of_ok (ht _ (stops_cons he (by decide) _)),
    bind_of_ok (expect_cons he _), bind_of_ok (ho rest (hrest.of_le (by decide))),
    again_of_none rfl, pure_run]

/-- An operator stops its left operand, and its right one stops where the level does. -/
theorem Found.operator {o : Token} {a b : Node} (hm : l.tighter? = some m)
    (ha : Found (.level l) ts a) (ho : l.joins o.kind = true) (hb : Found (.level m) us b) :
    Found (.level l) (ts ++ o :: us) (Node.binary o.value a b) := by
  filter_upwards [ha, hb.complete hm] with d ha hb rest hrest
  rw [List.append_assoc, List.cons_append, ha _ (stops_of_joins ho _),
    again_of_some (l.advances_step d) (Level.step_of_joins hm ho d a), bind_assoc_run,
    bind_of_ok (advance_cons o _), bind_assoc_run, bind_of_ok (hb rest hrest)]
  rfl

/-- `not` is read, and a negation behind it. -/
theorem Found.not {o : Token} (ho : o.kind = .kwNot) (h : Found (.level .negation) ts n) :
    Found (.level .negation) (o :: ts) (Node.unary o.value n) := by
  filter_upwards [h.stopped] with d hd rest hrest
  show (Parser.negation (d + 1)).run _ = _
  rw [List.cons_append, Parser.negation, bind_of_ok (current_run _), front_cons, if_pos ho,
    bind_of_ok (advance_cons o _)]
  have hoperand : (Parser.negation d).run (ts ++ rest) = .ok n rest := hd rest hrest fun _ => rfl
  rw [bind_of_ok hoperand, again_of_none rfl, pure_run]

/-! ### Steps behind a node -/

theorem Found.name {names : List Token.Kind} {t : Token} (ht : t.kind ∈ names) :
    Found (.applied names) [t] (Node.identifier t.value) :=
  .of_forall fun d cause rest => by
    rw [List.singleton_append, bind_of_ok (nameOf_cons ht cause rest), applied_run]

/-- Arguments are found where a list of them begins. -/
theorem Found.arguments {args : List Node} (h : Found (.enclosed .argument) ts args) :
    (∀ rest, (front (ts ++ rest)).kind = .leftParen) ∧
      ∀ᶠ d in atTop, ∀ rest, (Parser.arguments d).run (ts ++ rest) = .ok args rest := by
  obtain ⟨o, us, rfl, ho, h⟩ := h
  refine ⟨fun _ => ho, eventually_succ.mp ?_⟩
  filter_upwards [h] with d hd rest
  have hopen : (expect .leftParen).run (o :: (us ++ rest)) = .ok o (us ++ rest) := expect_cons ho _
  rw [Parser.arguments, List.cons_append, bind_of_ok hopen]
  exact hd rest

/-- Arguments are read behind a name, for as long as parentheses follow. -/
theorem Found.applied {names : List Token.Kind} {f : Node} {args : List Node}
    (hf : Found (.applied names) ts f) (hargs : Found (.enclosed .argument) us args) :
    Found (.applied names) (ts ++ us) (Node.call f args) := by
  obtain ⟨hparen, hargs⟩ := hargs.arguments
  filter_upwards [hf, hargs] with d hf hargs cause rest
  rw [List.append_assoc, hf, again_call (hparen rest), bind_of_ok (hargs rest)]

/-- The name of a test or filter is complete where no parenthesis follows it. -/
theorem Found.named {names : List Token.Kind} {f : Node} (h : Found (.applied names) ts f) :
    ∀ᶠ d in atTop, ∀ cause rest, Stops Level.filtered.rank rest →
      (nameOf names cause >>= Parser.applied d).run (ts ++ rest) = .ok f rest := by
  refine eventually_succ.mp (eventually_succ.mp ?_)
  filter_upwards [h] with d hd cause rest hrest
  have hparen : (front rest).kind ≠ .leftParen := fun he => by
    have hrank : Level.filtered.rank ≤ rankOf (front rest).kind := hrest
    rw [he] at hrank
    exact absurd hrank (by decide)
  rw [hd cause rest, again_of_none (if_neg hparen)]

/-- `is` stops what is tested, and the name of the test is no `not`. -/
theorem Found.test {i : Token} {f : Node} (hn : Found (.level .tested) ts n) (hi : i.kind = .kwIs)
    (hbegins : (Rule.applied [.identifier, .boolean]).Begins us)
    (hf : Found (.applied [.identifier, .boolean]) us f) :
    Found (.level .tested) (ts ++ i :: us) (Node.test n false f) := by
  filter_upwards [hn, hf.named] with d hn hf rest hrest
  have hnot : (front (us ++ rest)).kind ≠ .kwNot := fun he => by
    have hkind := hbegins.2
    rw [← front_append hbegins.1 rest, he] at hkind
    exact absurd hkind (by decide)
  have hname := hf .testName rest (hrest.of_le (by decide))
  rw [List.append_assoc, List.cons_append, hn _ (stops_cons hi (by decide) _)]
  exact (again_test hi hnot).trans (bind_of_ok hname)

/-- `not` behind `is` belongs to the test. -/
theorem Found.testNot {i o : Token} {f : Node} (hn : Found (.level .tested) ts n)
    (hi : i.kind = .kwIs) (ho : o.kind = .kwNot)
    (hf : Found (.applied [.identifier, .boolean]) us f) :
    Found (.level .tested) (ts ++ i :: o :: us) (Node.test n true f) := by
  filter_upwards [hn, hf.named] with d hn hf rest hrest
  have hname := hf .testName rest (hrest.of_le (by decide))
  rw [List.append_assoc, List.cons_append, List.cons_append, hn _ (stops_cons hi (by decide) _)]
  exact (again_testNot hi ho).trans (bind_of_ok hname)

/-- A bar stops what is filtered. -/
theorem Found.filter {p : Token} {f : Node} (hn : Found (.level .filtered) ts n)
    (hp : p.kind = .pipe) (hf : Found (.applied [.identifier]) us f) :
    Found (.level .filtered) (ts ++ p :: us) (Node.filter n f) := by
  filter_upwards [hn, hf.named] with d hn hf rest hrest
  have hname := hf .filterName rest hrest
  rw [List.append_assoc, List.cons_append, hn _ (stops_cons hp (by decide) _)]
  exact (again_filter hp).trans (bind_of_ok hname)

/-- A dot and a name behind an object. -/
theorem Found.property {o t : Token} (hn : Found (.level .chained) ts n) (ho : o.kind = .dot)
    (ht : t.kind = .identifier) :
    Found (.level .chained) (ts ++ [o, t]) (Node.member n (.identifier t.value) false) := by
  refine eventually_succ.mp ?_
  filter_upwards [eventually_succ.mpr hn] with d hn rest _
  rw [List.append_assoc, List.cons_append, List.singleton_append,
    hn _ (stops_cons ho (by decide) _)]
  exact again_property ho ht

/-- An index between brackets behind an object. -/
theorem Found.subscript {o c : Token} {p : Node} (hn : Found (.level .chained) ts n)
    (ho : o.kind = .leftBracket) (hp : Found .index us p) (hc : c.kind = .rightBracket) :
    Found (.level .chained) (ts ++ o :: (us ++ [c])) (Node.member n p true) := by
  refine eventually_succ.mp ?_
  filter_upwards [eventually_succ.mpr hn, hp] with d hn hp rest _
  rw [List.append_assoc, List.cons_append, List.append_assoc, List.singleton_append,
    hn _ (stops_cons ho (by decide) _)]
  refine (again_subscript ho).trans ?_
  rw [bind_of_ok (hp (c :: rest) hc), bind_of_ok (expect_cons hc rest)]
  rfl

/-- Arguments behind a callee, whether a call goes on or begins there. -/
theorem Found.call {f : Node} {args : List Node} (hf : Found (.level .chained) ts f)
    (hargs : Found (.enclosed .argument) us args) :
    Found (.level .chained) (ts ++ us) (Node.call f args) := by
  obtain ⟨hparen, hargs⟩ := hargs.arguments
  refine eventually_succ.mp ?_
  filter_upwards [eventually_succ.mpr hf, hargs] with d hf hargs rest _
  have hstop : Stops Level.chained.rank (us ++ rest) := by
    rw [Stops, hparen rest]
    decide
  rw [List.append_assoc, hf _ hstop]
  exact (again_chain_call (hparen rest)).trans (bind_of_ok (hargs rest))

/-! ### Primaries -/

/-- What a primary finds, it finds whatever follows. -/
theorem Found.of_primary
    (h : ∀ᶠ d in atTop, ∀ rest, (Parser.primary (d + 1)).run (ts ++ rest) = .ok n rest) :
    Found (.level .primary) ts n := by
  filter_upwards [h] with d hd rest _
  rw [again_of_none rfl]
  exact hd rest

/-- A number is found where its text can be read. -/
theorem Found.number {t : Token} {v : Number} (ht : t.kind = .number)
    (hv : Numeral.read t.value = .ok v) : Found (.level .primary) [t] (Node.number v) :=
  .of_primary <| .of_forall fun d rest => by
    rw [List.singleton_append, primary_cons (by rw [ht]; rfl), primaryBehind, ht]
    simp only [hv, pure_run]

theorem Found.string {t : Token} (ht : t.kind = .string) :
    Found (.level .primary) [t] (Node.string t.value) :=
  .of_primary <| .of_forall fun d rest => by
    rw [List.singleton_append, primary_cons (by rw [ht]; rfl), primaryBehind, ht, pure_run]

theorem Found.boolean {t : Token} (ht : t.kind = .boolean) :
    Found (.level .primary) [t] (Node.boolean (truthValue t.value)) :=
  .of_primary <| .of_forall fun d rest => by
    rw [List.singleton_append, primary_cons (by rw [ht]; rfl), primaryBehind, ht, pure_run]

theorem Found.identifier {t : Token} (ht : t.kind = .identifier) :
    Found (.level .primary) [t] (Node.identifier t.value) :=
  .of_primary <| .of_forall fun d rest => by
    rw [List.singleton_append, primary_cons (by rw [ht]; rfl), primaryBehind, ht, pure_run]

/-- Parentheses are read and leave no trace. -/
theorem Found.parenthesis {o c : Token} (ho : o.kind = .leftParen)
    (h : Found (.level .expression) ts n) (hc : c.kind = .rightParen) :
    Found (.level .primary) (o :: (ts ++ [c])) n := by
  refine .of_primary ?_
  filter_upwards [h.expression] with d hd rest
  rw [List.cons_append, List.append_assoc, List.singleton_append,
    primary_cons (by rw [ho]; rfl), primaryBehind, ho]
  dsimp only
  rw [bind_of_ok (hd (c :: rest) (stops_cons hc (by decide) _)), bind_of_ok (expect_cons hc rest),
    pure_run]

/-- The elements of an array with the brackets around them. -/
theorem Found.array {ns : List Node} (h : Found (.enclosed .element) ts ns) :
    Found (.level .primary) ts (Node.array ns) := by
  obtain ⟨o, us, rfl, ho, h⟩ := h
  have ho : o.kind = .leftBracket := ho
  refine .of_primary ?_
  filter_upwards [h] with d hd rest
  rw [List.cons_append, primary_cons (by rw [ho]; rfl), primaryBehind, ho]
  exact bind_of_ok (hd rest)

/-- The pairs of an object with the braces around them. -/
theorem Found.object {ps : List (Node × Node)} (h : Found (.enclosed .entry) ts ps) :
    Found (.level .primary) ts (Node.object ps) := by
  obtain ⟨o, us, rfl, ho, h⟩ := h
  have ho : o.kind = .leftBrace := ho
  refine .of_primary ?_
  filter_upwards [h] with d hd rest
  rw [List.cons_append, primary_cons (by rw [ho]; rfl), primaryBehind, ho]
  exact bind_of_ok (hd rest)

/-! ### Between brackets -/

theorem Found.itemsNil : Found (.items i) [] ([] : List i.Tree) :=
  .of_forall fun _ rounds _ rest _ hc => delimitedFor_close hc _ rounds rest

/-- Where there are as many rounds as tokens, there is a round for a token. -/
theorem exists_round {rounds : Nat} (h : ts.length ≤ rounds) (hne : ts ≠ []) :
    ∃ r, rounds = r + 1 :=
  Nat.exists_eq_add_one.mpr (Nat.lt_of_lt_of_le (List.length_pos_iff.mpr hne) h)

/-- No item begins with a closing bracket. -/
theorem front_ne_closing (h : Level.expression.begins (front ts).kind = true) (i : Item)
    (rest : List Token) : (front (ts ++ rest)).kind ≠ i.closing := fun he => by
  have hkind := begins_append h rest
  rw [he] at hkind
  cases i <;> cases hkind

/-- A bracket that closes items goes on from no expression. -/
theorem stops_closing {c : Token} (hc : c.kind = i.closing) (rest : List Token) :
    Stops (Level.expression.rank + 1) (c :: rest) :=
  stops_cons hc (by cases i <;> decide) rest

/-- The last item stands at the closing token, with no comma behind it. -/
theorem Found.itemsLast {x : i.Tree} (hbegins : Level.expression.begins (front ts).kind = true)
    (hx : Found (.item i) ts x) : Found (.items i) ts [x] := by
  filter_upwards [hx] with d hx rounds c rest hrounds hc
  have hne := ne_nil_of_begins hbegins
  obtain ⟨rounds, rfl⟩ := exists_round hrounds hne
  exact delimitedFor_last (by simp) (front_ne_closing hbegins i _) (hx _ (stops_closing hc rest)) hc
    (by cases i <;> decide) rounds

/-- An item and its comma in front of more items, or of none. -/
theorem Found.itemsMore {c : Token} {x : i.Tree} {xs : List i.Tree}
    (hbegins : Level.expression.begins (front ts).kind = true) (hx : Found (.item i) ts x)
    (hc : c.kind = .comma) (hxs : Found (.items i) us xs) :
    Found (.items i) (ts ++ c :: us) (x :: xs) := by
  filter_upwards [hx, hxs] with d hx hxs rounds e rest hrounds he
  obtain ⟨rounds, rfl⟩ := exists_round hrounds (by simp)
  rw [List.append_assoc, List.cons_append,
    delimitedFor_comma (by simp) (front_ne_closing hbegins i _)
      (hx _ (stops_cons hc (by decide) _)) hc rounds,
    bind_of_ok (hxs rounds e rest (by simp at hrounds; omega) he), pure_run]

/-- Items are read up to the closing token, with as many rounds as they need. -/
theorem Found.enclosed {o c : Token} {xs : List i.Tree} (ho : o.kind = i.opening)
    (hxs : Found (.items i) ts xs) (hc : c.kind = i.closing) :
    Found (.enclosed i) (o :: (ts ++ [c])) xs := by
  refine ⟨o, ts ++ [c], rfl, ho, ?_⟩
  filter_upwards [hxs] with d hd rest
  rw [List.append_assoc, List.singleton_append, delimited, bind_of_ok (remaining_run _)]
  exact hd _ c rest (by simp) hc

theorem Found.element (h : Found (.level .expression) ts n) : Found (.item .element) ts n := by
  filter_upwards [h.expression] with d hd rest hrest
  exact hd rest (hrest.of_le (Nat.le_succ _))

/-- A name stops at the sign of a keyword argument, and its value is read behind it. -/
theorem Found.keyword {e : Token} {k : String} {v : Node}
    (hk : Found (.level .expression) ts (Node.identifier k)) (he : e.kind = .equals)
    (hv : Found (.level .expression) us v) :
    Found (.item .argument) (ts ++ e :: us) (Node.keyword (.identifier k) v) := by
  refine eventually_succ.mp ?_
  filter_upwards [hk.expression, hv.expression] with d hk hv rest hrest
  show (Parser.argument (d + 1)).run _ = _
  rw [List.append_assoc, List.cons_append, Parser.argument, bind_of_ok (current_run _),
    bind_of_ok (hk _ (stops_cons he (by decide) _)), bind_of_ok (current_run _), front_cons,
    if_pos he, bind_of_ok (advance_cons e _), if_pos (by rfl),
    bind_of_ok (hv rest (hrest.of_le (Nat.le_succ _))), pure_run]

/-- An equals sign goes on with an argument or an assignment. -/
theorem front_ne_equals {rest : List Token} (h : Stops (Level.expression.rank + 1) rest) :
    (front rest).kind ≠ .equals := fun he => by
  have hrank : Level.expression.rank + 1 ≤ rankOf (front rest).kind := h
  rw [he] at hrank
  exact absurd hrank (by decide)

/-- An argument is plain where no sign follows. -/
theorem Found.positional (h : Found (.level .expression) ts n) :
    Found (.item .argument) ts n := by
  refine eventually_succ.mp ?_
  filter_upwards [h.expression] with d hd rest hrest
  show (Parser.argument (d + 1)).run _ = _
  rw [Parser.argument, bind_of_ok (current_run _),
    bind_of_ok (hd rest (hrest.of_le (Nat.le_succ _))), bind_of_ok (current_run _),
    if_neg (front_ne_equals hrest), pure_run]

/-- A colon stops a key. -/
theorem Found.entry {c : Token} {k v : Node} (hk : Found (.level .expression) ts k)
    (hc : c.kind = .colon) (hv : Found (.level .expression) us v) :
    Found (.item .entry) (ts ++ c :: us) (k, v) := by
  refine eventually_succ.mp ?_
  filter_upwards [hk.expression, hv.expression] with d hk hv rest hrest
  show (Parser.entry (d + 1)).run _ = _
  rw [List.append_assoc, List.cons_append, Parser.entry,
    bind_of_ok (hk _ (stops_cons hc (by decide) _)), bind_of_ok (expect_cons hc _),
    bind_of_ok (hv rest (hrest.of_le (Nat.le_succ _))), pure_run]

/-! ### Indices and slices -/

/-- A part may be absent; nothing is read for it. -/
theorem Found.absent : Found .part [] (none : Option Node) :=
  .of_forall fun _ rounds _ rest hc => subscriptFor_absent hc rest _ rounds

/-- An expression begins with no closing bracket and no colon. -/
theorem front_ne_of_begins (h : Level.expression.begins (front ts).kind = true)
    (rest : List Token) : ts ++ rest ≠ [] ∧ (front (ts ++ rest)).kind ≠ .rightBracket ∧
      (front (ts ++ rest)).kind ≠ .colon := by
  have hkind := begins_append h rest
  refine ⟨ne_nil_of_begins hkind, ?_, ?_⟩ <;> intro he <;> rw [he] at hkind <;> cases hkind

/-- An expression is a part where a colon or the bracket follows. -/
theorem Found.present (hbegins : Level.expression.begins (front ts).kind = true)
    (h : Found (.level .expression) ts n) : Found .part ts (some n) := by
  filter_upwards [h.expression] with d hd rounds c rest hc
  obtain ⟨hne, hclose, hcolon⟩ := front_ne_of_begins hbegins (c :: rest)
  exact subscriptFor_present hne hclose hcolon (hd _ (stops_cons hc (by decide) rest)) hc rounds

/-- The last expression between brackets. -/
theorem Found.last (hbegins : Level.expression.begins (front ts).kind = true)
    (h : Found (.level .expression) ts n) : ∀ᶠ d in atTop, ∀ rounds rest, 0 < rounds →
      (front rest).kind = .rightBracket →
      (subscriptFor (Parser.expression d) rounds).run (ts ++ rest) = .ok ⟨[], some n⟩ rest := by
  filter_upwards [h.expression] with d hd rounds rest hrounds hrest
  obtain ⟨rounds, rfl⟩ := Nat.exists_eq_add_one.mpr hrounds
  obtain ⟨hne, hclose, hcolon⟩ := front_ne_of_begins hbegins rest
  have hstop : Stops Level.expression.rank rest := by
    rw [Stops, hrest]
    decide
  exact subscriptFor_last hne hclose hcolon (hd rest hstop) hrest rounds

/-- One expression, and no colon, between brackets is an index. -/
theorem Found.index (hbegins : Level.expression.begins (front ts).kind = true)
    (h : Found (.level .expression) ts n) : Found .index ts n := by
  refine eventually_succ.mp ?_
  filter_upwards [h.last hbegins] with d hd rest hrest
  have hne := (front_ne_of_begins hbegins rest).1
  rw [Parser.index, Parser.subscript, bind_of_ok (remaining_run _),
    bind_of_ok (hd _ rest (List.length_pos_iff.mpr hne) hrest), pure_run]

/-- A part with its colon in front of a slice. -/
theorem Found.part_slice {c : Token} {part : Option Node} {parts : List (Option Node)}
    (hpart : Found .part ts part) (hc : c.kind = .colon) (before : List (Option Node))
    (last : Option Node) (hparts : parts = before ++ (last.map some).toList)
    (hlater : ∀ᶠ d in atTop, ∀ rounds rest, us.length < rounds → (front rest).kind = .rightBracket →
      (subscriptFor (Parser.expression d) rounds).run (us ++ rest) = .ok ⟨before, last⟩ rest) :
    Found .slice (ts ++ c :: us) (part :: parts) := by
  refine ⟨part :: before, last, List.cons_ne_nil _ _, congrArg _ hparts, ?_⟩
  filter_upwards [hpart, hlater] with d hpart hlater rounds rest hrounds hrest
  obtain ⟨rounds, rfl⟩ := Nat.exists_eq_add_one.mpr (Nat.zero_lt_of_lt hrounds)
  have hus : us.length < rounds := by
    simp only [List.length_append, List.length_cons] at hrounds
    omega
  rw [List.append_assoc, List.cons_append, hpart rounds c _ hc, withPart,
    bind_of_ok (hlater rounds rest hus hrest), pure_run]

/-- A slice may end with a colon. -/
theorem Found.sliceEnd {c : Token} {part : Option Node} (hpart : Found .part ts part)
    (hc : c.kind = .colon) : Found .slice (ts ++ [c]) [part] := by
  refine hpart.part_slice hc [] none rfl (.of_forall fun _ rounds rest hrounds hrest => ?_)
  obtain ⟨rounds, rfl⟩ := Nat.exists_eq_add_one.mpr hrounds
  exact subscriptFor_close hrest _ rounds

/-- A slice may end with an expression behind its last colon. -/
theorem Found.sliceLast {c : Token} {part : Option Node} (hpart : Found .part ts part)
    (hc : c.kind = .colon) (hbegins : Level.expression.begins (front us).kind = true)
    (hn : Found (.level .expression) us n) : Found .slice (ts ++ c :: us) [part, some n] := by
  refine hpart.part_slice hc [] (some n) rfl ?_
  filter_upwards [hn.last hbegins] with d hd rounds rest hrounds
  exact hd rounds rest (Nat.zero_lt_of_lt hrounds)

/-- A part and its colon in front of a slice. -/
theorem Found.sliceMore {c : Token} {part : Option Node} {parts : List (Option Node)}
    (hpart : Found .part ts part) (hc : c.kind = .colon) (hparts : Found .slice us parts) :
    Found .slice (ts ++ c :: us) (part :: parts) := by
  obtain ⟨before, last, -, hparts, hlater⟩ := hparts
  exact hpart.part_slice hc before last hparts hlater

/-- A slice has up to three parts.  With more, the error tells their count. -/
theorem Found.slice_counted {parts : List (Option Node)} (h : Found .slice ts parts) :
    ∀ᶠ d in atTop, ∀ rest, (front rest).kind = .rightBracket → (Parser.index d).run (ts ++ rest) =
      if parts.length ≤ 3 then .ok (sliceOf parts) rest
      else .error (.malformed ⟨.sliceParts parts.length, some (front rest)⟩) rest := by
  obtain ⟨before, last, hne, hparts, h⟩ := h
  obtain ⟨b, before, rfl⟩ := List.exists_cons_of_ne_nil hne
  refine eventually_succ.mp ?_
  filter_upwards [h] with d hd rest hrest
  have hlt : ts.length < (ts ++ rest).length := by
    cases rest with
    | nil => cases hrest
    | cons c rest => simp
  rw [Parser.index, Parser.subscript, bind_of_ok (remaining_run _), bind_of_ok (hd _ rest hlt hrest)]
  dsimp only
  rw [← hparts]
  rcases parts with _ | ⟨start, _ | ⟨stop, _ | ⟨step, _ | ⟨more, parts⟩⟩⟩⟩
  · cases hparts
  · rfl
  · rfl
  · rfl
  · exact (failHere_run _ _).trans (if_neg (by simp)).symm

/-- A slice with three parts at most is a slice of the tree. -/
theorem Found.slice {parts : List (Option Node)} (h : Found .slice ts parts)
    (hlength : parts.length ≤ 3) : Found .index ts (sliceOf parts) := by
  filter_upwards [h.slice_counted] with d hd rest hrest
  rw [hd rest hrest, if_pos hlength]

/-! ### Statements -/

/-- An expression alone is an assignment's value where no sign follows. -/
theorem Found.plain (h : Found (.level .expression) ts n) : Found .assignment ts n := by
  refine eventually_succ.mp ?_
  filter_upwards [h.expression] with d hd rest hrest
  rw [Parser.assignment, bind_of_ok (hd rest (hrest.of_le (Nat.le_succ _))),
    bind_of_ok (current_run _), if_neg (front_ne_equals hrest), pure_run]

/-- Assignments group from the right. -/
theorem Found.assign {e : Token} {target value : Node} (ht : Found (.level .expression) ts target)
    (he : e.kind = .equals) (hv : Found .assignment us value) :
    Found .assignment (ts ++ e :: us) (Node.assignment target value) := by
  refine eventually_succ.mp ?_
  filter_upwards [ht.expression, hv] with d ht hv rest hrest
  rw [List.append_assoc, List.cons_append, Parser.assignment,
    bind_of_ok (ht _ (stops_cons he (by decide) _)), bind_of_ok (current_run _), front_cons,
    if_pos he, bind_of_ok (advance_cons e _), bind_of_ok (hv rest hrest), pure_run]

/-- The pieces of a block are found before a tag that ends it. -/
theorem Found.pieces {ns : List Node} (h : Found .body ts ns) : ∀ᶠ d in atTop,
    ∀ rest ends missing, ends ⊆ blockEnds →
      (ends.any fun kind => beginsWith [.openStatement, kind] rest) = true →
        (pieces ends missing (Parser.piece d)).run (ts ++ rest) = .ok ns rest := by
  filter_upwards [h] with d hd rest ends missing hends hrest
  have hlt : ts.length < (ts ++ rest).length := by
    cases rest with
    | nil => simp [beginsWith] at hrest
    | cons o rest => simp
  obtain ⟨rounds, hrounds⟩ := Nat.exists_eq_add_one.mpr (Nat.zero_lt_of_lt hlt)
  rw [Parser.pieces, bind_of_ok (remaining_run _), hrounds]
  exact (hd rounds (by omega)).2 rest ends missing hends hrest

/-- A body may be empty; the tag that ends it is left. -/
theorem Found.bodyNil : Found .body [] ([] : List Node) :=
  .of_forall fun _ rounds _ => ⟨allFor_nil _ rounds, fun _ _ missing _ hrest =>
    piecesFor_stop hrest missing _ rounds⟩

/-- A piece in front of a body is no tag that ends it. -/
theorem Found.bodyMore {ns : List Node} (hbegins : Rule.piece.Begins ts) (hn : Found .piece ts n)
    (hns : Found .body us ns) : Found .body (ts ++ us) (n :: ns) := by
  obtain ⟨hne, hbegins⟩ := hbegins
  filter_upwards [hn, hns] with d hn hns rounds hrounds
  obtain ⟨rounds, rfl⟩ := exists_round hrounds (by simp [hne])
  have hpos := List.length_pos_iff.mpr hne
  rw [List.length_append] at hrounds
  obtain ⟨hall, hpieces⟩ := hns rounds (by omega)
  refine ⟨?_, fun rest ends missing hends hrest => ?_⟩
  · rw [allFor_piece (by simp [hne]) (hn us), bind_of_ok hall, pure_run]
  · have hstart : (ends.any fun kind => beginsWith [.openStatement, kind] (ts ++ (us ++ rest))) =
        false := List.any_eq_false.mpr fun kind hk => by
      rw [hbegins kind (hends hk)]
      exact Bool.false_ne_true
    rw [List.append_assoc, piecesFor_piece hstart (by simp [hne]) (hn (us ++ rest)),
      bind_of_ok (hpieces rest ends missing hends hrest), pure_run]

/-- A conditional without an alternative ends at its end tag. -/
theorem Found.noElse {c : Token} {test : Node} {body : List Node}
    (htest : Found (.level .expression) ts test) (hc : c.kind = .closeStatement)
    (hbody : Found .body us body) :
    Found .branches (ts ++ c :: us) (Node.conditional test body []) := by
  refine eventually_succ.mp ?_
  filter_upwards [htest.expression, hbody.pieces] with d htest hbody rest hrest
  obtain ⟨o, w, rest, rfl, ho, hw⟩ := beginsWith_pair hrest
  have hends : ([.kwElif, .kwElse, .kwEndif].any fun kind =>
      beginsWith [.openStatement, kind] (o :: w :: rest)) = true := by
    simp [beginsWith, ho, hw]
  rw [List.append_assoc, List.cons_append, Parser.branches,
    bind_of_ok (htest _ (stops_cons hc (by decide) _)), bind_of_ok (expect_cons hc _),
    bind_of_ok (hbody _ _ _ (by decide) hends), bind_of_ok (sees_run _ _),
    if_neg (by simp [beginsWith, hw]), bind_of_ok (sees_run _ _),
    if_neg (by simp [beginsWith, hw]), pure_run]

/-- An `elif` leads to branches of its own, which are the alternative. -/
theorem Found.elseIf {c o w : Token} {test other : Node} {body : List Node}
    (htest : Found (.level .expression) ts test) (hc : c.kind = .closeStatement)
    (hbody : Found .body us body) (ho : o.kind = .openStatement) (hw : w.kind = .kwElif)
    (hother : Found .branches vs other) :
    Found .branches (ts ++ c :: (us ++ o :: w :: vs)) (Node.conditional test body [other]) := by
  refine eventually_succ.mp ?_
  filter_upwards [htest.expression, hbody.pieces, hother] with d htest hbody hother rest hrest
  have hends : ([.kwElif, .kwElse, .kwEndif].any fun kind =>
      beginsWith [.openStatement, kind] (o :: w :: (vs ++ rest))) = true := by
    simp [beginsWith, ho, hw]
  simp only [List.append_assoc, List.cons_append]
  rw [Parser.branches, bind_of_ok (htest _ (stops_cons hc (by decide) _)),
    bind_of_ok (expect_cons hc _), bind_of_ok (hbody _ _ _ (by decide) hends),
    bind_of_ok (sees_run _ _), if_pos (by simp [beginsWith, ho, hw]), bind_of_ok (advance_cons o _),
    bind_of_ok (advance_cons w _), bind_of_ok (hother rest hrest), pure_run]

/-- An `else` leads to a body, which is the alternative. -/
theorem Found.elseBody {c o w e : Token} {test : Node} {body other : List Node}
    (htest : Found (.level .expression) ts test) (hc : c.kind = .closeStatement)
    (hbody : Found .body us body) (ho : o.kind = .openStatement) (hw : w.kind = .kwElse)
    (he : e.kind = .closeStatement) (hother : Found .body vs other) :
    Found .branches (ts ++ c :: (us ++ o :: w :: e :: vs)) (Node.conditional test body other) := by
  refine eventually_succ.mp ?_
  filter_upwards [htest.expression, hbody.pieces, hother.pieces] with d htest hbody hother rest hrest
  have hends : ([.kwElif, .kwElse, .kwEndif].any fun kind =>
      beginsWith [.openStatement, kind] (o :: w :: e :: (vs ++ rest))) = true := by
    simp [beginsWith, ho, hw]
  have hend : ([.kwEndif].any fun kind => beginsWith [.openStatement, kind] rest) = true := by
    simpa using hrest
  simp only [List.append_assoc, List.cons_append]
  rw [Parser.branches, bind_of_ok (htest _ (stops_cons hc (by decide) _)),
    bind_of_ok (expect_cons hc _), bind_of_ok (hbody _ _ _ (by decide) hends),
    bind_of_ok (sees_run _ _), if_neg (by simp [beginsWith, hw]), bind_of_ok (sees_run _ _),
    if_pos (by simp [beginsWith, ho, hw]), bind_of_ok (advance_cons o _),
    bind_of_ok (advance_cons w _), bind_of_ok (expect_cons he _),
    bind_of_ok (hother rest _ _ (by decide) hend), pure_run]

/-! ### Pieces -/

theorem Found.text {t : Token} (ht : t.kind = .text) : Found .piece [t] (Node.string t.value) :=
  eventually_succ.mp <| .of_forall fun d rest => by
    rw [List.singleton_append, Parser.piece, bind_of_ok (current_run _), front_cons, ht]
    dsimp only
    rw [bind_of_ok (advance_cons t rest), pure_run]

/-- The closing mark stops the expression of an output. -/
theorem Found.output {o c : Token} (ho : o.kind = .openExpression)
    (h : Found (.level .expression) ts n) (hc : c.kind = .closeExpression) :
    Found .piece (o :: (ts ++ [c])) n := by
  refine eventually_succ.mp (eventually_succ.mp ?_)
  filter_upwards [h.expression] with d hd rest
  rw [List.cons_append, List.append_assoc, List.singleton_append, Parser.piece,
    bind_of_ok (current_run _), front_cons, ho]
  dsimp only
  rw [Parser.output, bind_of_ok (expect_cons ho _), bind_of_ok (hd _ (stops_cons hc (by decide) _)),
    bind_of_ok (expect_cons hc rest), pure_run]

/-- A piece that opens a statement is that statement, one level in. -/
theorem piece_statement {o : Token} (ho : o.kind = .openStatement) (d : Nat) (ts : List Token) :
    (Parser.piece (d + 1)).run (o :: ts) = (Parser.statement d).run (o :: ts) := by
  rw [Parser.piece, bind_of_ok (current_run _), front_cons, ho]

/-- A tag that ends a block is taken whole. -/
theorem endTag_cons {o w c : Token} {keyword : Token.Kind} (ho : o.kind = .openStatement)
    (hw : w.kind = keyword) (hc : c.kind = .closeStatement) (rest : List Token) :
    (endTag keyword).run (o :: w :: c :: rest) = .ok () rest := by
  rw [endTag, bind_of_ok (expect_cons ho _), bind_of_ok (expect_cons hw _),
    bind_of_ok (expect_cons hc rest), pure_run]

/-- The rest of an assignment's tag is read by its own rule, up to the end of the tag. -/
theorem Found.set {o w c : Token} (ho : o.kind = .openStatement) (hw : w.kind = .kwSet)
    (h : Found .assignment ts n) (hc : c.kind = .closeStatement) :
    Found .piece (o :: w :: (ts ++ [c])) n := by
  refine eventually_succ.mp (eventually_succ.mp ?_)
  filter_upwards [h] with d hd rest
  simp only [List.cons_append, List.append_assoc, List.nil_append]
  rw [piece_statement ho, Parser.statement, bind_of_ok (expect_cons ho _),
    bind_of_ok (current_run _), front_cons, hw]
  dsimp only
  rw [bind_of_ok (advance_cons w _), bind_of_ok (hd _ (stops_cons hc (by decide) _)),
    bind_of_ok (expect_cons hc rest), pure_run]

/-- Branches are read up to the tag that ends them. -/
theorem Found.conditional {o w o' w' c : Token} (ho : o.kind = .openStatement) (hw : w.kind = .kwIf)
    (h : Found .branches ts n) (ho' : o'.kind = .openStatement) (hw' : w'.kind = .kwEndif)
    (hc : c.kind = .closeStatement) : Found .piece (o :: w :: (ts ++ [o', w', c])) n := by
  refine eventually_succ.mp (eventually_succ.mp ?_)
  filter_upwards [h] with d hd rest
  simp only [List.cons_append, List.append_assoc, List.nil_append]
  rw [piece_statement ho, Parser.statement, bind_of_ok (expect_cons ho _),
    bind_of_ok (current_run _), front_cons, hw]
  dsimp only
  rw [bind_of_ok (advance_cons w _), bind_of_ok (hd _ (by simp [beginsWith, ho', hw'])),
    bind_of_ok (endTag_cons ho' hw' hc rest), pure_run]

/-- The variable of a loop stops at `in`, what it runs over at the end of the tag, and the body at
the tag that ends it. -/
theorem Found.loop {o w i c o' w' c' : Token} {v : String} {iterable : Node} {body : List Node}
    (ho : o.kind = .openStatement) (hw : w.kind = .kwFor)
    (hv : Found (.level .chained) ts (Node.identifier v)) (hi : i.kind = .kwIn)
    (hiter : Found (.level .expression) us iterable) (hc : c.kind = .closeStatement)
    (hbody : Found .body vs body) (ho' : o'.kind = .openStatement) (hw' : w'.kind = .kwEndfor)
    (hc' : c'.kind = .closeStatement) :
    Found .piece (o :: w :: (ts ++ i :: (us ++ c :: (vs ++ [o', w', c']))))
      (Node.loop (.identifier v) iterable body) := by
  have htarget : ∀ᶠ d in atTop, ∀ rest, Stops Level.filtered.rank rest →
      (Parser.chained d).run (ts ++ rest) = .ok (.identifier v) rest := hv.complete rfl
  refine eventually_succ.mp (eventually_succ.mp (eventually_succ.mp ?_))
  filter_upwards [htarget, hiter.expression, hbody.pieces] with d htarget hiter hbody rest
  have hend : ([.kwEndfor].any fun kind =>
      beginsWith [.openStatement, kind] (o' :: w' :: c' :: rest)) = true := by
    simp [beginsWith, ho', hw']
  simp only [List.cons_append, List.append_assoc, List.nil_append]
  rw [piece_statement ho, Parser.statement, bind_of_ok (expect_cons ho _),
    bind_of_ok (current_run _), front_cons, hw]
  dsimp only
  have hloop : (Parser.loop (d + 1)).run (ts ++ i :: (us ++ c :: (vs ++ o' :: w' :: c' :: rest))) =
      .ok (.loop (.identifier v) iterable body) (o' :: w' :: c' :: rest) := by
    rw [Parser.loop, bind_of_ok (current_run _),
      bind_of_ok (htarget _ (stops_cons hi (by decide) _)), if_pos (by rfl),
      bind_of_ok (expect_cons hi _), bind_of_ok (hiter _ (stops_cons hc (by decide) _)),
      bind_of_ok (expect_cons hc _), bind_of_ok (hbody _ _ _ (by decide) hend), pure_run]
  rw [bind_of_ok (advance_cons w _), bind_of_ok hloop, bind_of_ok (endTag_cons ho' hw' hc' rest),
    pure_run]

/-! ### All rules -/

/-- **What is derived is found**, by every rule and with depth enough. -/
theorem Derives.found {r : Rule} {v : r.Tree} (h : Derives r ts v) : Found r ts v := by
  induction h with
  | tighter hm h ih => exact ih.tighter hm h.begins
  | inline _ hi _ he _ hvalue htest hother => exact hvalue.inline hi htest he hother
  | operator hm _ ho _ ha hb => exact .operator hm ha ho hb
  | not ho _ ih => exact ih.not ho
  | test _ hi hf hn ih => exact hn.test hi hf.begins ih
  | testNot _ hi ho _ hn hf => exact hn.testNot hi ho hf
  | filter _ hp _ hn hf => exact hn.filter hp hf
  | property _ ho ht hn => exact hn.property ho ht
  | subscript _ ho _ hc hn hp => exact hn.subscript ho hp hc
  | call _ _ hf hargs => exact hf.call hargs
  | number ht hv => exact .number ht hv
  | string ht => exact .string ht
  | boolean ht => exact .boolean ht
  | identifier ht => exact .identifier ht
  | parenthesis ho _ hc ih => exact ih.parenthesis ho hc
  | array _ ih => exact ih.array
  | object _ ih => exact ih.object
  | name ht => exact .name ht
  | applied _ _ hf hargs => exact hf.applied hargs
  | index h ih => exact ih.index h.begins
  | slice _ hlength ih => exact ih.slice hlength
  | absent => exact .absent
  | present h ih => exact ih.present h.begins
  | sliceEnd _ hc ih => exact ih.sliceEnd hc
  | sliceLast _ hc h hpart hn => exact hpart.sliceLast hc h.begins hn
  | sliceMore _ hc _ hpart hparts => exact hpart.sliceMore hc hparts
  | element h ih => exact ih.element
  | positional _ ih => exact ih.positional
  | keyword _ he _ hk hv => exact hk.keyword he hv
  | entry _ hc _ hk hv => exact hk.entry hc hv
  | itemsNil => exact .itemsNil
  | itemsLast h ih => exact ih.itemsLast h.begins
  | itemsMore h hc _ hx hxs => exact hx.itemsMore h.begins hc hxs
  | enclosed ho _ hc ih => exact ih.enclosed ho hc
  | plain _ ih => exact ih.plain
  | assign _ he _ ht hv => exact ht.assign he hv
  | noElse _ hc _ htest hbody => exact htest.noElse hc hbody
  | elseIf _ hc _ ho hw _ htest hbody hother => exact htest.elseIf hc hbody ho hw hother
  | elseBody _ hc _ ho hw he _ htest hbody hother =>
    exact htest.elseBody hc hbody ho hw he hother
  | text ht => exact .text ht
  | output ho _ hc ih => exact ih.output ho hc
  | set ho hw _ hc ih => exact ih.set ho hw hc
  | conditional ho hw _ ho' hw' hc ih => exact ih.conditional ho hw ho' hw' hc
  | loop ho hw _ hi _ hc _ ho' hw' hc' hv hiter hbody =>
    exact .loop ho hw hv hi hiter hc hbody ho' hw' hc'
  | bodyNil => exact .bodyNil
  | bodyMore h _ hn hns => exact hn.bodyMore h.begins hns

end Stencil.Grammar
