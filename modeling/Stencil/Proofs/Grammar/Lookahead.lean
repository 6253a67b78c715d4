import Stencil.Proofs.Grammar.Steps

/-!
# Grammar — the token at hand

By what token a rule begins, and with what token it goes on.

* `Derives.begins`: what a rule derives begins with a token that the rule is chosen by.
* `rankOf`: the rank of the level that takes a token up behind an operand.  A tighter level takes no
  step at such a token (`Level.step_of_lt`), so `Stops` is what a rule asks of the tokens behind it.
-/

namespace Stencil.Grammar
open Stencil.Parser

/-! ### Where a rule begins -/

/-- The tokens that begin a primary. -/
def beginsPrimary : Token.Kind → Bool
  | .number | .string | .boolean | .identifier | .leftParen | .leftBracket | .leftBrace => true
  | _ => false

/-- What a primary does behind the token that begins it. -/
def primaryBehind (d : Nat) (t : Token) : Parser Node :=
  match t.kind with
  | .number =>
    match Numeral.read t.value with
    | .ok value => return .number value
    | .error e => throw (.numeral e)
  | .string => return .string t.value
  | .boolean => return .boolean (truthValue t.value)
  | .identifier => return .identifier t.value
  | .leftParen => do
    let node ← Parser.expression d
    let _ ← expect .rightParen
    return node
  | .leftBracket => return .array (← delimited .rightBracket (Parser.expression d))
  | .leftBrace => return .object (← delimited .rightBrace (Parser.entry d))
  | _ => fail (.unexpectedToken "expression") t

/-- A token that can begin a primary is taken, and its kind decides what is read behind it. -/
theorem primary_cons {t : Token} (ht : beginsPrimary t.kind = true) (d : Nat) (ts : List Token) :
    (Parser.primary (d + 1)).run (t :: ts) = (primaryBehind d t).run ts := by
  rw [Parser.primary, bind_of_ok (current_run _), bind_of_ok (atEnd_run _), front_cons,
    primaryBehind]
  dsimp only
  rw [List.isEmpty_cons, if_neg Bool.false_ne_true]
  cases hk : t.kind <;> rw [hk] at ht <;> first | exact bind_of_ok (advance_cons t ts) | cases ht

/-- No primary begins with any other token. -/
theorem primary_of_not_begins {ts : List Token} (h : beginsPrimary (front ts).kind = false)
    (d : Nat) : (Parser.primary (d + 1)).run ts =
      .error (.malformed ⟨.unexpectedToken "expression", some (front ts)⟩) ts := by
  rw [Parser.primary, bind_of_ok (current_run _), bind_of_ok (atEnd_run _)]
  dsimp only
  split
  · rw [bind_of_error (fail_run _ _ _)]
  · cases hk : (front ts).kind <;> rw [hk] at h <;> first | exact fail_run _ _ _ | cases h

/-- The tokens that begin an expression of a level. -/
def Level.begins (l : Level) (kind : Token.Kind) : Bool :=
  beginsPrimary kind || (kind = .kwNot && decide (negation.rank ≤ l.rank))

/-- What begins a tighter level begins a looser one. -/
theorem Level.begins_mono {l m : Level} (h : m.rank ≤ l.rank) {kind : Token.Kind}
    (hk : m.begins kind = true) : l.begins kind = true := by
  simp only [begins, Bool.or_eq_true, Bool.and_eq_true, decide_eq_true_eq] at hk ⊢
  exact hk.imp_right fun hnot => ⟨hnot.1, Nat.le_trans hnot.2 h⟩

/-- What begins any level begins an expression. -/
theorem Level.begins_expression {l : Level} {kind : Token.Kind} (hk : l.begins kind = true) :
    expression.begins kind = true :=
  begins_mono (by cases l <;> decide) hk

/-- A level that is tighter than a negation does not begin with `not`. -/
theorem Level.begins_kwNot {l : Level} (h : l.rank < negation.rank) : l.begins .kwNot = false := by
  cases l <;> first | rfl | exact absurd h (by decide)

/-- The words of the tags that go on with a block or end it. -/
def blockEnds : List Token.Kind := [.kwElif, .kwElse, .kwEndif, .kwEndfor]

/-- What the tokens that a rule derives begin with. -/
def Rule.Begins : Rule → List Token → Prop
  | .level l, ts => l.begins (front ts).kind = true
  | .item _, ts | .assignment, ts | .branches, ts => Level.expression.begins (front ts).kind = true
  | .applied names, ts => ts ≠ [] ∧ (front ts).kind ∈ names
  | .enclosed i, ts => (front ts).kind = i.opening
  | .piece, ts => ts ≠ [] ∧
      ∀ kind ∈ blockEnds, ∀ rest, beginsWith [.openStatement, kind] (ts ++ rest) = false
  | _, _ => True

theorem ne_nil_of_begins {l : Level} {ts : List Token} (h : l.begins (front ts).kind = true) :
    ts ≠ [] := by
  rintro rfl
  cases l <;> cases h

/-- What a row begins with does not change with what follows it. -/
theorem begins_append {l : Level} {ts : List Token} (h : l.begins (front ts).kind = true)
    (us : List Token) : l.begins (front (ts ++ us)).kind = true := by
  rwa [front_append (ne_nil_of_begins h)]

/-- A token that opens no statement is not the first of a tag that ends a block. -/
theorem not_beginsWith_cons {o : Token} {kind : Token.Kind} {ts : List Token}
    (h : o.kind ≠ .openStatement) : beginsWith [.openStatement, kind] (o :: ts) = false := by
  simp [beginsWith, h]

theorem not_beginsWith_cons_cons {o w : Token} {kind : Token.Kind} {ts : List Token}
    (h : w.kind ≠ kind) : beginsWith [.openStatement, kind] (o :: w :: ts) = false := by
  simp [beginsWith, h]

/-- **What a rule derives begins with a token that the rule is chosen by.** -/
theorem Derives.begins {r : Rule} {ts : List Token} {v : r.Tree} (h : Derives r ts v) :
    r.Begins ts := by
  have primary {l : Level} {t : Token} {ts : List Token} (h : beginsPrimary t.kind = true) :
      l.begins (front (t :: ts)).kind = true := by
    rw [front_cons, Level.begins, h, Bool.true_or]
  have bracket {i : Item} {ts : List Token} {l : Level} (h : (front ts).kind = i.opening) :
      l.begins (front ts).kind = true := by
    rw [h]
    cases i <;> rfl
  have block {o w : Token} {ts : List Token} (h : w.kind ∉ blockEnds) :
      Rule.piece.Begins (o :: w :: ts) :=
    ⟨List.cons_ne_nil _ _, fun kind hk rest => not_beginsWith_cons_cons fun he => h (he ▸ hk)⟩
  -- most rules begin with a part of theirs; the others are the ones the facts above are for
  induction h with
  | tighter hm _ ih => exact Level.begins_mono (Nat.le_of_lt (Level.rank_lt_of_tighter? hm)) ih
  | inline _ _ _ _ _ ih => exact begins_append (Level.begins_expression ih) _
  | operator _ _ _ _ ih => exact begins_append ih _
  | not ho =>
    show Level.begins _ _ = true
    rw [front_cons, ho]
    rfl
  | test _ _ _ ih | testNot _ _ _ _ ih | filter _ _ _ ih | property _ _ _ ih
  | subscript _ _ _ _ ih => exact begins_append ih _
  | call _ _ ih => exact begins_append ih _
  | number ht | string ht | boolean ht | identifier ht => exact primary (by rw [ht]; rfl)
  | parenthesis ho => exact primary (by rw [ho]; rfl)
  | array _ ih | object _ ih => exact bracket ih
  | name ht => exact ⟨List.cons_ne_nil _ _, ht⟩
  | applied _ _ ih =>
    refine ⟨fun he => ih.1 (List.append_eq_nil_iff.mp he).1, ?_⟩
    rw [front_append ih.1]
    exact ih.2
  | element _ ih | positional _ ih | plain _ ih => exact ih
  | keyword _ _ _ ih | entry _ _ _ ih | assign _ _ _ ih => exact begins_append ih _
  | noElse _ _ _ ih => exact begins_append ih _
  | elseIf _ _ _ _ _ _ ih => exact begins_append ih _
  | elseBody _ _ _ _ _ _ _ ih => exact begins_append ih _
  | enclosed ho => exact ho
  | text ht | output ht =>
    refine ⟨List.cons_ne_nil _ _, fun kind _ rest => not_beginsWith_cons ?_⟩
    rw [ht]
    decide
  | set _ hw | conditional _ hw | loop _ hw => exact block (by rw [hw]; decide)
  | _ => trivial

/-! ### Where a rule goes on -/

/-- The rank of the level that takes a token up behind an operand.  A token that goes on from no
expression is behind all levels. -/
def rankOf : Token.Kind → Nat
  | .dot | .leftBracket | .leftParen => Level.chained.rank
  | .pipe => Level.filtered.rank
  | .kwIs => Level.tested.rank
  | .multiplicative => Level.product.rank
  | .additive => Level.sum.rank
  | .comparison | .kwIn | .kwNotIn => Level.comparison.rank
  | .kwAnd => Level.conjunction.rank
  | .kwOr => Level.disjunction.rank
  | .kwIf => Level.disjunction.rank + 1
  | .equals => Level.expression.rank
  | _ => Level.expression.rank + 1

/-- No level of a rank below goes on with the token at hand. -/
def Stops (rank : Nat) (ts : List Token) : Prop := rank ≤ rankOf (front ts).kind

instance (rank : Nat) (ts : List Token) : Decidable (Stops rank ts) := Nat.decLe _ _

/-- What ends a looser level ends a tighter one. -/
theorem Stops.of_le {rank rank' : Nat} {ts : List Token} (h : Stops rank' ts) (hr : rank ≤ rank') :
    Stops rank ts := Nat.le_trans hr h

/-- A token of a known kind stops the ranks up to its own. -/
theorem stops_cons {t : Token} {kind : Token.Kind} (ht : t.kind = kind) {rank : Nat}
    (h : rank ≤ rankOf kind) (ts : List Token) : Stops rank (t :: ts) := by
  rwa [Stops, front_cons, ht]

/-- An operator has the rank of its level. -/
theorem rankOf_of_joins {l : Level} {kind : Token.Kind} (h : l.joins kind = true) :
    rankOf kind = l.rank := by
  cases l <;> cases kind <;> first | rfl | cases h

/-- An operator of a level ends the operands of that level. -/
theorem stops_of_joins {l : Level} {o : Token} (h : l.joins o.kind = true) (ts : List Token) :
    Stops l.rank (o :: ts) := Nat.le_of_eq (rankOf_of_joins h).symm

/-- A level takes no step at a token that a looser level takes up. -/
theorem Level.step_of_lt {l : Level} {kind : Token.Kind} (h : l.rank < rankOf kind) (d : Nat)
    (n : Node) : l.step d n kind = none := by
  cases l <;> cases kind <;> first | rfl | exact absurd h (by decide)

end Stencil.Grammar
