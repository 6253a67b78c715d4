import Stencil.Proofs.Grammar.Locality
import Stencil.Proofs.Parser.Reach

/-!
# Grammar — depth and what follows

The depth that a rule needs for what it derives is a matter of those tokens alone.  At a given depth
it finds the derivation in front of whatever may follow, or it finds the nesting too deep in front
of all of it (`Derives.steady`).  This is `Derives.found` at each depth, for expressions and what
stands inside them; the cases are those of the derivation again.

From a level down to a primary as many rules are entered as its height tells, before any token is
taken (`Level.tooDeep_of_le`, `Level.refuses`).
-/

namespace Stencil.Grammar
open Stencil.Parser Filter

/-! ### Down to a primary -/

/-- How many levels are entered from a level down to the primary. -/
def Level.height : Level → Nat
  | expression => 10
  | l => l.rank

/-- Each level is one further from the primary than the next tighter one. -/
theorem Level.height_of_tighter? {l m : Level} (h : l.tighter? = some m) :
    l.height = m.height + 1 := by
  cases l <;> cases h <;> rfl

/-- Only the primary has no tighter level. -/
theorem Level.exists_of_height {l : Level} (h : l.height ≠ 0) : ∃ m, l.tighter? = some m := by
  cases l <;> first | exact ⟨_, rfl⟩ | exact absurd rfl h

theorem tooDeep_run (ts : List Token) : TooDeep (Parser.tooDeep.run ts) :=
  ⟨_, ts, failHere_run _ ts⟩

theorem Level.parser_zero (l : Level) : (l.parser 0 : Parser Node) = Parser.tooDeep := by
  cases l <;> rfl

/-- A level fails with the next tighter one, unless `not` begins a negation. -/
theorem Level.error_of_tighter {l m : Level} {d : Nat} {ts left : List Token} {e : Failure}
    (hm : l.tighter? = some m) (hnot : l = .negation → (front ts).kind ≠ .kwNot)
    (h : (m.parser d).run ts = .error e left) : (l.parser (d + 1)).run ts = .error e left := by
  by_cases hl : l.repeats = true
  · rw [Level.parser_succ hl hm, extend_run, bind_of_error h]
  cases l with
  | expression =>
    cases hm
    show (Parser.expression (d + 1)).run _ = _
    rw [Parser.expression]
    exact bind_of_error h
  | negation =>
    cases hm
    show (Parser.negation (d + 1)).run _ = _
    rw [Parser.negation, bind_of_ok (current_run ts), if_neg (hnot rfl)]
    exact h
  | primary => cases hm
  | _ => exact absurd rfl hl

/-- With so little depth a level comes to no primary. -/
theorem Level.tooDeep_of_le {l : Level} {d : Nat} (h : d ≤ l.height) (ts : List Token) :
    TooDeep ((l.parser d).run ts) := by
  induction d generalizing l ts with
  | zero =>
    rw [l.parser_zero]
    exact tooDeep_run ts
  | succ d ih =>
    obtain ⟨m, hm⟩ := Level.exists_of_height (Nat.ne_zero_of_lt h)
    have hheight := Level.height_of_tighter? hm
    by_cases hnot : l = .negation ∧ (front ts).kind = .kwNot
    · obtain ⟨rfl, hnot⟩ := hnot
      obtain ⟨o, ts, rfl, -⟩ := eq_cons_of_front (by rw [hnot]; decide)
      show TooDeep ((Parser.negation (d + 1)).run _)
      rw [Parser.negation, bind_of_ok (current_run _), if_pos hnot, bind_of_ok (advance_cons o ts)]
      exact tooDeep_bind (ih (Nat.le_of_succ_le h) ts)
    · obtain ⟨t, left, hdeep⟩ := ih (l := m) (by omega) ts
      exact ⟨t, left, error_of_tighter hm (fun hl hk => hnot ⟨hl, hk⟩) hdeep⟩

/-- The failure at a token that begins no expression. -/
abbrev noExpression (t : Token) : Failure := .malformed ⟨.unexpectedToken "expression", some t⟩

/-- With depth enough a level refuses a token that begins no operand. -/
theorem Level.refuses {l : Level} {d : Nat} {ts : List Token} (h : l.height < d)
    (hbegins : beginsPrimary (front ts).kind = false) (hnot : (front ts).kind ≠ .kwNot) :
    (l.parser d).run ts = .error (noExpression (front ts)) ts := by
  induction d generalizing l with
  | zero => exact absurd h (Nat.not_lt_zero _)
  | succ d ih =>
    by_cases hl : l.height = 0
    · obtain rfl : l = .primary := by cases l <;> first | rfl | cases hl
      exact primary_of_not_begins hbegins d
    · obtain ⟨m, hm⟩ := Level.exists_of_height hl
      have hheight := Level.height_of_tighter? hm
      exact error_of_tighter hm (fun _ => hnot) (ih (by omega))

/-! ### Levels and names -/

/-- At every depth the rule finds what it derives in front of whatever may follow, or finds the
nesting too deep in front of all of it. -/
abbrev Steady : (r : Rule) → List Token → r.Tree → Prop
  | .level l, ts, n => ∀ d, Reaches (Stops l.rank) (· = again (l.step d) n) (l.parser (d + 1)) ts
  | .applied names, ts, f => ∀ d cause, Reaches (fun _ => True) (· = again (callStep d) f)
      (nameOf names cause >>= Parser.applied (d + 2)) ts
  | .item i, ts, x => ∀ d, Reaches (Stops (Level.expression.rank + 1)) (· = pure x) (i.parser d) ts
  | .items i, ts, xs => ∀ d, Reaches (fun rest => (front rest).kind = i.closing)
      (· = (expect i.closing >>= fun _ => pure xs)) (delimited i.closing (i.parser d)) ts
  | .enclosed i, ts, xs => ∃ o us, ts = o :: us ∧ o.kind = i.opening ∧
      ∀ d, Reaches (fun _ => True) (· = pure xs) (delimited i.closing (i.parser d)) us
  | _, _, _ => True

variable {l m : Level} {i : Item} {ts us vs : List Token} {n : Node}

/-- Fewer tokens stop a greater rank. -/
theorem reaches_of_le {α : Type} {rank rank' : Nat} {p : Parser α} {Q : Parser α → Prop}
    (h : Reaches (Stops rank) Q p ts) (hr : rank ≤ rank') : Reaches (Stops rank') Q p ts :=
  h.mono fun _ hrest => hrest.of_le hr

/-- A level ends where it takes no step at what follows. -/
theorem Steady.stopped {rank : Nat} (h : Steady (.level l) ts n) (hrank : l.rank ≤ rank)
    (hstep : ∀ rest, Stops rank rest → ∀ e, l.step e n (front rest).kind = none) (d : Nat) :
    Reaches (Stops rank) (· = pure n) (l.parser d) ts := by
  cases d with
  | zero => exact .of_tooDeep (Level.tooDeep_of_le (Nat.zero_le _))
  | succ d =>
    exact (reaches_of_le (h d) hrank).turn fun rest hrest => again_of_none (hstep rest hrest d)

/-- What a level derives is an operand of the level that is next looser. -/
theorem Steady.complete (h : Steady (.level m) ts n) (hm : l.tighter? = some m) :
    ∀ d, Reaches (Stops l.rank) (· = pure n) (m.parser d) ts :=
  have hlt := Level.rank_lt_of_tighter? hm
  h.stopped hlt.le fun _ hrest e => Level.step_of_lt (hlt.trans_le hrest) e n

/-- An expression ends where neither a looser operator nor an `if` follows. -/
theorem Steady.expression (h : Steady (.level .expression) ts n) :
    ∀ d, Reaches (Stops Level.expression.rank) (· = pure n) (Parser.expression d) ts :=
  h.stopped (Nat.le_refl _) fun _ _ _ => rfl

/-- What the next tighter level finds, a level finds, unless `not` begins it. -/
theorem Steady.tighter (hm : l.tighter? = some m) (hbegins : m.begins (front ts).kind = true)
    (h : Steady (.level m) ts n) : Steady (.level l) ts n := by
  intro d
  -- a level that repeats takes no step here; the two others do not find their own word
  by_cases hl : l.repeats = true
  · rw [Level.parser_succ hl hm]
    exact (h.complete hm d).ended.congr fun rest _ => extend_run _ _ _
  cases l with
  | expression =>
    cases hm
    show Reaches _ _ (Parser.expression (d + 1)) ts
    rw [Parser.expression]
    refine (h.complete rfl d).ended.turn fun rest hrest => ?_
    have hif : (front rest).kind ≠ .kwIf := fun he => by
      have hrank : Level.expression.rank ≤ rankOf (front rest).kind := hrest
      rw [he] at hrank
      exact absurd hrank (by decide)
    rw [bind_of_ok (current_run rest), if_neg hif, again_of_none rfl, pure_run]
  | negation =>
    cases hm
    show Reaches _ _ (Parser.negation (d + 1)) ts
    have hend : Reaches (Stops Level.negation.rank) (· = again (Level.negation.step d) n)
        (Parser.comparison d) ts :=
      (h.complete rfl d).turn fun rest _ => (again_of_none rfl).symm
    refine hend.congr fun rest _ => ?_
    have hnot : (front (ts ++ rest)).kind ≠ .kwNot := fun he => by
      have hkind := begins_append hbegins rest
      rw [he, Level.begins_kwNot (by decide)] at hkind
      cases hkind
    rw [Parser.negation, bind_of_ok (current_run _), if_neg hnot]
  | primary => cases hm
  | _ => exact absurd rfl hl

/-- An operand of an inline conditional. -/
theorem Steady.disjunction (h : Steady (.level .disjunction) ts n) :
    ∀ d, Reaches (Stops (Level.disjunction.rank + 1)) (· = pure n) (Parser.disjunction d) ts :=
  h.stopped (Nat.le_succ _) fun _ hrest e => Level.step_of_lt hrest e n

/-- A value, its condition and its alternative, with the keywords between them; at each of the three
the depth may be used up. -/
theorem Steady.inline {i e : Token} {value test other : Node}
    (hvalue : Steady (.level .disjunction) ts value) (hi : i.kind = .kwIf)
    (htest : Steady (.level .disjunction) us test) (he : e.kind = .kwElse)
    (hother : Steady (.level .disjunction) vs other) :
    Steady (.level .expression) (ts ++ i :: (us ++ e :: vs))
      (Node.conditional test [value] [other]) := by
  intro d
  show Reaches _ _ (Parser.expression (d + 1)) _
  rw [Parser.expression]
  refine .after (hvalue.disjunction d) (.current ?_) fun _ _ => stops_cons hi (by decide) _
  rw [if_pos hi]
  refine .take (.after (htest.disjunction d) (.expect he ?_) fun _ _ =>
    stops_cons he (by decide) _)
  exact (reaches_of_le (hother.disjunction d) (by decide)).ended.turn fun rest _ =>
    (again_of_none rfl).symm

/-- A step behind an operand takes an operator and an operand of the next tighter level. -/
theorem again_operator {o : Token} (hm : l.tighter? = some m) (ho : l.joins o.kind = true) (d : Nat)
    (a : Node) (rest : List Token) : (again (l.step d) a).run (o :: rest) =
      (m.parser d >>= fun b => again (l.step d) (.binary o.value a b)).run rest := by
  rw [again_of_some (l.advances_step d) (Level.step_of_joins hm ho d a), bind_assoc_run,
    bind_of_ok (advance_cons o _), bind_assoc_run]
  rfl

/-- An operator stops its left operand, and its right one stops where the level does. -/
theorem Steady.operator {o : Token} {a b : Node} (hm : l.tighter? = some m)
    (ha : Steady (.level l) ts a) (ho : l.joins o.kind = true) (hb : Steady (.level m) us b) :
    Steady (.level l) (ts ++ o :: us) (Node.binary o.value a b) := by
  intro d
  refine (ha d).trans ?_ fun _ _ => stops_of_joins ho _
  refine Reaches.congr ?_ fun rest _ => again_operator hm ho d a (us ++ rest)
  exact (hb.complete hm d).ended

/-- `not` is read, and a negation behind it. -/
theorem Steady.not {o : Token} (ho : o.kind = .kwNot) (h : Steady (.level .negation) ts n) :
    Steady (.level .negation) (o :: ts) (Node.unary o.value n) := by
  intro d
  show Reaches _ _ (Parser.negation (d + 1)) _
  rw [Parser.negation]
  refine .current ?_
  rw [if_pos ho]
  have hoperand : Reaches _ _ (Parser.negation d) ts :=
    h.stopped (Nat.le_refl _) (fun _ _ _ => rfl) d
  exact .take (hoperand.ended.turn fun rest _ => (again_of_none rfl).symm)

/-! ### Steps behind a node -/

theorem Steady.name {names : List Token.Kind} {t : Token} (ht : t.kind ∈ names) :
    Steady (.applied names) [t] (Node.identifier t.value) := fun d cause =>
  .of_run rfl fun rest _ => by
    rw [List.singleton_append, bind_of_ok (nameOf_cons ht cause rest), applied_run]

/-- Arguments are found, or found too deep, where a list of them begins. -/
theorem Steady.arguments {args : List Node} (h : Steady (.enclosed .argument) ts args) :
    (∀ rest, (front (ts ++ rest)).kind = .leftParen) ∧
      ∀ d, Reaches (fun _ => True) (· = pure args) (Parser.arguments d) ts := by
  obtain ⟨o, us, rfl, ho, h⟩ := h
  refine ⟨fun _ => ho, fun d => ?_⟩
  cases d with
  | zero => exact .of_tooDeep fun ts => tooDeep_bind (tooDeep_run ts)
  | succ d =>
    rw [Parser.arguments]
    exact .expect ho (h d)

/-- Arguments are read behind a name, for as long as parentheses follow. -/
theorem Steady.applied {names : List Token.Kind} {f : Node} {args : List Node}
    (hf : Steady (.applied names) ts f) (hargs : Steady (.enclosed .argument) us args) :
    Steady (.applied names) (ts ++ us) (Node.call f args) := by
  obtain ⟨hparen, hargs⟩ := hargs.arguments
  intro d cause
  refine (hf d cause).trans ?_ fun _ _ => trivial
  exact (hargs d).ended.congr fun rest _ => again_call (hparen rest)

/-- The name of a test or filter is complete where no parenthesis follows it. -/
theorem Steady.named {names : List Token.Kind} {f : Node} (h : Steady (.applied names) ts f)
    (d : Nat) (cause : String → Cause) : Reaches (Stops Level.filtered.rank) (· = pure f)
      (nameOf names cause >>= Parser.applied (d + 2)) ts := by
  refine ((h d cause).mono fun _ _ => trivial).turn fun rest hrest => ?_
  have hparen : (front rest).kind ≠ .leftParen := fun he => by
    have hrank : Level.filtered.rank ≤ rankOf (front rest).kind := hrest
    rw [he] at hrank
    exact absurd hrank (by decide)
  exact again_of_none (if_neg hparen)

/-- `is` stops what is tested, and the name of the test is no `not`. -/
theorem Steady.test {i : Token} {f : Node} (hn : Steady (.level .tested) ts n)
    (hi : i.kind = .kwIs) (hbegins : (Rule.applied [.identifier, .boolean]).Begins us)
    (hf : Steady (.applied [.identifier, .boolean]) us f) :
    Steady (.level .tested) (ts ++ i :: us) (Node.test n false f) := by
  have hnot (rest : List Token) : (front (us ++ rest)).kind ≠ .kwNot := fun he => by
    have hkind := hbegins.2
    rw [← front_append hbegins.1 rest, he] at hkind
    exact absurd hkind (by decide)
  rintro (_ | _ | d)
  · exact .of_tooDeep (Level.tooDeep_of_le (by decide))
  · exact .of_tooDeep (Level.tooDeep_of_le (by decide))
  refine (hn _).trans ?_ fun _ _ => stops_cons hi (by decide) _
  have hname : Reaches (Stops Level.tested.rank) _ _ us :=
    reaches_of_le (hf.named d .testName) (by decide)
  exact (hname.ended (f := fun f => again (testStep (d + 2)) (.test n false f))).congr
    fun rest _ => again_test hi (hnot rest)

/-- `not` behind `is` belongs to the test. -/
theorem Steady.testNot {i o : Token} {f : Node} (hn : Steady (.level .tested) ts n)
    (hi : i.kind = .kwIs) (ho : o.kind = .kwNot)
    (hf : Steady (.applied [.identifier, .boolean]) us f) :
    Steady (.level .tested) (ts ++ i :: o :: us) (Node.test n true f) := by
  rintro (_ | _ | d)
  · exact .of_tooDeep (Level.tooDeep_of_le (by decide))
  · exact .of_tooDeep (Level.tooDeep_of_le (by decide))
  refine (hn _).trans ?_ fun _ _ => stops_cons hi (by decide) _
  have hname : Reaches (Stops Level.tested.rank) _ _ us :=
    reaches_of_le (hf.named d .testName) (by decide)
  exact (hname.ended (f := fun f => again (testStep (d + 2)) (.test n true f))).congr
    fun rest _ => again_testNot hi ho

/-- A bar stops what is filtered. -/
theorem Steady.filter {p : Token} {f : Node} (hn : Steady (.level .filtered) ts n)
    (hp : p.kind = .pipe) (hf : Steady (.applied [.identifier]) us f) :
    Steady (.level .filtered) (ts ++ p :: us) (Node.filter n f) := by
  rintro (_ | _ | d)
  · exact .of_tooDeep (Level.tooDeep_of_le (by decide))
  · exact .of_tooDeep (Level.tooDeep_of_le (by decide))
  refine (hn _).trans ?_ fun _ _ => stops_cons hp (by decide) _
  have hname := hf.named d .filterName
  exact (hname.ended (f := fun f => again (filterStep (d + 2)) (.filter n f))).congr
    fun rest _ => again_filter hp

/-- A dot and a name behind an object. -/
theorem Steady.property {o t : Token} (hn : Steady (.level .chained) ts n) (ho : o.kind = .dot)
    (ht : t.kind = .identifier) :
    Steady (.level .chained) (ts ++ [o, t]) (Node.member n (.identifier t.value) false) := by
  rintro (_ | d)
  · exact .of_tooDeep (Level.tooDeep_of_le (by decide))
  refine (hn _).trans ?_ fun _ _ => stops_cons ho (by decide) _
  exact .of_run rfl fun rest _ => again_property ho ht

/-- Arguments behind a callee, whether a call goes on or begins there. -/
theorem Steady.call {f : Node} {args : List Node} (hf : Steady (.level .chained) ts f)
    (hargs : Steady (.enclosed .argument) us args) :
    Steady (.level .chained) (ts ++ us) (Node.call f args) := by
  obtain ⟨hparen, hargs⟩ := hargs.arguments
  rintro (_ | d)
  · exact .of_tooDeep (Level.tooDeep_of_le (by decide))
  refine (hf _).trans ?_ fun rest _ => ?_
  · have hargs := (hargs d).mono (D := Stops Level.chained.rank) fun _ _ => trivial
    exact hargs.ended.congr fun rest _ => again_chain_call (hparen rest)
  · rw [Stops, hparen rest]
    decide

/-! ### Rules that look no further -/

/-- What is found in the end in front of known tokens is found in front of them at every depth that
is enough, whatever stands behind them. -/
theorem reaches_known {α : Type} {p : Nat → Parser α} {k : Fin 3}
    (hshallow : ∀ {d e}, d ≤ e → Shallower (p d) (p e)) (hlocal : ∀ d, Local 0 k (p d))
    {known : List Token} (hk : k ≤ known.length) {a : α}
    (h : ∀ᶠ d in atTop, ∀ rest, (p d).run (ts ++ (known ++ rest)) = .ok a (known ++ rest))
    (d : Nat) : Reaches (known <+: ·) (· = pure a) (p d) ts := by
  have hresult (rest : List Token) : TooDeep ((p d).run (ts ++ (known ++ rest))) ∨
      (p d).run (ts ++ (known ++ rest)) = .ok a (known ++ rest) := by
    obtain ⟨e, he, hde⟩ := (h.and (eventually_ge_atTop d)).exists
    exact (hshallow hde _).imp_right fun heq => heq.trans (he rest)
  by_cases hdeep : ∀ rest, TooDeep ((p d).run (ts ++ (known ++ rest)))
  · exact .inl fun _ ⟨rest, hrest⟩ => hrest ▸ hdeep rest
  · obtain ⟨rest, hrest⟩ := not_forall.mp hdeep
    have hok := (hresult rest).resolve_left hrest
    refine .of_run rfl fun _ ⟨rest', hrest'⟩ => ?_
    subst hrest'
    have halike : Alike k (known ++ rest) (known ++ rest') := by
      unfold Alike
      rw [List.take_append_of_le_length hk, List.take_append_of_le_length hk]
    exact (hlocal d).ok hok halike (sure_zero _ _)

/-- An index is found, or found too deep, in front of its closing bracket. -/
theorem Derives.reaches_index {c : Token} {p : Node} (h : Derives .index us p)
    (hc : c.kind = .rightBracket) :
    ∀ d, Reaches ([c] <+: ·) (· = pure p) (Parser.index d) us := by
  refine reaches_known (fun hde => (rules_shallower hde).index) (fun d => (rules_nearby d).index)
    (show ((1 : Fin 3) : Nat) ≤ [c].length from Nat.le_refl 1) ?_
  filter_upwards [h.found] with d hd rest
  exact hd _ hc

/-- An index between brackets behind an object. -/
theorem Steady.subscript {o c : Token} {p : Node} (hn : Steady (.level .chained) ts n)
    (ho : o.kind = .leftBracket) (hp : Derives .index us p) (hc : c.kind = .rightBracket) :
    Steady (.level .chained) (ts ++ o :: (us ++ [c])) (Node.member n p true) := by
  rintro (_ | d)
  · exact .of_tooDeep (Level.tooDeep_of_le (by decide))
  refine (hn _).trans ?_ fun _ _ => stops_cons ho (by decide) _
  have hindex : Reaches (fun _ => True) (· = again (chainStep (d + 1)) (Node.member n p true))
      (Parser.index d >>= fun p => expect .rightBracket >>= fun _ =>
        again (chainStep (d + 1)) (.member n p true)) (us ++ [c]) :=
    .after (hp.reaches_index hc d) (.expect hc (.here rfl)) fun rest _ =>
      List.prefix_append [c] rest
  exact (hindex.mono fun _ _ => trivial).congr fun rest _ => again_subscript ho

/-! ### Primaries -/

/-- What a primary finds, it finds whatever follows. -/
theorem Steady.of_primary
    (h : ∀ d, Reaches (fun _ => True) (· = pure n) (Parser.primary (d + 1)) ts) :
    Steady (.level .primary) ts n := fun d =>
  ((h d).mono fun _ _ => trivial).turn fun _ _ => (again_of_none rfl).symm

/-- A primary that is one token. -/
theorem Steady.leaf {t : Token} (ht : beginsPrimary t.kind = true)
    (h : ∀ d rest, (primaryBehind d t).run rest = .ok n rest) : Steady (.level .primary) [t] n :=
  .of_primary fun d => .of_run rfl fun rest _ => (primary_cons ht d rest).trans (h d rest)

/-- Parentheses are read and leave no trace. -/
theorem Steady.parenthesis {o c : Token} (ho : o.kind = .leftParen)
    (h : Steady (.level .expression) ts n) (hc : c.kind = .rightParen) :
    Steady (.level .primary) (o :: (ts ++ [c])) n := by
  refine .of_primary fun d => ?_
  have hbehind : Reaches (fun _ => True) (· = pure n) (primaryBehind d o) (ts ++ [c]) := by
    rw [primaryBehind, ho]
    exact .after (h.expression d) (.expect hc (.here rfl)) fun _ _ => stops_cons hc (by decide) _
  exact hbehind.congr fun rest _ => primary_cons (by rw [ho]; rfl) d _

/-- A bracket that begins a primary begins an array. -/
theorem primary_array (d : Nat) (o : Token) (rest : List Token) (ho : o.kind = .leftBracket) :
    (Parser.primary (d + 1)).run (o :: rest) = (delimited .rightBracket (Parser.expression d) >>=
      fun ns => pure (Node.array ns)).run rest := by
  rw [primary_cons (by rw [ho]; rfl), primaryBehind, ho]

/-- A brace that begins a primary begins an object. -/
theorem primary_object (d : Nat) (o : Token) (rest : List Token) (ho : o.kind = .leftBrace) :
    (Parser.primary (d + 1)).run (o :: rest) = (delimited .rightBrace (Parser.entry d) >>=
      fun ps => pure (Node.object ps)).run rest := by
  rw [primary_cons (by rw [ho]; rfl), primaryBehind, ho]

theorem Steady.array {ns : List Node} (h : Steady (.enclosed .element) ts ns) :
    Steady (.level .primary) ts (Node.array ns) := by
  obtain ⟨o, us, rfl, ho, h⟩ := h
  refine .of_primary fun d => ?_
  have hlist := (h d).ended (f := fun ns => pure (Node.array ns))
  exact hlist.congr fun rest _ => primary_array d o (us ++ rest) ho

theorem Steady.object {ps : List (Node × Node)} (h : Steady (.enclosed .entry) ts ps) :
    Steady (.level .primary) ts (Node.object ps) := by
  obtain ⟨o, us, rfl, ho, h⟩ := h
  refine .of_primary fun d => ?_
  have hlist := (h d).ended (f := fun ps => pure (Node.object ps))
  exact hlist.congr fun rest _ => primary_object d o (us ++ rest) ho

/-! ### Between brackets -/

/-- Items of every kind leave the end of what they found. -/
theorem trims_item (i : Item) (d : Nat) : Trims (i.parser d) := by
  cases i
  · exact (rules_trim d).expression
  · exact (rules_trim d).argument
  · exact (rules_trim d).entry

theorem Steady.itemsNil : Steady (.items i) [] ([] : List i.Tree) := fun d =>
  .of_run rfl fun rest hrest => by
    obtain ⟨c, rest, rfl, -⟩ := eq_cons_of_front (by rw [hrest]; cases i <;> decide)
    have hc : c.kind = i.closing := hrest
    rw [List.nil_append, delimited_close hc, bind_of_ok (expect_cons hc rest), pure_run]

theorem Item.closing_ne_comma (i : Item) : i.closing ≠ .comma := by cases i <;> decide

/-- The last item stands at the closing token, with no comma behind it. -/
theorem Steady.itemsLast {x : i.Tree} (hbegins : Level.expression.begins (front ts).kind = true)
    (hx : Steady (.item i) ts x) : Steady (.items i) ts [x] := by
  intro d
  have hitem : Reaches (fun rest => (front rest).kind = i.closing) (· = pure x) (i.parser d) ts :=
    (hx d).mono fun rest hrest => by
      rw [Stops, hrest]
      cases i <;> decide
  refine (hitem.ended.turn fun rest hrest => ?_).congr fun rest _ =>
    delimited_round (trims_item i d) (by simp [ne_nil_of_begins hbegins])
      (front_ne_closing hbegins i rest)
  obtain ⟨c, rest, rfl, -⟩ := eq_cons_of_front (by rw [hrest]; cases i <;> decide)
  have hc : c.kind = i.closing := hrest
  rw [behindItem_close hc i.closing_ne_comma, bind_of_ok (expect_cons hc rest), pure_run]

/-- An item and its comma in front of more items, or of none. -/
theorem Steady.itemsMore {c : Token} {x : i.Tree} {xs : List i.Tree}
    (hbegins : Level.expression.begins (front ts).kind = true) (hx : Steady (.item i) ts x)
    (hc : c.kind = .comma) (hxs : Steady (.items i) us xs) :
    Steady (.items i) (ts ++ c :: us) (x :: xs) := by
  intro d
  have hlater : Reaches (fun rest => (front rest).kind = i.closing)
      (· = (expect i.closing >>= fun _ => pure (x :: xs))) (behindItem i.closing (i.parser d) x)
      (c :: us) := by
    refine ((hxs d).bind fun q hq => ?_).congr fun rest _ => behindItem_comma hc _ x _
    rw [hq, bind_assoc]
    rfl
  refine (Reaches.after (hx d) hlater fun _ _ => stops_cons hc (by decide) _).congr fun rest _ =>
    delimited_round (trims_item i d) (by simp) ?_
  rw [List.append_assoc]
  exact front_ne_closing hbegins i _

/-- Items are found, or found too deep, with the bracket that opens them. -/
theorem Steady.enclosed {o c : Token} {xs : List i.Tree} (ho : o.kind = i.opening)
    (hxs : Steady (.items i) ts xs) (hc : c.kind = i.closing) :
    Steady (.enclosed i) (o :: (ts ++ [c])) xs :=
  ⟨o, ts ++ [c], rfl, ho, fun d => (hxs d).trans (.expect hc (.here rfl)) fun _ _ => hc⟩

theorem Steady.element (h : Steady (.level .expression) ts n) : Steady (.item .element) ts n :=
  fun d => reaches_of_le (h.expression d) (Nat.le_succ _)

/-- An argument is plain where no sign follows. -/
theorem Steady.positional (hbegins : Level.expression.begins (front ts).kind = true)
    (h : Steady (.level .expression) ts n) : Steady (.item .argument) ts n := by
  rintro (_ | d)
  · exact .of_tooDeep tooDeep_run
  show Reaches _ _ (Parser.argument (d + 1)) ts
  rw [Parser.argument]
  refine .look (v := front ts) (fun rest _ => ?_) ?_
  · rw [current_run, front_append (ne_nil_of_begins hbegins)]
  · refine (reaches_of_le (h.expression d) (Nat.le_succ _)).ended.turn fun rest hrest => ?_
    rw [bind_of_ok (current_run rest), if_neg (front_ne_equals hrest)]

/-- A name stops at the sign of a keyword argument, and its value is read behind it. -/
theorem Steady.keyword {e : Token} {k : String} {v : Node}
    (hbegins : Level.expression.begins (front ts).kind = true)
    (hk : Steady (.level .expression) ts (Node.identifier k)) (he : e.kind = .equals)
    (hv : Steady (.level .expression) us v) :
    Steady (.item .argument) (ts ++ e :: us) (Node.keyword (.identifier k) v) := by
  rintro (_ | d)
  · exact .of_tooDeep tooDeep_run
  show Reaches _ _ (Parser.argument (d + 1)) _
  rw [Parser.argument]
  refine .look (v := front ts) (fun rest _ => ?_) ?_
  · rw [current_run, List.append_assoc, front_append (ne_nil_of_begins hbegins)]
  · refine .after (hk.expression d) (.current ?_) fun _ _ => stops_cons he (by decide) _
    rw [if_pos he]
    refine .take ?_
    rw [if_pos (by rfl)]
    exact (reaches_of_le (hv.expression d) (Nat.le_succ _)).ended

/-- A colon stops a key. -/
theorem Steady.entry {c : Token} {k v : Node} (hk : Steady (.level .expression) ts k)
    (hc : c.kind = .colon) (hv : Steady (.level .expression) us v) :
    Steady (.item .entry) (ts ++ c :: us) (k, v) := by
  rintro (_ | d)
  · exact .of_tooDeep fun ts => tooDeep_bind (tooDeep_run ts)
  show Reaches _ _ (Parser.entry (d + 1)) _
  rw [Parser.entry]
  refine .after (hk.expression d) (.expect hc ?_) fun _ _ => stops_cons hc (by decide) _
  exact (reaches_of_le (hv.expression d) (Nat.le_succ _)).ended

/-! ### All rules of expressions -/

/-- **Whether the depth is enough does not depend on what follows.** -/
theorem Derives.steady {r : Rule} {v : r.Tree} (h : Derives r ts v) : Steady r ts v := by
  induction h with
  | tighter hm h ih => exact ih.tighter hm h.begins
  | inline _ hi _ he _ hvalue htest hother => exact hvalue.inline hi htest he hother
  | operator hm _ ho _ ha hb => exact .operator hm ha ho hb
  | not ho _ ih => exact ih.not ho
  | test _ hi hf hn ih => exact hn.test hi hf.begins ih
  | testNot _ hi ho _ hn hf => exact hn.testNot hi ho hf
  | filter _ hp _ hn hf => exact hn.filter hp hf
  | property _ ho ht hn => exact hn.property ho ht
  | subscript _ ho hp hc hn => exact hn.subscript ho hp hc
  | call _ _ hf hargs => exact hf.call hargs
  | number ht hv =>
    refine .leaf (by rw [ht]; rfl) fun d rest => ?_
    rw [primaryBehind, ht]
    simp only [hv, pure_run]
  | string ht | boolean ht | identifier ht =>
    refine .leaf (by rw [ht]; rfl) fun d rest => ?_
    rw [primaryBehind, ht, pure_run]
  | parenthesis ho _ hc ih => exact ih.parenthesis ho hc
  | array _ ih => exact ih.array
  | object _ ih => exact ih.object
  | name ht => exact .name ht
  | applied _ _ hf hargs => exact hf.applied hargs
  | element _ ih => exact ih.element
  | positional h ih => exact ih.positional h.begins
  | keyword hk he _ ihk ihv => exact ihk.keyword hk.begins he ihv
  | entry _ hc _ hk hv => exact hk.entry hc hv
  | itemsNil => exact .itemsNil
  | itemsLast h ih => exact ih.itemsLast h.begins
  | itemsMore h hc _ hx hxs => exact hx.itemsMore h.begins hc hxs
  | enclosed ho _ hc ih => exact ih.enclosed ho hc
  | _ => trivial

end Stencil.Grammar
