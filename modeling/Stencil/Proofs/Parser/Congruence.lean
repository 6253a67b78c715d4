import Stencil.Parser.Grammar

/-!
# Parser — congruence of the rules

A relation between parsers that all operations on tokens respect is respected by all rules
(`Guarded.rules_succ`): if the rules at two depths are related, so are the rules one deeper.  What two
runs of the parser have in common is proved in this way, from a lemma for each operation and without
a look at any rule.  The two may read different kinds of streams.

A rule takes a token only where it has seen of what kind it is, and that it is not the end of the
input.  So the relation may depend on the kinds that are known to come next (`Guarded`); one that does
not is respected as soon as it respects sequences and operations by themselves (`Respects.guarded`).
The count of rounds of a repetition is that of the tokens left, which is the same in both runs.
-/

namespace Stencil.Parser

variable {σ τ : Type} [TokenStream σ] [TokenStream τ]

/-- Sequences and operations on tokens respect the relation. -/
structure Respects (R : ∀ {α : Type}, ParserOn σ α → ParserOn τ α → Prop) : Prop where
  pure : ∀ {α : Type} (a : α), R (pure a) (pure a)
  bind : ∀ {α β : Type} {p : ParserOn σ α} {q : ParserOn τ α} {f : α → ParserOn σ β}
    {g : α → ParserOn τ β}, R p q → (∀ a, R (f a) (g a)) → R (p >>= f) (q >>= g)
  fail : ∀ {α : Type} (cause : Cause) (t : Token), R (α := α) (fail cause t) (fail cause t)
  refuse : ∀ e : Numeral.Error, R (α := Node) (throw (.numeral e)) (throw (.numeral e))
  remaining : R remaining remaining
  current : R current current
  advance : R advance advance
  atEnd : R atEnd atEnd
  sees : ∀ kinds, R (sees kinds) (sees kinds)
  expect : ∀ kind, R (expect kind) (expect kind)

/-- The same for relations of parsers that go on where tokens of some kinds are known to come next.  A
token is taken only where its kind is known, and is not the end of the input. -/
structure Guarded (R : List Token.Kind → ∀ {α : Type}, ParserOn σ α → ParserOn τ α → Prop) :
    Prop where
  pure : ∀ {kinds : List Token.Kind} {α : Type} (a : α), R kinds (pure a) (pure a)
  bind : ∀ {kinds : List Token.Kind} {α β : Type} {p : ParserOn σ α} {q : ParserOn τ α}
    {f : α → ParserOn σ β} {g : α → ParserOn τ β}, R kinds p q → (∀ a, R [] (f a) (g a)) →
      R kinds (p >>= f) (q >>= g)
  /-- What needs no knowledge goes on anywhere. -/
  anywhere : ∀ {kinds : List Token.Kind} {α : Type} {p : ParserOn σ α} {q : ParserOn τ α},
    R [] p q → R kinds p q
  fail : ∀ {kinds : List Token.Kind} {α : Type} (cause : Cause) (t : Token),
    R kinds (α := α) (fail cause t) (fail cause t)
  /-- Behind an error nothing goes on, whatever would have to be known there. -/
  behindFail : ∀ {kinds later : List Token.Kind} {α β : Type} {f : β → ParserOn σ α}
    {g : β → ParserOn τ α} (cause : Cause) (t : Token), (∀ b, R later (f b) (g b)) →
      R kinds (Parser.fail cause t >>= f) (Parser.fail cause t >>= g)
  refuse : ∀ {kinds : List Token.Kind} (e : Numeral.Error),
    R kinds (α := Node) (throw (.numeral e)) (throw (.numeral e))
  remaining : ∀ {α : Type} {f : List Token → ParserOn σ α} {g : List Token → ParserOn τ α},
    (∀ ts, R [] (f ts) (g ts)) → R [] (remaining >>= f) (remaining >>= g)
  /-- Who looks at a token knows its kind. -/
  current : ∀ {α : Type} {f : Token → ParserOn σ α} {g : Token → ParserOn τ α},
    (∀ t, R [t.kind] (f t) (g t)) → R [] (current >>= f) (current >>= g)
  advance : ∀ {kind : Token.Kind} {kinds : List Token.Kind} {α : Type} {f : Token → ParserOn σ α}
    {g : Token → ParserOn τ α}, kind ≠ .endOfInput → (∀ t, R kinds (f t) (g t)) →
      R (kind :: kinds) (advance >>= f) (advance >>= g)
  atEnd : ∀ {kinds : List Token.Kind} {α : Type} {f : Bool → ParserOn σ α}
    {g : Bool → ParserOn τ α}, (∀ b, R kinds (f b) (g b)) → R kinds (atEnd >>= f) (atEnd >>= g)
  sees : ∀ {kinds : List Token.Kind} {α : Type} {f : Bool → ParserOn σ α}
    {g : Bool → ParserOn τ α}, R kinds (f true) (g true) → R [] (f false) (g false) →
      R [] (sees kinds >>= f) (sees kinds >>= g)
  expect : ∀ kind, R [] (expect kind) (expect kind)

/-- A relation that does not depend on what is known. -/
theorem Respects.guarded {R : ∀ {α : Type}, ParserOn σ α → ParserOn τ α → Prop}
    (hR : Respects R) : Guarded fun _ => R where
  pure := hR.pure
  bind := hR.bind
  anywhere h := h
  fail := hR.fail
  behindFail cause t := hR.bind (hR.fail cause t)
  refuse := hR.refuse
  remaining := hR.bind hR.remaining
  current := hR.bind hR.current
  advance _ := hR.bind hR.advance
  atEnd := hR.bind hR.atEnd
  sees htrue hfalse := hR.bind (hR.sees _) fun b => by
    cases b with
    | false => exact hfalse
    | true => exact htrue
  expect := hR.expect

/-- Two relations at once. -/
theorem Guarded.and {R S : List Token.Kind → ∀ {α : Type}, ParserOn σ α → ParserOn τ α → Prop}
    (hR : Guarded R) (hS : Guarded S) : Guarded fun kinds _ p q => R kinds p q ∧ S kinds p q where
  pure a := ⟨hR.pure a, hS.pure a⟩
  bind hp hf := ⟨hR.bind hp.1 fun a => (hf a).1, hS.bind hp.2 fun a => (hf a).2⟩
  anywhere h := ⟨hR.anywhere h.1, hS.anywhere h.2⟩
  fail cause t := ⟨hR.fail cause t, hS.fail cause t⟩
  behindFail cause t h :=
    ⟨hR.behindFail cause t fun b => (h b).1, hS.behindFail cause t fun b => (h b).2⟩
  refuse e := ⟨hR.refuse e, hS.refuse e⟩
  remaining h := ⟨hR.remaining fun ts => (h ts).1, hS.remaining fun ts => (h ts).2⟩
  current h := ⟨hR.current fun t => (h t).1, hS.current fun t => (h t).2⟩
  advance hkind h := ⟨hR.advance hkind fun t => (h t).1, hS.advance hkind fun t => (h t).2⟩
  atEnd h := ⟨hR.atEnd fun b => (h b).1, hS.atEnd fun b => (h b).2⟩
  sees htrue hfalse := ⟨hR.sees htrue.1 hfalse.1, hS.sees htrue.2 hfalse.2⟩
  expect kind := ⟨hR.expect kind, hS.expect kind⟩

namespace Guarded

variable {R : List Token.Kind → ∀ {α : Type}, ParserOn σ α → ParserOn τ α → Prop}
  {kinds : List Token.Kind} {kind : Token.Kind} {α : Type}

/-- A token whose kind has been compared with another one is taken. -/
theorem take (hR : Guarded R) {t : Token} {f : Token → ParserOn σ α} {g : Token → ParserOn τ α}
    (ht : t.kind = kind) (hkind : kind ≠ .endOfInput) (h : ∀ t, R [] (f t) (g t)) :
    R [t.kind] (Parser.advance >>= f) (Parser.advance >>= g) :=
  hR.advance (ht ▸ hkind) h

theorem failHere (hR : Guarded R) (cause : Cause) :
    R kinds (α := α) (failHere cause) (failHere cause) :=
  hR.anywhere (hR.current fun t => hR.fail cause t)

/-- Behind an error at the token at hand nothing goes on. -/
theorem behindFailHere (hR : Guarded R) {β : Type} {later : List Token.Kind}
    {f : β → ParserOn σ α} {g : β → ParserOn τ α} (cause : Cause)
    (h : ∀ b, R later (f b) (g b)) :
    R kinds (Parser.failHere cause >>= f) (Parser.failHere cause >>= g) := by
  rw [Parser.failHere, Parser.failHere, bind_assoc, bind_assoc]
  exact hR.anywhere (hR.current fun t => hR.behindFail cause t h)

omit [TokenStream σ] [TokenStream τ] in
/-- A rule behind a test that ends it with an error. -/
theorem guarded {b : Bool} {β : Type} {r : ParserOn σ Unit} {s : ParserOn τ Unit}
    {f : Unit → ParserOn σ β} {g : Unit → ParserOn τ β}
    (hr : (∀ u, R kinds (f u) (g u)) → R kinds (r >>= f) (s >>= g))
    (h : ∀ u, R kinds (f u) (g u)) :
    R kinds (if b = true then r >>= f else f ()) (if b = true then s >>= g else g ()) := by
  split
  · exact hr h
  · exact h ()

/-- A name is read alike when the end of the input is none of the kinds that are admitted: a token
is then at hand where it is taken. -/
theorem nameOf (hR : Guarded R) {names : List Token.Kind} (hnames : .endOfInput ∉ names)
    (cause : String → Cause) : R kinds (nameOf names cause) (nameOf names cause) := by
  refine hR.anywhere (hR.current fun t => ?_)
  split
  · rename_i hname
    exact hR.advance (fun he => hnames (he ▸ hname)) fun _ => hR.pure _
  · exact hR.fail _ _

/-- The tag that ends a block is three expected tokens. -/
theorem endTag (hR : Guarded R) (keyword : Token.Kind) : R [] (endTag keyword) (endTag keyword) :=
  hR.bind (hR.expect _) fun _ => hR.bind (hR.expect _) fun _ => hR.bind (hR.expect _) fun _ =>
    hR.pure _

/-! ### Repetition -/

section Repetition

variable {p : ParserOn σ α} {q : ParserOn τ α} {node : ParserOn σ Node} {node' : ParserOn τ Node}

/-- A repetition of related steps, each of them related when the token that offers it is known to be
there. -/
theorem extendFor (hR : Guarded R) {step : Node → Token.Kind → Option (ParserOn σ Node)}
    {step' : Node → Token.Kind → Option (ParserOn τ Node)}
    (h : ∀ node kind, Option.Rel (R [kind]) (step node kind) (step' node kind)) (rounds : Nat) :
    ∀ node : Node, R [] (extendFor step rounds node) (extendFor step' rounds node) := by
  induction rounds with
  | zero => exact fun _ => hR.pure _
  | succ rounds ih =>
    intro node
    rw [Parser.extendFor, Parser.extendFor]
    refine hR.current fun t => ?_
    have hstep := h node t.kind
    cases hs : step node t.kind <;> cases hs' : step' node t.kind <;>
      rw [hs, hs'] at hstep <;> cases hstep
    · exact hR.pure _
    · exact hR.bind ‹_› ih

/-- A chain of related steps behind related first operands. -/
theorem extend (hR : Guarded R) {step : Node → Token.Kind → Option (ParserOn σ Node)}
    {step' : Node → Token.Kind → Option (ParserOn τ Node)}
    (h : ∀ node kind, Option.Rel (R [kind]) (step node kind) (step' node kind))
    (hfirst : R [] node node') : R [] (extend step node) (extend step' node') :=
  hR.bind hfirst fun node => hR.remaining fun ts => hR.extendFor h ts.length node

/-- A level of operators over related operands; no operator is the end of the input. -/
theorem infixed (hR : Guarded R) {operators : Token.Kind → Bool}
    (hend : operators .endOfInput = false) (h : R [] node node') :
    R [] (infixed operators node) (infixed operators node') := by
  refine hR.extend (fun left kind => ?_) h
  split
  · rename_i hkind
    have hne : kind ≠ .endOfInput := by
      rintro rfl
      exact Bool.false_ne_true (hend.symm.trans hkind)
    exact .some (hR.advance hne fun _ => hR.bind h fun _ => hR.pure _)
  · exact .none

/-- Items, their commas and the closing token. -/
theorem delimitedFor (hR : Guarded R) (close : Token.Kind) (h : R [] p q) (rounds : Nat) :
    R [] (delimitedFor close p rounds) (delimitedFor close q rounds) := by
  induction rounds with
  | zero => exact hR.bind (hR.expect close) fun _ => hR.pure _
  | succ rounds ih =>
    rw [Parser.delimitedFor, Parser.delimitedFor]
    have later (x : α) : R [] (do return x :: (← Parser.delimitedFor close p rounds))
        (do return x :: (← Parser.delimitedFor close q rounds)) :=
      hR.bind ih fun xs => hR.pure (x :: xs)
    refine hR.current fun t => ?_
    split
    · exact hR.anywhere (hR.bind (hR.expect _) fun _ => hR.pure _)
    refine hR.anywhere (hR.atEnd fun b => guarded (hR.behindFailHere _) fun _ => ?_)
    refine hR.bind h fun x => hR.current fun t => ?_
    dsimp only
    split
    · exact hR.take ‹_› (by decide) fun _ => later x
    split
    · exact hR.behindFailHere _ fun _ => later x
    · exact hR.anywhere (later x)

theorem delimited (hR : Guarded R) (close : Token.Kind) (h : R [] p q) :
    R [] (delimited close p) (delimited close q) :=
  hR.remaining fun ts => hR.delimitedFor close h ts.length

/-- The pieces of a body up to one of the tags that end it. -/
theorem piecesFor (hR : Guarded R) (ends : List Token.Kind) (missing : Token.Kind)
    (h : R [] node node') (rounds : Nat) :
    R [] (piecesFor ends missing node rounds) (piecesFor ends missing node' rounds) := by
  induction rounds with
  | zero => exact hR.failHere _
  | succ rounds ih =>
    rw [Parser.piecesFor, Parser.piecesFor]
    refine hR.remaining fun left => ?_
    split
    · exact hR.pure _
    exact hR.atEnd fun b => guarded (hR.behindFailHere _) fun _ =>
      hR.bind h fun n => hR.bind ih fun _ => hR.pure _

theorem pieces (hR : Guarded R) (ends : List Token.Kind) (missing : Token.Kind)
    (h : R [] node node') : R [] (pieces ends missing node) (pieces ends missing node') :=
  hR.remaining fun ts => hR.piecesFor ends missing h ts.length

/-- The pieces of a template up to the end of the input. -/
theorem allFor (hR : Guarded R) (h : R [] node node') (rounds : Nat) :
    R [] (allFor node rounds) (allFor node' rounds) := by
  induction rounds with
  | zero => exact hR.pure _
  | succ rounds ih =>
    rw [Parser.allFor, Parser.allFor]
    refine hR.atEnd fun b => ?_
    split
    · exact hR.pure _
    · exact hR.bind h fun n => hR.bind ih fun _ => hR.pure _

theorem all (hR : Guarded R) (h : R [] node node') : R [] (all node) (all node') :=
  hR.remaining fun ts => hR.allFor h ts.length

/-- The parts of an index: related expressions, and colons that are taken after a look at them. -/
theorem subscriptFor (hR : Guarded R) (h : R [] node node') (rounds : Nat) :
    R [] (subscriptFor node rounds) (subscriptFor node' rounds) := by
  induction rounds with
  | zero => exact hR.failHere _
  | succ rounds ih =>
    rw [Parser.subscriptFor, Parser.subscriptFor]
    have later (part : Option Node) := hR.bind ih fun later =>
      hR.pure { later with beforeColons := part :: later.beforeColons }
    refine hR.current fun t => ?_
    dsimp only
    split
    · exact hR.pure _
    refine hR.atEnd fun b => guarded (hR.behindFailHere _) fun _ => ?_
    split
    · exact hR.take ‹_› (by decide) fun _ => later _
    refine hR.anywhere (hR.bind h fun n => hR.current fun t => ?_)
    split
    · exact hR.take ‹_› (by decide) fun _ => later _
    split
    · exact hR.pure _
    · exact hR.failHere _

/-- An index is built from its parts alike, and refused alike where they are too many. -/
theorem subscript (hR : Guarded R) (h : R [] node node') :
    R [] (subscript node) (subscript node') := by
  refine hR.remaining fun ts => hR.bind (hR.subscriptFor h ts.length) fun parts => ?_
  split
  · exact hR.failHere _
  · exact hR.pure _
  · split
    · exact hR.pure _
    · exact hR.pure _
    · exact hR.pure _
    · exact hR.failHere _

end Repetition

end Guarded

/-- The rules at one depth are related to those at another.  The rule for what is attached to an
object takes the token at hand, and is entered where it is not the end of the input. -/
structure RulesRelated (R : List Token.Kind → ∀ {α : Type}, ParserOn σ α → ParserOn τ α → Prop)
    (d e : Nat) : Prop where
  expression : R [] (expression d) (expression e)
  disjunction : R [] (disjunction d) (disjunction e)
  conjunction : R [] (conjunction d) (conjunction e)
  negation : R [] (negation d) (negation e)
  comparison : R [] (comparison d) (comparison e)
  sum : R [] (sum d) (sum e)
  product : R [] (product d) (product e)
  tested : R [] (tested d) (tested e)
  filtered : R [] (filtered d) (filtered e)
  applied : ∀ name, R [] (applied d name) (applied e name)
  chained : R [] (chained d) (chained e)
  member : ∀ object {kind}, kind ≠ .endOfInput → R [kind] (member d object) (member e object)
  index : R [] (index d) (index e)
  call : ∀ callee, R [] (call d callee) (call e callee)
  arguments : R [] (arguments d) (arguments e)
  argument : R [] (argument d) (argument e)
  primary : R [] (primary d) (primary e)
  entry : R [] (entry d) (entry e)
  piece : R [] (piece d) (piece e)
  output : R [] (output d) (output e)
  statement : R [] (statement d) (statement e)
  assignment : R [] (assignment d) (assignment e)
  branches : R [] (branches d) (branches e)
  loop : R [] (loop d) (loop e)

/-- Where nothing has to be known, what is attached to an object needs no token either. -/
theorem RulesRelated.attached {R : ∀ {α : Type}, ParserOn σ α → ParserOn τ α → Prop} {d e : Nat}
    (h : RulesRelated (fun _ => R) d e) (object : Node) :
    R (Parser.member d object) (Parser.member e object) :=
  h.member object (by decide : Token.Kind.dot ≠ .endOfInput)

namespace Guarded

variable {R : List Token.Kind → ∀ {α : Type}, ParserOn σ α → ParserOn τ α → Prop} {d e : Nat}

/-! ### Rules, one depth further -/

/-- A conditional expression is related to itself one nesting level up, once the rules within it
are; so for each rule below. -/
theorem expression_succ (hR : Guarded R) (h : RulesRelated R d e) :
    R [] (expression (d + 1)) (expression (e + 1)) := by
  rw [expression, expression]
  refine hR.bind h.disjunction fun value => hR.current fun t => ?_
  split
  · exact hR.take ‹_› (by decide) fun _ => hR.bind h.disjunction fun test =>
      hR.bind (hR.expect _) fun _ => hR.bind h.disjunction fun alternative => hR.pure _
  · exact hR.pure _

theorem negation_succ (hR : Guarded R) (h : RulesRelated R d e) :
    R [] (negation (d + 1)) (negation (e + 1)) := by
  rw [negation, negation]
  refine hR.current fun t => ?_
  split
  · exact hR.take ‹_› (by decide) fun _ => hR.bind h.negation fun _ => hR.pure _
  · exact hR.anywhere h.comparison

/-- A test takes `is` and its `not` after a look at each. -/
theorem tested_succ (hR : Guarded R) (h : RulesRelated R d e) :
    R [] (tested (d + 1)) (tested (e + 1)) := by
  rw [tested, tested]
  refine hR.extend (fun operand kind => ?_) h.filtered
  split
  · rename_i hkind
    refine .some (hR.advance (by rw [hkind]; decide) fun _ => hR.current fun t => ?_)
    have hnames : Token.Kind.endOfInput ∉ [Token.Kind.identifier, .boolean] := by decide
    have name (negated : Bool) := hR.bind (hR.nameOf hnames .testName : R [] _ _)
      fun name => hR.bind (h.applied name) fun test => hR.pure (Node.test operand negated test)
    simp only [decide_eq_true_eq]
    split
    · exact hR.take ‹_› (by decide) fun _ => name _
    · exact hR.anywhere (name _)
  · exact .none

theorem filtered_succ (hR : Guarded R) (h : RulesRelated R d e) :
    R [] (filtered (d + 1)) (filtered (e + 1)) := by
  rw [filtered, filtered]
  refine hR.extend (fun operand kind => ?_) h.chained
  split
  · rename_i hkind
    exact .some (hR.advance (by rw [hkind]; decide) fun _ =>
      hR.bind (hR.nameOf (by decide) _) fun name => hR.bind (h.applied name) fun _ => hR.pure _)
  · exact .none

theorem applied_succ (hR : Guarded R) (h : RulesRelated R d e) (name : Node) :
    R [] (applied (d + 1) name) (applied (e + 1) name) := by
  rw [applied, applied]
  refine hR.current fun t => ?_
  split
  · exact hR.anywhere (h.call name)
  · exact hR.pure _

/-- A chain goes on to a member or a call by the token it looks at. -/
theorem chained_succ (hR : Guarded R) (h : RulesRelated R d e) :
    R [] (chained (d + 1)) (chained (e + 1)) := by
  rw [chained, chained]
  refine hR.extend (fun node kind => ?_) h.primary
  cases kind with
  | dot | leftBracket => exact .some (h.member node (by decide))
  | leftParen => exact .some (hR.anywhere (h.call node))
  | _ => exact .none

/-- A member takes the token that has offered it, so that token has to be there. -/
theorem member_succ (hR : Guarded R) (h : RulesRelated R d e) (object : Node) {kind : Token.Kind}
    (hkind : kind ≠ .endOfInput) : R [kind] (member (d + 1) object) (member (e + 1) object) := by
  rw [member, member]
  refine hR.advance hkind fun t => ?_
  split
  · exact hR.bind (hR.nameOf (by decide) _) fun _ => hR.pure _
  · exact hR.bind h.index fun _ => hR.bind (hR.expect _) fun _ => hR.pure _

theorem call_succ (hR : Guarded R) (h : RulesRelated R d e) (callee : Node) :
    R [] (call (d + 1) callee) (call (e + 1) callee) := by
  rw [call, call]
  refine hR.extend (fun node kind => ?_) (hR.bind h.arguments fun _ => hR.pure _)
  split
  · exact .some (hR.anywhere (hR.bind h.arguments fun _ => hR.pure _))
  · exact .none

/-- An argument turns into a keyword argument after its value has been read and looked at. -/
theorem argument_succ (hR : Guarded R) (h : RulesRelated R d e) :
    R [] (argument (d + 1)) (argument (e + 1)) := by
  rw [argument, argument]
  refine hR.current fun start => hR.anywhere (hR.bind h.expression fun node =>
    hR.current fun t => ?_)
  split
  · refine hR.take ‹_› (by decide) fun _ => ?_
    split
    · exact hR.bind h.expression fun _ => hR.pure _
    · exact hR.fail _ _
  · exact hR.pure _

/-- A primary takes its first token after its kind has been looked at, in each of its cases. -/
theorem primary_succ (hR : Guarded R) (h : RulesRelated R d e) :
    R [] (primary (d + 1)) (primary (e + 1)) := by
  rw [primary, primary]
  refine hR.current fun t => hR.atEnd fun b => guarded (hR.behindFail _ t) fun _ => ?_
  cases t.kind with
  | number =>
    refine hR.advance (by decide) fun _ => ?_
    cases Numeral.read t.value with
    | ok value => exact hR.pure _
    | error e => exact hR.refuse e
  | string | boolean | identifier => exact hR.advance (by decide) fun _ => hR.pure _
  | leftParen =>
    exact hR.advance (by decide) fun _ => hR.bind h.expression fun _ =>
      hR.bind (hR.expect _) fun _ => hR.pure _
  | leftBracket =>
    exact hR.advance (by decide) fun _ => hR.bind (hR.delimited _ h.expression)
      fun _ => hR.pure _
  | leftBrace =>
    exact hR.advance (by decide) fun _ => hR.bind (hR.delimited _ h.entry)
      fun _ => hR.pure _
  | _ => exact hR.fail _ _

theorem entry_succ (hR : Guarded R) (h : RulesRelated R d e) :
    R [] (entry (d + 1)) (entry (e + 1)) := by
  rw [entry, entry]
  exact hR.bind h.expression fun _ => hR.bind (hR.expect _) fun _ => hR.bind h.expression
    fun _ => hR.pure _

/-- A piece is chosen by the kind of the first token, which is none of those at the end. -/
theorem piece_succ (hR : Guarded R) (h : RulesRelated R d e) :
    R [] (piece (d + 1)) (piece (e + 1)) := by
  rw [piece, piece]
  refine hR.current fun t => ?_
  cases t.kind with
  | text => exact hR.advance (by decide) fun _ => hR.pure _
  | openStatement => exact hR.anywhere h.statement
  | openExpression => exact hR.anywhere h.output
  | _ => exact hR.fail _ _

theorem output_succ (hR : Guarded R) (h : RulesRelated R d e) :
    R [] (output (d + 1)) (output (e + 1)) := by
  rw [output, output]
  exact hR.bind (hR.expect _) fun _ => hR.bind h.expression fun _ =>
    hR.bind (hR.expect _) fun _ => hR.pure _

/-- A statement takes its keyword after a look at it. -/
theorem statement_succ (hR : Guarded R) (h : RulesRelated R d e) :
    R [] (statement (d + 1)) (statement (e + 1)) := by
  rw [statement, statement]
  refine hR.bind (hR.expect _) fun _ => hR.current fun t => ?_
  cases t.kind with
  | kwSet =>
    exact hR.advance (by decide) fun _ => hR.bind h.assignment fun _ =>
      hR.bind (hR.expect _) fun _ => hR.pure _
  | kwIf =>
    exact hR.advance (by decide) fun _ => hR.bind h.branches fun _ =>
      hR.bind (hR.endTag _) fun _ => hR.pure _
  | kwFor =>
    exact hR.advance (by decide) fun _ => hR.bind h.loop fun _ =>
      hR.bind (hR.endTag _) fun _ => hR.pure _
  | _ => exact hR.fail _ _

theorem assignment_succ (hR : Guarded R) (h : RulesRelated R d e) :
    R [] (assignment (d + 1)) (assignment (e + 1)) := by
  rw [assignment, assignment]
  refine hR.bind h.expression fun target => hR.current fun t => ?_
  split
  · exact hR.take ‹_› (by decide) fun _ => hR.bind h.assignment fun _ => hR.pure _
  · exact hR.pure _

/-- The tags of a conditional are looked at before they are taken, and an `elif` is taken as an `if`
of its own. -/
theorem branches_succ (hR : Guarded R) (h : RulesRelated R d e) :
    R [] (branches (d + 1)) (branches (e + 1)) := by
  rw [branches, branches]
  refine hR.bind h.expression fun test => hR.bind (hR.expect _) fun _ =>
    hR.bind (hR.pieces _ _ h.piece) fun body => hR.sees ?_ (hR.sees ?_ ?_)
  · exact hR.advance (by decide) fun _ => hR.advance (by decide) fun _ => hR.bind h.branches
      fun _ => hR.pure _
  · exact hR.advance (by decide) fun _ => hR.advance (by decide) fun _ =>
      hR.bind (hR.expect _) fun _ => hR.bind (hR.pieces _ _ h.piece) fun _ => hR.pure _
  · exact hR.pure _

/-- A loop reads its variable, what it runs over, its body and the tag that ends it. -/
theorem loop_succ (hR : Guarded R) (h : RulesRelated R d e) :
    R [] (loop (d + 1)) (loop (e + 1)) := by
  rw [loop, loop]
  refine hR.current fun start => hR.anywhere (hR.bind h.chained fun target => ?_)
  split
  · exact hR.bind (hR.expect _) fun _ => hR.bind h.expression fun _ =>
      hR.bind (hR.expect _) fun _ => hR.bind (hR.pieces _ _ h.piece) fun _ => hR.pure _
  · exact hR.fail _ _

/-- **Rules one deeper are related as the rules are.** -/
theorem rules_succ (hR : Guarded R) (h : RulesRelated R d e) :
    RulesRelated R (d + 1) (e + 1) where
  expression := hR.expression_succ h
  disjunction := by rw [disjunction, disjunction]; exact hR.infixed rfl h.conjunction
  conjunction := by rw [conjunction, conjunction]; exact hR.infixed rfl h.negation
  negation := hR.negation_succ h
  comparison := by rw [comparison, comparison]; exact hR.infixed rfl h.sum
  sum := by rw [sum, sum]; exact hR.infixed rfl h.product
  product := by rw [product, product]; exact hR.infixed rfl h.tested
  tested := hR.tested_succ h
  filtered := hR.filtered_succ h
  applied := hR.applied_succ h
  chained := hR.chained_succ h
  member := hR.member_succ h
  index := by rw [index, index]; exact hR.subscript h.expression
  call := hR.call_succ h
  arguments := by
    rw [arguments, arguments]
    exact hR.bind (hR.expect _) fun _ => hR.delimited _ h.argument
  argument := hR.argument_succ h
  primary := hR.primary_succ h
  entry := hR.entry_succ h
  piece := hR.piece_succ h
  output := hR.output_succ h
  statement := hR.statement_succ h
  assignment := hR.assignment_succ h
  branches := hR.branches_succ h
  loop := hR.loop_succ h

/-- The rules that have no depth left all end with the same error. -/
theorem rules_zero (hR : Guarded R) : RulesRelated R 0 0 := by
  have deep {kinds : List Token.Kind} : R kinds tooDeep tooDeep := hR.failHere _
  constructor <;>
    first
    | exact deep
    | exact fun _ => deep
    | exact fun _ _ _ => deep
    | exact hR.bind deep fun _ => hR.pure _

/-- **A relation that operations respect is respected by all rules.** -/
theorem rules (hR : Guarded R) : ∀ d, RulesRelated R d d
  | 0 => hR.rules_zero
  | d + 1 => hR.rules_succ (hR.rules d)

/-- A whole template. -/
theorem program (hR : Guarded R) : R [] program program :=
  hR.bind (hR.all (hR.rules depthLimit).piece) fun _ => hR.pure _

end Guarded

end Stencil.Parser
