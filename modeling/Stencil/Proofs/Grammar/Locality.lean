import Stencil.Proofs.Grammar.Parsing
import Stencil.Proofs.Parser.Local
import Stencil.Proofs.Parser.Session

/-!
# Grammar — how far the rules look

No rule looks behind the tokens that it takes further than at the kinds of two more
(`rules_nearby`).  Expressions look one token ahead, to see whether they go on.  Blocks look two
ahead, for the tag that ends them.  A piece looks at nothing behind itself: its last token closes a
tag or is a text.

Hence what two runs of the parser have in common (`looks_no_further`).
-/

namespace Stencil.Grammar
open Stencil.Parser

variable {α : Type}

/-! ### Rules take tokens -/

/-- A rule takes as many tokens as all that it derives has. -/
theorem Accepts.takes {p : Parser α} {D : List Token → α → Prop} (h : Accepts p D) {least : Nat}
    (hD : ∀ {used v}, D used v → least ≤ used.length) : Takes least p := fun ts rest v hv => by
  obtain ⟨used, rfl, hused⟩ := h hv
  have := hD hused
  rw [List.length_append]
  omega

/-- Every level takes a token at least: nothing that is derived of it is empty. -/
theorem takes_level (l : Level) (d : Nat) : Takes 1 (l.parser d) :=
  ((rules_sound d).level l).takes fun h => List.length_pos_iff.mpr (ne_nil_of_begins h.begins)

theorem takes_argument (d : Nat) : Takes 1 (Parser.argument d) :=
  (rules_sound d).argument.takes fun h => List.length_pos_iff.mpr (ne_nil_of_begins h.begins)

theorem takes_piece (d : Nat) : Takes 1 (Parser.piece d) :=
  fun _ _ _ h => length_lt_of_piece h

/-- The tag that ends a block has three tokens. -/
theorem takes_endTag (keyword : Token.Kind) : Takes 3 (endTag keyword) :=
  (takes_expect _).bind fun _ => (takes_expect _).bind fun _ => (takes_expect _).bind fun _ =>
    (respects_trims.pure ()).takes

/-- A statement tag has a mark and a word at least. -/
theorem takes_statement (d : Nat) : Takes 2 (Parser.statement d) := by
  intro ts rest n h
  obtain ⟨used, rfl, hn⟩ := (rules_sound d).statement h
  have hopen : (front used).kind = .openStatement := by
    rw [← front_append hn.begins.1 rest]
    cases d with
    | zero => rw [Parser.statement, tooDeep, failHere_run] at h; cases h
    | succ d =>
      rw [Parser.statement, bind_eq_ok] at h
      obtain ⟨o, mid, ho, -⟩ := h
      obtain ⟨hts, ho⟩ := expect_eq_ok.mp ho
      rw [hts]
      exact ho
  have hpos : 2 ≤ used.length := by
    cases hn with
    | text ht | output ht => rw [front_cons, ht] at hopen; cases hopen
    | _ => simp
  rw [List.length_append]
  omega

/-! ### Rules at a depth -/

/-- How far each rule looks ahead. -/
structure Nearby (d : Nat) : Prop where
  level : ∀ l : Level, Local 0 1 (l.parser d)
  applied : ∀ name, Local 0 1 (Parser.applied d name)
  member : ∀ object, Local 0 1 (Parser.member d object)
  index : Local 0 1 (Parser.index d)
  call : ∀ callee, Local 0 1 (Parser.call d callee)
  arguments : Local 0 1 (Parser.arguments d)
  argument : Local 0 1 (Parser.argument d)
  entry : Local 0 1 (Parser.entry d)
  assignment : Local 0 1 (Parser.assignment d)
  piece : Local 0 0 (Parser.piece d)
  output : Local 0 0 (Parser.output d)
  statement : Local 0 0 (Parser.statement d)
  branches : Local 0 2 (Parser.branches d)
  loop : Local 0 2 (Parser.loop d)

/-- Without depth every rule fails at the token at hand. -/
theorem nearby_zero : Nearby 0 := by
  have deep {k : Fin 3} : Local 0 k tooDeep := .failHere _
  have entry : Local 0 1 (do return (← tooDeep, .bare) : Parser (Node × Node)) :=
    deep.bind fun _ => .pure _
  have arguments : Local 0 1 (do return [← tooDeep] : Parser (List Node)) :=
    deep.bind fun _ => .pure _
  constructor <;>
    first
    | exact deep
    | exact fun _ => deep
    | exact entry
    | exact arguments
    | exact fun l => by cases l <;> exact deep

variable {d : Nat}

/-- A step takes the token that has offered it, and looks at the kind of one more. -/
theorem local_step (hs : Nearby d) (l : Level) {node : Node} {kind : Token.Kind} {p : Parser Node}
    (h : l.step d node kind = some p) : Local 0 1 p := by
  -- the levels of operators differ in their operand only
  have infixed {operators : Token.Kind → Bool} {operand : Parser Node} (ho : Local 0 1 operand)
      (h : infixStep operators operand node kind = some p) : Local 0 1 p := by
    unfold infixStep at h
    split at h <;> cases h
    exact (Local.advance (by decide)).bind fun _ => ho.bind fun _ => .pure _
  cases l with
  | disjunction => exact infixed (hs.level .conjunction) h
  | conjunction => exact infixed (hs.level .negation) h
  | comparison => exact infixed (hs.level .sum) h
  | sum => exact infixed (hs.level .product) h
  | product => exact infixed (hs.level .tested) h
  | tested =>
    change testStep d node kind = some p at h
    unfold testStep at h
    split at h <;> cases h
    have name (negated : Bool) : Local 0 1 (do
        let name ← Parser.nameOf [.identifier, .boolean] .testName
        return Node.test node negated (← Parser.applied d name)) :=
      (Local.nameOf _ (by decide)).bind fun name => (hs.applied name).bind fun _ => .pure _
    -- behind `is` the kind of the next token tells a `not` from a name
    refine (Local.advance (by decide)).bind fun _ =>
      .choose (by decide) (fun t u htu => by rw [htu]) fun t => ?_
    dsimp only
    split
    · exact (Local.advance (by decide)).bind fun _ => name _
    · exact name _
  | filtered =>
    change filterStep d node kind = some p at h
    unfold filterStep at h
    split at h <;> cases h
    exact (Local.advance (by decide)).bind fun _ => (Local.nameOf _ (by decide)).bind fun name =>
      (hs.applied name).bind fun _ => .pure _
  | chained =>
    change chainStep d node kind = some p at h
    unfold chainStep at h
    split at h <;> cases h
    · exact hs.member node
    · exact hs.member node
    · exact hs.call node
  | expression | negation | primary => cases h

theorem local_callStep (hs : Nearby d) {node : Node} {kind : Token.Kind} {p : Parser Node}
    (h : callStep d node kind = some p) : Local 0 1 p := by
  unfold callStep at h
  split at h <;> cases h
  exact hs.arguments.bind fun _ => .pure _

/-- Behind its value an expression looks for an `if`. -/
theorem expression_local (hs : Nearby d) : Local 0 1 (Parser.expression (d + 1)) := by
  rw [Parser.expression]
  refine (hs.level .disjunction).bind fun value =>
    .choose (by decide) (fun t u htu => by rw [htu]) fun t => ?_
  split
  · exact (Local.advance (by decide)).bind fun _ => (hs.level .disjunction).bind fun _ =>
      (Local.expect _).bind fun _ => (hs.level .disjunction).bind fun _ => .pure _
  · exact .pure _

theorem negation_local (hs : Nearby d) : Local 0 1 (Parser.negation (d + 1)) := by
  rw [Parser.negation]
  refine .choose (by decide) (fun t u htu => by rw [htu]) fun t => ?_
  split
  · exact (Local.advance (by decide)).bind fun _ => (hs.level .negation).bind fun _ => .pure _
  · exact hs.level .comparison

/-- A primary is told by its first token and ends with its own brackets. -/
theorem primary_local (hs : Nearby d) : Local 0 1 (Parser.primary (d + 1)) := by
  refine .of_takes (n := 1) ?_ (takes_level .primary (d + 1)) (by decide)
  rw [Parser.primary]
  refine .current fun t => Local.mono (j := 1) ?_ (by decide)
  refine .atEnd (by decide) fun b => .guarded b (.fail _ _) ?_
  have taken {f : Token → Parser Node} (h : ∀ t, Local 0 1 (f t)) : Local 0 1 (advance >>= f) :=
    (Local.advance (by decide)).bind h
  cases t.kind with
  | number =>
    refine taken fun _ => ?_
    cases Numeral.read t.value with
    | ok value => exact .pure _
    | error e => exact .refuse e
  | string | boolean | identifier => exact taken fun _ => .pure _
  | leftParen => exact taken fun _ => (hs.level .expression).bind fun _ =>
      (Local.expect _).bind fun _ => .pure _
  | leftBracket => exact taken fun _ =>
      (Local.delimited (hs.level .expression) (by decide)).bind fun _ => .pure _
  | leftBrace => exact taken fun _ =>
      (Local.delimited hs.entry (by decide)).bind fun _ => .pure _
  | _ => exact .fail _ _

/-- A level looks at the token behind it, which may go on with it. -/
theorem level_local (hs : Nearby d) (l : Level) : Local 0 1 (l.parser (d + 1)) := by
  have repeated {l m : Level} (hl : l.repeats = true) (hm : l.tighter? = some m) :
      Local 0 1 (l.parser (d + 1)) := by
    rw [Level.parser_succ hl hm]
    exact .extend (hs.level m) (l.advances_step d) (local_step hs l) (by decide)
  cases l with
  | expression => exact expression_local hs
  | negation => exact negation_local hs
  | primary => exact primary_local hs
  | _ => exact repeated rfl rfl

/-- A member is complete with its name or its bracket. -/
theorem member_local (hs : Nearby d) (object : Node) :
    Local 0 1 (Parser.member (d + 1) object) := by
  rw [Parser.member]
  refine (Local.advance (by decide)).bind fun t => ?_
  split
  · exact (Local.nameOf _ (by decide)).bind fun _ => .pure _
  · exact hs.index.bind fun _ => (Local.expect _).bind fun _ => .pure _

/-- Behind its value an argument looks for an equals sign. -/
theorem argument_local (hs : Nearby d) : Local 0 1 (Parser.argument (d + 1)) := by
  refine .of_takes (n := 1) ?_ (takes_argument (d + 1)) (by decide)
  rw [Parser.argument]
  refine .current fun start => Local.mono (j := 1) ?_ (by decide)
  refine (hs.level .expression).bind fun node =>
    .choose (by decide) (fun t u htu => by rw [htu]) fun t => ?_
  split
  · refine (Local.advance (by decide)).bind fun _ => ?_
    split
    · exact (hs.level .expression).bind fun _ => .pure _
    · exact .fail _ _
  · exact .pure _

theorem assignment_local (hs : Nearby d) : Local 0 1 (Parser.assignment (d + 1)) := by
  rw [Parser.assignment]
  refine (hs.level .expression).bind fun target =>
    .choose (by decide) (fun t u htu => by rw [htu]) fun t => ?_
  split
  · exact (Local.advance (by decide)).bind fun _ => hs.assignment.bind fun _ => .pure _
  · exact .pure _

/-- The mark that ends a tag makes up for what the expression before it looks ahead. -/
theorem local_closed {p : Parser Node} (h : Local 0 1 p) (kind : Token.Kind) :
    Local 0 0 (do let node ← p; let _ ← expect kind; return node) :=
  h.before (c := 1) (fun _ => (Local.expect kind).bind fun _ => .pure _)
    (fun _ => (takes_expect kind).bind fun _ => (respects_trims.pure _).takes) (by decide)

/-- The tag that ends a block makes up for what the block before it looks ahead. -/
theorem local_ended {p : Parser Node} (h : Local 0 2 p) (keyword : Token.Kind) :
    Local 0 0 (do let node ← p; endTag keyword; return node) :=
  h.before (c := 3) (fun _ => (Local.endTag keyword).bind fun _ => .pure _)
    (fun _ => (takes_endTag keyword).bind fun _ => (respects_trims.pure _).takes) (by decide)

/-- An output is complete with its closing mark. -/
theorem output_local (hs : Nearby d) : Local 0 0 (Parser.output (d + 1)) := by
  rw [Parser.output]
  exact (Local.expect _).bind fun _ => local_closed (hs.level .expression) _

/-- A statement is complete with the end of its tag, or with the tag that ends its block. -/
theorem statement_local (hs : Nearby d) : Local 0 0 (Parser.statement (d + 1)) := by
  refine .of_takes (n := 2) ?_ (takes_statement (d + 1)) (by decide)
  rw [Parser.statement]
  refine .takeExpected fun _ => .current fun t => ?_
  cases t.kind with
  | kwSet => exact .take fun _ => local_closed hs.assignment _
  | kwIf => exact .take fun _ => local_ended hs.branches _
  | kwFor => exact .take fun _ => local_ended hs.loop _
  | _ => exact .fail _ _

/-- A piece looks at nothing behind itself. -/
theorem piece_local (hs : Nearby d) : Local 0 0 (Parser.piece (d + 1)) := by
  refine .of_takes (n := 1) ?_ (takes_piece (d + 1)) (by decide)
  rw [Parser.piece]
  refine .current fun t => ?_
  cases t.kind with
  | text => exact .take fun _ => .pure _
  | openStatement => exact hs.statement.mono (by decide)
  | openExpression => exact hs.output.mono (by decide)
  | _ => exact .fail _ _

/-- Behind a body two tokens are looked at: the opening of a tag and its keyword. -/
theorem local_pieces (hs : Nearby d) (ends : List Token.Kind) (missing : Token.Kind) :
    Local 0 2 (pieces ends missing (Parser.piece d)) :=
  .pieces (hs.piece.mono (by decide)) (takes_piece d) ends missing

/-- Branches look as far as their bodies do. -/
theorem branches_local (hs : Nearby d) : Local 0 2 (Parser.branches (d + 1)) := by
  rw [Parser.branches]
  refine ((hs.level .expression).mono (by decide)).bind fun test => (Local.expect _).bind fun _ =>
    (local_pieces hs _ _).bind fun body => .sees (by decide) fun b => ?_
  have taken {f : Token → Parser Node} (h : ∀ t, Local 0 2 (f t)) : Local 0 2 (advance >>= f) :=
    (Local.advance (by decide)).bind h
  split
  · exact taken fun _ => taken fun _ => hs.branches.bind fun _ => .pure _
  · refine .sees (by decide) fun b => ?_
    split
    · exact taken fun _ => taken fun _ => (Local.expect _).bind fun _ =>
        (local_pieces hs _ _).bind fun _ => .pure _
    · exact .pure _

theorem loop_local (hs : Nearby d) : Local 0 2 (Parser.loop (d + 1)) := by
  rw [Parser.loop]
  have expression : Local 0 2 (Parser.expression d) := (hs.level .expression).mono (by decide)
  have behind (start : Token) (target : Node) : Local 0 2 (if target.isIdentifier then do
      let _ ← expect .kwIn
      let iterable ← Parser.expression d
      let _ ← expect .closeStatement
      return Node.loop target iterable (← pieces [.kwEndfor] .kwEndfor (Parser.piece d))
      else Parser.fail (.loopVariable target.kind) start) := by
    split
    · exact (Local.expect _).bind fun _ => expression.bind fun _ => (Local.expect _).bind fun _ =>
        (local_pieces hs _ _).bind fun _ => .pure _
    · exact .fail _ _
  have target : Local 0 2 (Parser.chained d) := (hs.level .chained).mono (by decide)
  refine .of_takes (n := 1) (.current fun start => (target.bind (behind start)).mono (by decide)) ?_
    (by decide)
  exact takes_current fun start => (takes_level .chained d).bind fun target =>
    (behind start target).trims.takes

/-- One more level of nesting: each rule looks as far as it should when those within it do. -/
theorem nearby_succ (hs : Nearby d) : Nearby (d + 1) where
  level := level_local hs
  applied name := by
    rw [Parser.applied]
    refine .choose (by decide) (fun t u htu => by rw [htu]) fun t => ?_
    split
    · exact hs.call name
    · exact .pure _
  member := member_local hs
  index := by
    rw [Parser.index]
    exact .subscript (hs.level .expression) (by decide)
  call callee := by
    rw [Parser.call]
    exact .extend (hs.arguments.bind fun _ => .pure _) (advances_callStep d) (local_callStep hs)
      (by decide)
  arguments := by
    rw [Parser.arguments]
    exact (Local.expect _).bind fun _ => .delimited hs.argument (by decide)
  argument := argument_local hs
  entry := by
    rw [Parser.entry]
    exact (hs.level .expression).bind fun _ => (Local.expect _).bind fun _ =>
      (hs.level .expression).bind fun _ => .pure _
  assignment := assignment_local hs
  piece := piece_local hs
  output := output_local hs
  statement := statement_local hs
  branches := branches_local hs
  loop := loop_local hs

/-- **Every rule looks at the tokens that it takes and at the kinds of few more.** -/
theorem rules_nearby : ∀ d, Nearby d
  | 0 => nearby_zero
  | d + 1 => nearby_succ (rules_nearby d)

theorem local_program : Local 0 1 program :=
  (Local.all ((rules_nearby depthLimit).piece.mono (by decide)) (takes_piece depthLimit)
    (by decide)).bind fun _ => .pure _

/-! ### Two runs -/

/-- What a level does in a session, it does to the tokens left. -/
theorem Level.tracks (l : Level) (d : Nat) (s : Session) : s.Tracks (l.parser d) (l.parser d) :=
  (l.related (rules_track d)).tracks s

/-- The rules of expressions and of what stands inside them. -/
inductive ExpressionRule {σ : Type} [TokenStream σ] : {α : Type} → (Nat → ParserOn σ α) → Prop
  | level (l : Level) : ExpressionRule l.parser
  | applied (name : Node) : ExpressionRule (Parser.applied · name)
  | member (object : Node) : ExpressionRule (Parser.member · object)
  | index : ExpressionRule Parser.index
  | call (callee : Node) : ExpressionRule (Parser.call · callee)
  | arguments : ExpressionRule Parser.arguments
  | argument : ExpressionRule Parser.argument
  | entry : ExpressionRule Parser.entry

/-- No rule of expressions looks at more than one token behind itself. -/
theorem ExpressionRule.nearby {rule : Nat → Parser α} (h : ExpressionRule rule) (d : Nat) :
    Local 0 1 (rule d) := by
  have hs := rules_nearby d
  cases h with
  | level l => exact hs.level l
  | applied name => exact hs.applied name
  | member object => exact hs.member object
  | index => exact hs.index
  | call callee => exact hs.call callee
  | arguments => exact hs.arguments
  | argument => exact hs.argument
  | entry => exact hs.entry

/-- A rule of expressions answers at a greater depth as at a smaller one. -/
theorem ExpressionRule.shallower {rule : Nat → Parser α} (h : ExpressionRule rule) {d e : Nat}
    (hde : d ≤ e) : Shallower (rule d) (rule e) := by
  have hs := rules_shallower hde
  cases h with
  | level l => exact l.related hs
  | applied name => exact hs.applied name
  | member object => exact hs.attached object
  | index => exact hs.index
  | call callee => exact hs.call callee
  | arguments => exact hs.arguments
  | argument => exact hs.argument
  | entry => exact hs.entry

/-- What a rule does in a session, a rule does to the tokens left; and where it succeeds, the position
is moved over those that it takes. -/
theorem ExpressionRule.tracks {rule : Nat → ParserOn Session α} (h : ExpressionRule rule) :
    ∃ listRule : Nat → Parser α, ExpressionRule listRule ∧ ∀ d, Mirrors (rule d) (listRule d) ∧
      ∀ {s : Session} {a : α} {rest : List Token}, (listRule d).run s.left = .ok a rest →
        s.Tracks (rule d) (listRule d) := by
  have htrack := rules_track
  have always {p : ParserOn Session α} {q : Parser α} (h : TracksAt [] p q) :
      Mirrors p q ∧ ∀ {s : Session} {a : α} {rest : List Token}, q.run s.left = .ok a rest →
        s.Tracks p q := ⟨h.1, fun {s} _ _ _ => h.tracks s⟩
  cases h with
  | level l => exact ⟨_, .level l, fun d => always (l.related (htrack d))⟩
  | applied name => exact ⟨_, .applied name, fun d => always ((htrack d).applied name)⟩
  | member object =>
    refine ⟨_, .member object, fun d => ⟨?_, fun {s _ _} hrun => ?_⟩⟩
    · exact ((htrack d).member object (by decide : Token.Kind.dot ≠ .endOfInput)).1
    · refine s.tracks_member d object fun hnil => ?_
      rw [hnil] at hrun
      exact absurd (length_lt_of_member hrun) (Nat.not_lt_zero _)
  | index => exact ⟨_, .index, fun d => always (htrack d).index⟩
  | call callee => exact ⟨_, .call callee, fun d => always ((htrack d).call callee)⟩
  | arguments => exact ⟨_, .arguments, fun d => always (htrack d).arguments⟩
  | argument => exact ⟨_, .argument, fun d => always (htrack d).argument⟩
  | entry => exact ⟨_, .entry, fun d => always (htrack d).entry⟩

/-- The tokens of `{{ a ) }}`. -/
def sampleMisplaced : List Token :=
  [⟨.openExpression, "\x7b\x7b", 1, 1⟩, ⟨.identifier, "a", 1, 4⟩, ⟨.rightParen, ")", 1, 6⟩,
    ⟨.closeExpression, "\x7d\x7d", 1, 8⟩]

/-- The tokens of `a + b)`. -/
def sampleSum : List Token :=
  [⟨.identifier, "a", 1, 1⟩, ⟨.additive, "+", 1, 3⟩, ⟨.identifier, "b", 1, 5⟩,
    ⟨.rightParen, ")", 1, 6⟩]

/-- The same tokens behind a parenthesis and in front of a name. -/
def sampleBehind : Session :=
  ⟨⟨.leftParen, "(", 1, 1⟩ :: sampleSum ++ [⟨.identifier, "c", 1, 9⟩], 1⟩

/-- **The parser looks no further than two tokens, and never back.**  An error with two tokens more
behind the place where it was found is found there whatever follows these.  A rule of expressions
that takes some tokens takes them again, with the same result, wherever they stand before a token of
the same kind or at the end as before; only a smaller depth may stop it. -/
theorem looks_no_further :
    (∀ {u v w : List Token} {e : Failure} {s : Session},
      (∀ t ∈ u ++ v ++ w, t.kind ≠ .endOfInput) →
      (Session.ofTokens (u ++ v)).run program = (.error e, s) → s.position + 2 ≤ u.length →
      ∃ s', (Session.ofTokens (u ++ w)).run program = (.error e, s') ∧
        s'.position = s.position) ∧
    ∀ {α : Type} {rule : Nat → ParserOn Session α}, ExpressionRule rule →
      ∀ {d e : Nat} {a : α} {s t after : Session} {used rest : List Token},
        s.run (rule d) = (.ok a, after) → s.left = used ++ after.left → t.left = used ++ rest →
        Alike 1 after.left rest →
        (∃ token, (t.run (rule e)).1 = .error (.malformed ⟨.nestingTooDeep, token⟩)) ∨
          ∃ after', t.run (rule e) = (.ok a, after') ∧
            after'.position = t.position + used.length := by
  constructor
  · intro u v w e s hkinds h hs
    have hu : ∀ t ∈ u ++ v, t.kind ≠ .endOfInput := fun t ht =>
      hkinds t (List.mem_append_left w ht)
    have hw : ∀ t ∈ u ++ w, t.kind ≠ .endOfInput := fun t ht =>
      hkinds t (List.mem_append.mpr ((List.mem_append.mp ht).imp_left (List.mem_append_left v)))
    obtain ⟨used, rest, hleft, hrun, rfl⟩ := (Session.run_eq_error (Session.tracks_program _)).mp h
    rw [Session.left_ofTokens, dropEnd_eq_self hu] at hleft hrun
    have hpos : used.length + 2 ≤ u.length := by simpa [Session.ofTokens] using hs
    -- the error is found inside `u`, with two tokens of it to come
    obtain ⟨more, rfl⟩ : used <+: u :=
      List.prefix_of_prefix_length_le ⟨rest, hleft.symm⟩ ⟨v, rfl⟩ (by omega)
    obtain rfl : more ++ v = rest := by
      rw [List.append_assoc] at hleft
      exact List.append_cancel_left hleft
    have htake : (more ++ v).take 2 = (more ++ w).take 2 := by
      rw [List.length_append] at hpos
      rw [List.take_append_of_le_length (by omega), List.take_append_of_le_length (by omega)]
    have hleft' : (Session.ofTokens (used ++ more ++ w)).left = used ++ (more ++ w) := by
      rw [Session.left_ofTokens, dropEnd_eq_self hw, List.append_assoc]
    refine ⟨_, Session.run_of_error (Session.tracks_program _) hleft' ?_, rfl⟩
    rw [hleft']
    exact local_program.error (hleft ▸ hrun) htake (sure_zero _ _)
  · intro α rule hrule d e a s t after used rest h hs ht hrest
    obtain ⟨listRule, hlist, hruns⟩ := hrule.tracks
    have hlocal := hlist.nearby d
    have hok := Session.tokensRun_of_ok ((hruns d).1 s) h
    obtain ⟨used', rest', hleft, hrun, rfl⟩ := (Session.run_eq_ok ((hruns d).2 hok)).mp h
    rw [Session.left_skip hleft] at hs hrest
    rw [hs] at hrun
    have hd := hlocal.ok hrun hrest (sure_zero _ _)
    rw [← ht] at hd
    by_cases he : TooDeep (EStateM.run (listRule e) t.left)
    · obtain ⟨token, left, he⟩ := he
      exact .inl ⟨token, Session.run_fst_of_error ((hruns e).1 t) he⟩
    · have hsame := eq_of_shallower hlist.shallower (hd ▸ not_tooDeep_ok a rest) he
      have hd' := hsame.symm.trans hd
      exact .inr ⟨_, Session.run_of_ok ((hruns e).2 hd') ht hd', rfl⟩

/-- The tokens of `{{ a ) }}` have their mistake at the parenthesis, also in front of a text; and
`a + b` is the same expression in both places. -/
theorem looks_no_further_sample :
    (∃ s, (Session.ofTokens (sampleMisplaced ++ [⟨.text, "x", 1, 10⟩])).run program =
        (.error (.malformed ⟨.expectedToken .closeExpression, some ⟨.rightParen, ")", 1, 6⟩⟩), s) ∧
      s.position = 2) ∧
    ((∃ token, (sampleBehind.run (Level.expression.parser 40)).1 =
        .error (.malformed ⟨.nestingTooDeep, token⟩)) ∨
      ∃ after, sampleBehind.run (Level.expression.parser 40) =
        (.ok (.binary "+" (.identifier "a") (.identifier "b")), after) ∧
          after.position = sampleBehind.position + (sampleSum.take 3).length) := by
  have herror : (Session.ofTokens (sampleMisplaced ++ [])).run program =
      (.error (.malformed ⟨.expectedToken .closeExpression, some ⟨.rightParen, ")", 1, 6⟩⟩),
        ⟨sampleMisplaced, 2⟩) := rfl
  have hsum : (⟨sampleSum, 0⟩ : Session).run (Level.expression.parser 30) =
      (.ok (.binary "+" (.identifier "a") (.identifier "b")), ⟨sampleSum, 3⟩) := rfl
  have hleft : (⟨sampleSum, 0⟩ : Session).left =
      sampleSum.take 3 ++ (⟨sampleSum, 3⟩ : Session).left := rfl
  have hbehind : sampleBehind.left =
      sampleSum.take 3 ++ [⟨.rightParen, ")", 1, 6⟩, ⟨.identifier, "c", 1, 9⟩] := rfl
  exact ⟨looks_no_further.1 (by decide) herror (by decide),
    looks_no_further.2 (.level .expression) hsum hleft hbehind rfl⟩

end Stencil.Grammar
