import Stencil.Proofs.Grammar.Failure

/-!
# Grammar — a failing rule breaks off

Whenever a rule of the parser fails, the rule of the grammar breaks off behind what was taken,
before what is left and with that failure (`rules_report`).  A rule that goes on from a node is told
by what the node was derived from, as for soundness.
-/

namespace Stencil.Grammar
open Stencil.Parser

/-- Arguments may break off behind what is derived. -/
structure Called (Q : List Token → Node → Prop) (B : List Token → List Token → Failure → Prop) :
    Prop where
  callable : Callable Q
  breaks : ∀ {ts us rest : List Token} {f : Node} {e : Failure}, Q ts f →
    Breaks (.enclosed .argument) us rest e → B (ts ++ us) rest e

/-- Where a rule fails, it breaks off. -/
structure Reports (d : Nat) : Prop where
  level : ∀ l : Level, Rejects (l.parser d) (Breaks (.level l))
  applied : ∀ {Q B used name}, Called Q B → Q used name →
    Rejects (Parser.applied d name) fun more => B (used ++ more)
  member : ∀ {used object ts rest e}, Derives (.level .chained) used object →
    (front ts).kind = .dot ∨ (front ts).kind = .leftBracket →
    (Parser.member d object).run ts = .error e rest →
    ∃ more, ts = more ++ rest ∧ Breaks (.level .chained) (used ++ more) rest e
  index : Rejects (Parser.index d) (Breaks .index)
  call : ∀ {Q B used callee}, Called Q B → Q used callee →
    Rejects (Parser.call d callee) fun more => B (used ++ more)
  arguments : Rejects (Parser.arguments d) (Breaks (.enclosed .argument))
  argument : Rejects (Parser.argument d) (Breaks (.item .argument))
  entry : Rejects (Parser.entry d) (Breaks (.item .entry))
  piece : Rejects (Parser.piece d) (Breaks .piece)
  output : Rejects (Parser.output d) (Breaks .piece)
  statement : Rejects (Parser.statement d) (Breaks .piece)
  assignment : Rejects (Parser.assignment d) (Breaks .assignment)
  branches : Rejects (Parser.branches d) (Breaks .branches)
  loop : Rejects (Parser.loop d) fun used rest e => ∀ {o w : Token}, o.kind = .openStatement →
    w.kind = .kwFor → Breaks .piece (o :: w :: used) rest e

/-! ### Steps -/

variable {d : Nat}

/-- The operator of a level is read, and its right operand breaks off as an operand of the next
tighter level. -/
theorem stepRejects_infixStep {l m : Level} (hm : l.tighter? = some m)
    (hf : Rejects (m.parser d) (Breaks (.level m))) :
    StepRejects (infixStep l.joins (m.parser d)) (Derives (.level l)) (Breaks (.level l)) := by
  intro used ts rest node p e hused hp h
  unfold infixStep at hp
  split at hp <;> cases hp
  rename_i hjoins
  obtain ⟨o, mid, rfl, -⟩ := eq_cons_of_front fun he => by
    rw [he] at hjoins
    cases l <;> cases hjoins
  rw [bind_of_ok (advance_cons o mid), bind_pure_eq_error] at h
  obtain ⟨us, rfl, hb⟩ := hf h
  exact ⟨o :: us, rfl, .operator hm hused hjoins hb⟩

/-- An opening parenthesis is read behind a callee, and the arguments break off. -/
theorem stepRejects_callStep (hr : Reports d) {Q : List Token → Node → Prop}
    {B : List Token → List Token → Failure → Prop} (hQ : Called Q B) :
    StepRejects (callStep d) Q B := by
  intro used ts rest node p e hused hp h
  unfold callStep at hp
  split at hp <;> cases hp
  rw [bind_pure_eq_error] at h
  obtain ⟨us, rfl, hb⟩ := hr.arguments h
  exact ⟨us, rfl, hQ.breaks hused hb⟩

/-- A call is a link of a chain, whether it is complete or broken off. -/
theorem called_chained : Called (Derives (.level .chained)) (Breaks (.level .chained)) :=
  ⟨.call, .call⟩

/-- A link of a chain is a member or a call; each breaks off as it does by itself. -/
theorem stepRejects_chainStep (hr : Reports d) :
    StepRejects (chainStep d) (Derives (.level .chained)) (Breaks (.level .chained)) := by
  intro used ts rest node p e hused hp h
  unfold chainStep at hp
  split at hp <;> cases hp
  · exact hr.member hused (.inl ‹_›) h
  · exact hr.member hused (.inr ‹_›) h
  · exact hr.call called_chained hused h

/-- A name behind a mark, or its calls. -/
theorem rejects_applied (hr : Reports d) {kinds : List Token.Kind}
    {cause : String → Cause} (hk : .endOfInput ∉ kinds)
    (hname : ∀ {rest}, (front rest).kind ∉ kinds →
      Breaks (.applied kinds) [] rest (foundAt (cause (front rest).description) rest)) :
    Rejects (nameOf kinds cause >>= Parser.applied d) (Breaks (.applied kinds)) := by
  intro ts rest e h
  rw [bind_eq_error] at h
  rcases h with h | ⟨name, mid, hn, h⟩
  · obtain ⟨rfl, hne, rfl⟩ := nameOf_eq_error h
    exact ⟨[], rfl, hname hne⟩
  · obtain ⟨-, rfl, t, rfl, ht, rfl⟩ := accepts_nameOf kinds cause hk hn
    have hcalled : Called (Derives (.applied kinds)) (Breaks (.applied kinds)) :=
      ⟨.applied, .applied⟩
    obtain ⟨us, rfl, hb⟩ := hr.applied hcalled (.name ht) h
    exact ⟨t :: us, rfl, hb⟩

/-- A bar is read, and the filter behind it breaks off at its name or in its arguments. -/
theorem stepRejects_filterStep (hr : Reports d) :
    StepRejects (filterStep d) (Derives (.level .filtered)) (Breaks (.level .filtered)) := by
  intro used ts rest node p e hused hp h
  unfold filterStep at hp
  split at hp <;> cases hp
  rename_i hpipe
  obtain ⟨o, mid, rfl, -⟩ := eq_cons_of_front (by rw [hpipe]; decide)
  rw [bind_of_ok (advance_cons o mid), ← bind_assoc_run, bind_pure_eq_error] at h
  obtain ⟨us, rfl, hb⟩ := rejects_applied hr (by decide) .filterName h
  exact ⟨o :: us, rfl, .filter hused hpipe hb⟩

/-- `is`, with its `not`, is read, and the test behind it breaks off at its name or in its
arguments. -/
theorem stepRejects_testStep (hr : Reports d) :
    StepRejects (testStep d) (Derives (.level .tested)) (Breaks (.level .tested)) := by
  intro used ts rest node p e hused hp h
  unfold testStep at hp
  split at hp <;> cases hp
  rename_i his
  obtain ⟨i, mid, rfl, -⟩ := eq_cons_of_front (by rw [his]; decide)
  rw [bind_of_ok (advance_cons i mid), bind_of_ok (current_run mid)] at h
  simp only [decide_eq_true_eq] at h
  split at h
  · rename_i hnot
    obtain ⟨o, mid, rfl, -⟩ := eq_cons_of_front (by rw [hnot]; decide)
    rw [bind_of_ok (advance_cons o mid), ← bind_assoc_run, bind_pure_eq_error] at h
    obtain ⟨us, rfl, hb⟩ := rejects_applied hr (by decide) .testName h
    exact ⟨i :: o :: us, rfl, .testNot hused his hnot hb⟩
  · rw [← bind_assoc_run, bind_pure_eq_error] at h
    obtain ⟨us, rfl, hb⟩ := rejects_applied hr (by decide) .testName h
    exact ⟨i :: us, rfl, .test hused his hb⟩

/-! ### Rules, one depth further -/

/-- A conditional expression breaks off in its first operand, in its condition, or in the
alternative behind `else`; the missing `else` itself is no failure. -/
theorem expression_rejects (hr : Reports d) :
    Rejects (Parser.expression (d + 1)) (Breaks (.level .expression)) := by
  have hs := rules_sound d
  intro ts rest e h
  rw [Parser.expression, bind_eq_error] at h
  rcases h with h | ⟨value, mid, hrun, h⟩
  · obtain ⟨us, rfl, hb⟩ := hr.level .disjunction h
    exact ⟨us, rfl, .tighter rfl hb⟩
  obtain ⟨us, rfl, hvalue⟩ := hs.level .disjunction hrun
  rw [bind_of_ok (current_run mid)] at h
  split at h
  · rename_i hif
    obtain ⟨i, mid, rfl, -⟩ := eq_cons_of_front (by rw [hif]; decide)
    rw [bind_of_ok (advance_cons i mid)] at h
    simp only [bind_eq_error, expect_eq_ok] at h
    rcases h with h | ⟨test, mid, hrun, h | ⟨w, mid', ⟨rfl, hw⟩, h | ⟨_, _, _, h⟩⟩⟩
    · obtain ⟨vs, rfl, hb⟩ := hr.level .disjunction h
      exact ⟨us ++ i :: vs, by simp, .inlineTest hvalue hif hb⟩
    · obtain ⟨vs, rfl, htest⟩ := hs.level .disjunction hrun
      obtain ⟨rfl, hne, rfl⟩ := expect_eq_error (by decide) h
      exact ⟨us ++ i :: vs, by simp, .inlineElse hvalue hif htest hne⟩
    · obtain ⟨vs, rfl, htest⟩ := hs.level .disjunction hrun
      obtain ⟨ws, rfl, hb⟩ := hr.level .disjunction h
      exact ⟨us ++ i :: (vs ++ w :: ws), by simp, .inlineOther hvalue hif htest hw hb⟩
    · cases h
  · cases h

/-- A negation breaks off behind its `not`, or as a comparison without one. -/
theorem negation_rejects (hr : Reports d) :
    Rejects (Parser.negation (d + 1)) (Breaks (.level .negation)) := by
  intro ts rest e h
  rw [Parser.negation, bind_of_ok (current_run ts)] at h
  split at h
  · rename_i hnot
    obtain ⟨o, mid, rfl, -⟩ := eq_cons_of_front (by rw [hnot]; decide)
    rw [bind_of_ok (advance_cons o mid), bind_pure_eq_error] at h
    obtain ⟨us, rfl, hb⟩ := hr.level .negation h
    exact ⟨o :: us, rfl, .not hnot hb⟩
  · obtain ⟨us, rfl, hb⟩ := hr.level .comparison h
    exact ⟨us, rfl, .tighter rfl hb⟩

/-- A primary breaks off at its very first token, where no primary begins, or inside its brackets.
-/
theorem primary_rejects (hr : Reports d) :
    Rejects (Parser.primary (d + 1)) (Breaks (.level .primary)) := by
  have hs := rules_sound d
  intro ts rest e h
  cases hbegins : beginsPrimary (front ts).kind with
  | false =>
    rw [primary_of_not_begins hbegins] at h
    cases h
    exact ⟨[], rfl, .primary hbegins⟩
  | true =>
    obtain ⟨t, ts, rfl, -⟩ := eq_cons_of_front fun he => by
      rw [he] at hbegins
      cases hbegins
    rw [front_cons] at hbegins
    rw [primary_cons hbegins, primaryBehind] at h
    cases hk : t.kind <;> rw [hk] at hbegins h <;>
      try exact absurd hbegins Bool.false_ne_true
    case number =>
      dsimp only at h
      split at h
      · cases h
      · rename_i hread
        cases h
        exact ⟨[t], rfl, .number hk hread⟩
    -- these are read with their token, so nothing can be missing
    case string | boolean | identifier => cases h
    -- the expression inside breaks off, or the closing parenthesis is missing
    case leftParen =>
      simp only [bind_eq_error] at h
      rcases h with h | ⟨n, mid, hrun, h | ⟨_, _, _, h⟩⟩
      · obtain ⟨us, rfl, hb⟩ := hr.level .expression h
        exact ⟨t :: us, rfl, .parenthesis hk hb⟩
      · obtain ⟨us, rfl, hn⟩ := hs.level .expression hrun
        obtain ⟨rfl, hne, rfl⟩ := expect_eq_error (by decide) h
        exact ⟨t :: us, rfl, .parenthesisEnd hk hn hne⟩
      · cases h
    case leftBracket =>
      have hitem : Accepts (Parser.expression d) (Derives (.item .element)) := fun _ _ _ h => by
        obtain ⟨us, he, hus⟩ := hs.level .expression h
        exact ⟨us, he, .element hus⟩
      have hitem' : Rejects (Parser.expression d) (Breaks (.item .element)) := fun _ _ _ h => by
        obtain ⟨us, he, hus⟩ := hr.level .expression h
        exact ⟨us, he, .element hus⟩
      simp only [bind_pure_eq_error] at h
      obtain ⟨us, rfl, hb⟩ := rejects_delimited .element hitem hitem' hk h
      exact ⟨t :: us, rfl, .array hb⟩
    case leftBrace =>
      simp only [bind_pure_eq_error] at h
      obtain ⟨us, rfl, hb⟩ := rejects_delimited .entry hs.entry hr.entry hk h
      exact ⟨t :: us, rfl, .object hb⟩

/-- Each level of the cascade breaks off as the rows of that level do: by the fold of its steps, or
by the rule that heads it. -/
theorem level_rejects (hr : Reports d) (l : Level) :
    Rejects (l.parser (d + 1)) (Breaks (.level l)) := by
  have hs := rules_sound d
  have operand {l m : Level} (hm : l.tighter? = some m) :
      Accepts (m.parser d) (Derives (.level l)) := fun _ _ _ h =>
    (hs.level m h).imp fun _ h => ⟨h.1, .tighter hm h.2⟩
  have operand' {l m : Level} (hm : l.tighter? = some m) :
      Rejects (m.parser d) (Breaks (.level l)) := fun _ _ _ h =>
    (hr.level m h).imp fun _ h => ⟨h.1, .tighter hm h.2⟩
  -- the levels of operators differ in their operand and operators only
  have infixed {l m : Level} (hm : l.tighter? = some m) :
      Rejects (extend (infixStep l.joins (m.parser d)) (m.parser d)) (Breaks (.level l)) :=
    rejects_extend (operand hm) (operand' hm) (keeps_infixStep hm (hs.level m))
      (stepRejects_infixStep hm (hr.level m))
  cases l with
  | expression => exact expression_rejects hr
  | disjunction => exact infixed (l := .disjunction) rfl
  | conjunction => exact infixed (l := .conjunction) rfl
  | negation => exact negation_rejects hr
  | comparison => exact infixed (l := .comparison) rfl
  | sum => exact infixed (l := .sum) rfl
  | product => exact infixed (l := .product) rfl
  | tested =>
    exact rejects_extend (operand (m := .filtered) rfl) (operand' (m := .filtered) rfl)
      (keeps_testStep hs) (stepRejects_testStep hr)
  | filtered =>
    exact rejects_extend (operand (m := .chained) rfl) (operand' (m := .chained) rfl)
      (keeps_filterStep hs) (stepRejects_filterStep hr)
  | chained =>
    exact rejects_extend (operand (m := .primary) rfl) (operand' (m := .primary) rfl)
      (keeps_chainStep hs) (stepRejects_chainStep hr)
  | primary => exact primary_rejects hr

/-- Behind a dot the name of the property breaks off; behind an opening bracket the index does, or
the closing bracket is missing. -/
theorem member_rejects (hr : Reports d) {used : List Token} {object : Node}
    (hused : Derives (.level .chained) used object) {ts rest : List Token} {e : Failure}
    (hk : (front ts).kind = .dot ∨ (front ts).kind = .leftBracket)
    (h : (Parser.member (d + 1) object).run ts = .error e rest) :
    ∃ more, ts = more ++ rest ∧ Breaks (.level .chained) (used ++ more) rest e := by
  have hend : (front ts).kind ≠ .endOfInput := by rcases hk with hk | hk <;> rw [hk] <;> decide
  obtain ⟨o, mid, rfl, -⟩ := eq_cons_of_front hend
  rw [Parser.member, bind_of_ok (advance_cons o mid)] at h
  split at h
  · rename_i hdot
    rw [bind_pure_eq_error] at h
    obtain ⟨rfl, hne, rfl⟩ := nameOf_eq_error h
    exact ⟨[o], rfl, .property hused hdot (by simpa using hne)⟩
  · rename_i hdot
    have hbracket := hk.resolve_left hdot
    simp only [bind_eq_error] at h
    rcases h with h | ⟨p, mid', hrun, h | ⟨_, _, _, h⟩⟩
    · obtain ⟨us, rfl, hb⟩ := hr.index h
      exact ⟨o :: us, rfl, .subscript hused hbracket hb h⟩
    · obtain ⟨us, rfl, hp⟩ := (rules_sound d).index hrun
      obtain ⟨rfl, hne, rfl⟩ := expect_eq_error (by decide) h
      exact ⟨o :: us, rfl, .subscriptEnd hused hbracket hp hne⟩
    · cases h

/-- The arguments of a call break off behind its callee, whatever stands for the callee. -/
theorem call_rejects (hr : Reports d) {Q : List Token → Node → Prop}
    {B : List Token → List Token → Failure → Prop} {used : List Token} {callee : Node}
    (hQ : Called Q B) (hused : Q used callee) :
    Rejects (Parser.call (d + 1) callee) fun more => B (used ++ more) := by
  have hs := rules_sound d
  rw [Parser.call]
  refine rejects_extend (Q := fun more => Q (used ++ more)) (fun ts rest n h => ?_)
    (fun ts rest e h => ?_) (fun more ts rest node next p hmore hp h => ?_)
    fun more ts rest node p e hmore hp h => ?_
  · rw [bind_eq_ok] at h
    obtain ⟨args, mid, hrun, h⟩ := h
    obtain ⟨us, rfl, hargs⟩ := hs.arguments hrun
    obtain ⟨rfl, rfl⟩ := pure_eq_ok.mp h
    exact ⟨us, rfl, hQ.callable hused hargs⟩
  · rw [bind_pure_eq_error] at h
    obtain ⟨us, rfl, hb⟩ := hr.arguments h
    exact ⟨us, rfl, hQ.breaks hused hb⟩
  · obtain ⟨us, rfl, hus⟩ := keeps_callStep hs hQ.callable hmore hp h
    exact ⟨us, rfl, show Q (used ++ (more ++ us)) next by rwa [← List.append_assoc]⟩
  · obtain ⟨us, rfl, hus⟩ := stepRejects_callStep hr hQ hmore hp h
    exact ⟨us, rfl, by rwa [← List.append_assoc]⟩

/-- A filter or test breaks off in its arguments only: a name without them is complete. -/
theorem applied_rejects (hr : Reports d) {Q : List Token → Node → Prop}
    {B : List Token → List Token → Failure → Prop} {used : List Token} {name : Node}
    (hQ : Called Q B) (hused : Q used name) :
    Rejects (Parser.applied (d + 1) name) fun more => B (used ++ more) := by
  intro ts rest e h
  rw [Parser.applied, bind_of_ok (current_run ts)] at h
  split at h
  · exact hr.call hQ hused h
  · cases h

/-- An argument breaks off in its value, or behind the sign of a keyword argument, when its
target turns out to be no name. -/
theorem argument_rejects (hr : Reports d) :
    Rejects (Parser.argument (d + 1)) (Breaks (.item .argument)) := by
  have hs := rules_sound d
  intro ts rest e h
  rw [Parser.argument, bind_of_ok (current_run ts), bind_eq_error] at h
  rcases h with h | ⟨k, mid, hrun, h⟩
  · obtain ⟨us, rfl, hb⟩ := hr.level .expression h
    exact ⟨us, rfl, .positional hb⟩
  obtain ⟨us, rfl, hus⟩ := hs.level .expression hrun
  rw [bind_of_ok (current_run mid)] at h
  split at h
  · rename_i heq
    obtain ⟨q, mid, rfl, -⟩ := eq_cons_of_front (by rw [heq]; decide)
    rw [bind_of_ok (advance_cons q mid)] at h
    cases k with
    | identifier name =>
      rw [if_pos (by rfl), bind_pure_eq_error] at h
      obtain ⟨vs, rfl, hb⟩ := hr.level .expression h
      exact ⟨us ++ q :: vs, by simp, .keywordValue hus heq hb⟩
    | _ =>
      rw [if_neg (by simp [Node.isIdentifier])] at h
      obtain ⟨rfl, rfl⟩ := fail_eq_error h
      rw [front_append (ne_nil_of_begins hus.begins)]
      exact ⟨us ++ [q], by simp, .keywordTarget hus rfl heq⟩
  · cases h

/-- A pair of an object literal breaks off in its key, at its colon, or in its value. -/
theorem entry_rejects (hr : Reports d) :
    Rejects (Parser.entry (d + 1)) (Breaks (.item .entry)) := by
  have hs := rules_sound d
  intro ts rest e h
  rw [Parser.entry] at h
  simp only [bind_eq_error, expect_eq_ok] at h
  rcases h with h | ⟨k, mid, hk, h | ⟨c, mid', ⟨rfl, hc⟩, h | ⟨_, _, _, h⟩⟩⟩
  · obtain ⟨us, rfl, hb⟩ := hr.level .expression h
    exact ⟨us, rfl, .entryKey hb⟩
  · obtain ⟨us, rfl, hus⟩ := hs.level .expression hk
    obtain ⟨rfl, hne, rfl⟩ := expect_eq_error (by decide) h
    exact ⟨us, rfl, .entryColon hus hne⟩
  · obtain ⟨us, rfl, hus⟩ := hs.level .expression hk
    obtain ⟨vs, rfl, hb⟩ := hr.level .expression h
    exact ⟨us ++ c :: vs, by simp, .entryValue hus hc hb⟩
  · cases h

/-- A piece is text, an output or a statement, told apart by one token; any other token ends it at
once. -/
theorem piece_rejects (hr : Reports d) : Rejects (Parser.piece (d + 1)) (Breaks .piece) := by
  intro ts rest e h
  rw [Parser.piece, bind_of_ok (current_run ts)] at h
  cases hk : (front ts).kind <;> rw [hk] at h
  case text =>
    obtain ⟨t, mid, rfl, -⟩ := eq_cons_of_front (by rw [hk]; decide)
    rw [bind_of_ok (advance_cons t mid)] at h
    cases h
  case openStatement => exact hr.statement h
  case openExpression => exact hr.output h
  all_goals
    obtain ⟨rfl, rfl⟩ := fail_eq_error h
    exact ⟨[], rfl, .piece (by rw [hk]; simp)⟩

/-- An output breaks off in its expression, or its closing braces are missing. -/
theorem output_rejects (hr : Reports d) : Rejects (Parser.output (d + 1)) (Breaks .piece) := by
  intro ts rest e h
  rw [Parser.output] at h
  simp only [bind_eq_error, expect_eq_ok] at h
  rcases h with h | ⟨o, mid, ⟨rfl, ho⟩, h | ⟨n, mid', hn, h | ⟨_, _, _, h⟩⟩⟩
  · obtain ⟨rfl, hne, rfl⟩ := expect_eq_error (by decide) h
    exact ⟨[], rfl, .mark (by decide) hne⟩
  · obtain ⟨us, rfl, hb⟩ := hr.level .expression h
    exact ⟨o :: us, rfl, .output ho hb⟩
  · obtain ⟨us, rfl, hus⟩ := (rules_sound d).level .expression hn
    obtain ⟨rfl, hne, rfl⟩ := expect_eq_error (by decide) h
    exact ⟨o :: us, rfl, .outputEnd ho hus hne⟩
  · cases h

/-- A statement breaks off at its keyword, inside the form that the keyword begins, or at the end of
its tag. -/
theorem statement_rejects (hr : Reports d) :
    Rejects (Parser.statement (d + 1)) (Breaks .piece) := by
  have hs := rules_sound d
  intro ts rest e h
  rw [Parser.statement, bind_eq_error] at h
  rcases h with h | ⟨o, mid, hopen, h⟩
  · obtain ⟨rfl, hne, rfl⟩ := expect_eq_error (by decide) h
    exact ⟨[], rfl, .mark (by decide) hne⟩
  obtain ⟨rfl, ho⟩ := expect_eq_ok.mp hopen
  rw [bind_of_ok (current_run mid)] at h
  -- each keyword leads to its own form; what is missing behind the form is the end of the tag or
  -- the tag that ends the block
  cases hk : (front mid).kind <;> rw [hk] at h
  case kwSet =>
    obtain ⟨w, mid, rfl, -⟩ := eq_cons_of_front (by rw [hk]; decide)
    rw [bind_of_ok (advance_cons w mid)] at h
    simp only [bind_eq_error] at h
    rcases h with h | ⟨n, mid', hn, h | ⟨_, _, _, h⟩⟩
    · obtain ⟨us, rfl, hb⟩ := hr.assignment h
      exact ⟨o :: w :: us, rfl, .set ho hk hb⟩
    · obtain ⟨us, rfl, hus⟩ := hs.assignment hn
      obtain ⟨rfl, hne, rfl⟩ := expect_eq_error (by decide) h
      exact ⟨o :: w :: us, rfl, .setEnd ho hk hus hne⟩
    · cases h
  case kwIf =>
    obtain ⟨w, mid, rfl, -⟩ := eq_cons_of_front (by rw [hk]; decide)
    rw [bind_of_ok (advance_cons w mid)] at h
    simp only [bind_eq_error] at h
    rcases h with h | ⟨n, mid', hn, h | ⟨_, _, _, h⟩⟩
    · obtain ⟨us, rfl, hb⟩ := hr.branches h
      exact ⟨o :: w :: us, rfl, .conditional ho hk hb⟩
    · obtain ⟨us, rfl, hus⟩ := hs.branches hn
      obtain ⟨vs, rfl, hm⟩ := endTag_eq_error (by decide) h
      exact ⟨o :: w :: (us ++ vs), by simp, .conditionalEnd ho hk hus hm⟩
    · cases h
  case kwFor =>
    obtain ⟨w, mid, rfl, -⟩ := eq_cons_of_front (by rw [hk]; decide)
    rw [bind_of_ok (advance_cons w mid)] at h
    simp only [bind_eq_error] at h
    rcases h with h | ⟨n, mid', hn, h | ⟨_, _, _, h⟩⟩
    · obtain ⟨us, rfl, hb⟩ := hr.loop h
      exact ⟨o :: w :: us, rfl, hb ho hk⟩
    · obtain ⟨us, rfl, hus⟩ := hs.loop hn
      obtain ⟨vs, rfl, hm⟩ := endTag_eq_error (by decide) h
      exact ⟨o :: w :: (us ++ vs), by simp, .loopEnd (hus ho hk) hm⟩
    · cases h
  -- any other token is no keyword of a statement
  all_goals
    obtain ⟨rfl, rfl⟩ := fail_eq_error h
    exact ⟨[o], rfl, .statement ho (by rw [hk]; simp)⟩

/-- An assignment breaks off in its target, at the sign, or in its value. -/
theorem assignment_rejects (hr : Reports d) :
    Rejects (Parser.assignment (d + 1)) (Breaks .assignment) := by
  intro ts rest e h
  rw [Parser.assignment, bind_eq_error] at h
  rcases h with h | ⟨target, mid, hrun, h⟩
  · obtain ⟨us, rfl, hb⟩ := hr.level .expression h
    exact ⟨us, rfl, .plain hb⟩
  obtain ⟨us, rfl, hus⟩ := (rules_sound d).level .expression hrun
  rw [bind_of_ok (current_run mid)] at h
  split at h
  · rename_i heq
    obtain ⟨q, mid, rfl, -⟩ := eq_cons_of_front (by rw [heq]; decide)
    rw [bind_of_ok (advance_cons q mid), bind_pure_eq_error] at h
    obtain ⟨vs, rfl, hb⟩ := hr.assignment h
    exact ⟨us ++ q :: vs, by simp, .assign hus heq hb⟩
  · cases h

/-- A body breaks off in one of its pieces, or for want of the tag that ends it. -/
theorem rejects_pieces (hr : Reports d) (ends : List Token.Kind) (missing : Token.Kind) :
    Rejects (pieces ends missing (Parser.piece d)) (BodyBreaks missing) := by
  intro ts rest e h
  rw [pieces, bind_of_ok (remaining_run ts)] at h
  exact rejects_piecesFor (rules_sound d).piece hr.piece _ _ _ (Nat.le_refl _) h

/-- The branches of a conditional break off in the condition, at the end of the tag, in a body, or
in one of the tags behind the body. -/
theorem branches_rejects (hr : Reports d) :
    Rejects (Parser.branches (d + 1)) (Breaks .branches) := by
  have hs := rules_sound d
  intro ts rest e h
  rw [Parser.branches, bind_eq_error] at h
  rcases h with h | ⟨test, mid, hrun, h⟩
  · obtain ⟨us, rfl, hb⟩ := hr.level .expression h
    exact ⟨us, rfl, .condition hb⟩
  obtain ⟨us, rfl, htest⟩ := hs.level .expression hrun
  rw [bind_eq_error] at h
  rcases h with h | ⟨c, mid', hclose, h⟩
  · obtain ⟨rfl, hne, rfl⟩ := expect_eq_error (by decide) h
    exact ⟨us, rfl, .conditionEnd htest hne⟩
  obtain ⟨rfl, hc⟩ := expect_eq_ok.mp hclose
  rw [bind_eq_error] at h
  rcases h with h | ⟨body, mid, hbody, h⟩
  · obtain ⟨vs, rfl, hb⟩ := rejects_pieces hr _ _ h
    exact ⟨us ++ c :: vs, by simp, .branch htest hc (hb.breaks (by decide))⟩
  obtain ⟨vs, rfl, hvs⟩ := accepts_pieces hs _ _ hbody
  rw [bind_of_ok (sees_run _ mid)] at h
  -- two tokens tell how the branches go on: an elif, an else, or neither
  split at h
  · rename_i helif
    obtain ⟨o, w, mid, rfl, ho, hw⟩ := beginsWith_pair helif
    rw [bind_of_ok (advance_cons o _), bind_of_ok (advance_cons w mid), bind_pure_eq_error] at h
    obtain ⟨ws, rfl, hb⟩ := hr.branches h
    exact ⟨us ++ c :: (vs ++ o :: w :: ws), by simp, .elseIf htest hc hvs ho hw hb⟩
  rw [bind_of_ok (sees_run _ mid)] at h
  split at h
  · rename_i helse
    obtain ⟨o, w, mid, rfl, ho, hw⟩ := beginsWith_pair helse
    rw [bind_of_ok (advance_cons o _), bind_of_ok (advance_cons w mid)] at h
    simp only [bind_eq_error, expect_eq_ok] at h
    rcases h with h | ⟨c', mid', ⟨rfl, hc'⟩, h | ⟨_, _, _, h⟩⟩
    · obtain ⟨rfl, hne, rfl⟩ := expect_eq_error (by decide) h
      exact ⟨us ++ c :: (vs ++ [o, w]), by simp, .elseEnd htest hc hvs ho hw hne⟩
    · obtain ⟨ws, rfl, hb⟩ := rejects_pieces hr _ _ h
      exact ⟨us ++ c :: (vs ++ o :: w :: c' :: ws), by simp,
        .elseBody htest hc hvs ho hw hc' (hb.breaks (by decide))⟩
    · cases h
  · cases h

/-- A loop breaks off anywhere behind the two tokens that lead to it: in its variable, at `in`, in
what it runs over, in its tag, in its body or in the tag that ends it. -/
theorem loop_rejects (hr : Reports d) :
    Rejects (Parser.loop (d + 1)) fun used rest e => ∀ {o w : Token}, o.kind = .openStatement →
      w.kind = .kwFor → Breaks .piece (o :: w :: used) rest e := by
  have hs := rules_sound d
  intro ts rest e h
  rw [Parser.loop, bind_of_ok (current_run ts), bind_eq_error] at h
  rcases h with h | ⟨target, mid, hrun, h⟩
  · obtain ⟨us, rfl, hb⟩ := hr.level .chained h
    exact ⟨us, rfl, fun ho hw => .loopVariable ho hw hb h⟩
  obtain ⟨us, rfl, htarget⟩ := hs.level .chained hrun
  cases target with
  | identifier v =>
    rw [if_pos (by rfl)] at h
    simp only [bind_eq_error, expect_eq_ok] at h
    rcases h with h | ⟨i, mid', ⟨rfl, hi⟩, h | ⟨iterable, mid, hiter, h⟩⟩
    · obtain ⟨rfl, hne, rfl⟩ := expect_eq_error (by decide) h
      exact ⟨us, rfl, fun ho hw => .loopIn ho hw htarget hne⟩
    · obtain ⟨vs, rfl, hb⟩ := hr.level .expression h
      exact ⟨us ++ i :: vs, by simp, fun ho hw => .loopIterable ho hw htarget hi hb⟩
    obtain ⟨vs, rfl, hvs⟩ := hs.level .expression hiter
    rcases h with h | ⟨c, mid', ⟨rfl, hc⟩, h | ⟨_, _, _, h⟩⟩
    · obtain ⟨rfl, hne, rfl⟩ := expect_eq_error (by decide) h
      exact ⟨us ++ i :: vs, by simp, fun ho hw => .loopClose ho hw htarget hi hvs hne⟩
    · obtain ⟨ws, rfl, hb⟩ := rejects_pieces hr _ _ h
      exact ⟨us ++ i :: (vs ++ c :: ws), by simp, fun ho hw =>
        .loopBody ho hw htarget hi hvs hc (hb.breaks (by decide))⟩
    · cases h
  | _ =>
    rw [if_neg (by simp [Node.isIdentifier])] at h
    obtain ⟨rfl, rfl⟩ := fail_eq_error h
    rw [front_append (ne_nil_of_begins htarget.begins)]
    exact ⟨us, rfl, fun ho hw => .loopTarget ho hw htarget rfl⟩

/-- Too deep a rule breaks off at once. -/
theorem reports_zero : Reports 0 := by
  have deep {r : Rule} : Rejects tooDeep (Breaks r) := fun ts rest e h => by
    obtain ⟨rfl, rfl⟩ := failHere_eq_error h
    exact ⟨[], rfl, .tooDeep⟩
  have called {Q : List Token → Node → Prop} {B : List Token → List Token → Failure → Prop}
      {used : List Token} {f : Node} (hQ : Called Q B) (hused : Q used f) :
      Rejects tooDeep fun more => B (used ++ more) := fun ts rest e h => by
    obtain ⟨us, rfl, hb⟩ := deep h
    exact ⟨us, rfl, hQ.breaks hused hb⟩
  have entry : Rejects (do return (← tooDeep, Node.bare)) (Breaks (.item .entry)) :=
    fun ts rest e h => deep (bind_pure_eq_error.mp h)
  have arguments : Rejects (do return [← tooDeep]) (Breaks (.enclosed .argument)) :=
    fun ts rest e h => by
      rw [bind_pure_eq_error] at h
      exact deep h
  exact
    { level := fun l => by cases l <;> exact deep
      applied := called
      member := fun hused _ h => called called_chained hused h
      index := deep
      call := called
      arguments := arguments
      argument := deep
      entry := entry
      piece := deep
      output := deep
      statement := deep
      assignment := deep
      branches := deep
      loop := fun ts rest e h => by
        obtain ⟨rfl, rfl⟩ := failHere_eq_error h
        have hrun : (Parser.chained 0).run ([] ++ rest) = .error _ rest := failHere_run _ rest
        exact ⟨[], rfl, fun ho hw => .loopVariable ho hw .tooDeep hrun⟩ }

/-- One more level of nesting: each rule breaks off as it should when those called within it do. -/
theorem reports_succ (hr : Reports d) : Reports (d + 1) where
  level := level_rejects hr
  applied := applied_rejects hr
  member := fun hused hk h => member_rejects hr hused hk h
  index := by
    rw [Parser.index]
    exact rejects_subscript ((rules_sound d).level .expression) (hr.level .expression)
  call := call_rejects hr
  arguments := by
    intro ts rest e h
    rw [Parser.arguments, bind_eq_error] at h
    rcases h with h | ⟨o, mid, hopen, h⟩
    · obtain ⟨rfl, hne, rfl⟩ := expect_eq_error (by decide) h
      exact ⟨[], rfl, .opening hne⟩
    · obtain ⟨rfl, ho⟩ := expect_eq_ok.mp hopen
      obtain ⟨us, rfl, hb⟩ := rejects_delimited .argument (rules_sound d).argument hr.argument ho h
      exact ⟨o :: us, rfl, hb⟩
  argument := argument_rejects hr
  entry := entry_rejects hr
  piece := piece_rejects hr
  output := output_rejects hr
  statement := statement_rejects hr
  assignment := assignment_rejects hr
  branches := branches_rejects hr
  loop := loop_rejects hr

/-- **A failing rule breaks off**, every rule and at every depth. -/
theorem rules_report : ∀ d, Reports d
  | 0 => reports_zero
  | d + 1 => reports_succ (rules_report d)

end Stencil.Grammar
