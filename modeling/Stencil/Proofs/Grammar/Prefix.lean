import Stencil.Proofs.Grammar.Concatenation
import Stencil.Proofs.Grammar.Reports
import Stencil.Proofs.Grammar.Tokens

/-!
# Grammar — errors are noticed at once

The tokens before an error were no mistake: with other tokens behind them they are a template
(`prefix_of_early_error`).  Whatever was begun can be ended there, a bracket by what closes it, a
tag by its mark, a block by its tag, and where an operand is due a name will do
(`Breaks.standing`).

There are two exceptions.  The variable of a loop is read as any chained expression, and that it is
no name is noticed behind it; the parts of a slice are counted at the bracket behind the last one.
-/

namespace Stencil.Grammar
open Stencil.Parser Filter

/-- The errors at a token that cannot stand where it stands. -/
def Early : Failure → Prop
  | .malformed ⟨.unexpectedToken _, _⟩ | .malformed ⟨.expectedToken _, _⟩
  | .malformed ⟨.testName _, _⟩ | .malformed ⟨.filterName _, _⟩
  | .malformed ⟨.propertyName _, _⟩ | .malformed ⟨.emptyIndex, _⟩ => True
  | _ => False

/-- Behind the word of a loop its variable has been begun, and the failure is in it. -/
def InLoopVariable (e : Failure) (taken rest : List Token) : Prop :=
  ∃ before o w inner d, taken = before ++ o :: w :: inner ∧ o.kind = .openStatement ∧
    w.kind = .kwFor ∧ inner ≠ [] ∧ (Parser.chained d).run (inner ++ rest) = .error e rest

/-- Three parts of a slice with their colons, and something behind them. -/
def BeginsFourth (ts : List Token) : Prop :=
  ∃ parts more ps, ts = parts ++ more ∧ Parts parts ps ∧ ps.length = 3 ∧ more ≠ []

/-- Behind a bracket an index has come to a fourth part, and the failure is in it. -/
def InFourthPart (e : Failure) (taken rest : List Token) : Prop :=
  ∃ before o inner d, taken = before ++ o :: inner ∧ o.kind = .leftBracket ∧ BeginsFourth inner ∧
    (Parser.index d).run (inner ++ rest) = .error e rest

/-- The rule derives the tokens with some more behind them. -/
def Begun (r : Rule) (ts : List Token) : Prop := ∃ more v, Derives r (ts ++ more) v

/-- How a rule stands that has taken some tokens and fails: it can go on from there, or a mistake
has been let pass. -/
inductive Standing (e : Failure) (rest : List Token) : Rule → List Token → Prop
  | begun {r : Rule} {ts : List Token} : Begun r ts → Standing e rest r ts
  | variable_ {r : Rule} {ts : List Token} : InLoopVariable e ts rest → Standing e rest r ts
  | fourth {r : Rule} {ts : List Token} : InFourthPart e ts rest → Standing e rest r ts
  | index {ts : List Token} : BeginsFourth ts → Standing e rest .index ts

variable {ts us rest : List Token} {e : Failure}

/-! ### Tokens that end what was begun -/

theorem Derives.begun {r : Rule} {v : r.Tree} (h : Derives r us v) (more : List Token)
    (hus : us = ts ++ more := by simp) : Begun r ts := ⟨more, v, hus ▸ h⟩

/-- The tag that ends a block. -/
@[simp] def endOf (keyword : Token.Kind) : List Token :=
  [token .openStatement, token keyword, token .closeStatement]

/-- A name is an expression of every level. -/
theorem derives_name (l : Level) : Derives (.level l) [token .identifier] (Node.identifier "") :=
  (Derives.identifier rfl).loosen (Nat.zero_le _)

/-- A part of a slice that can be ended by nothing was not begun. -/
theorem Begun.of_part (h : Begun .part ts) : Begun (.level .expression) ts := by
  obtain ⟨more, v, h⟩ := h
  generalize hus : ts ++ more = us at h
  cases h with
  | absent =>
    obtain ⟨rfl, rfl⟩ := List.append_eq_nil_iff.mp hus
    exact (derives_name .expression).begun [token .identifier]
  | present h => exact ⟨more, _, hus ▸ h⟩

theorem Parts.slice {ps : List (Option Node)} (h : Parts ts ps) (hps : ps ≠ []) :
    Derives .slice ts ps := by
  induction h with
  | nil => exact absurd rfl hps
  | @cons ts us c p ps hpart hc hmore ih =>
    cases hmore with
    | nil => exact .sliceEnd hpart hc
    | cons => exact .sliceMore hpart hc (ih (List.cons_ne_nil _ _))

theorem Parts.sliceLast {ps : List (Option Node)} {n : Node} (h : Parts ts ps) (hps : ps ≠ [])
    (hn : Derives (.level .expression) us n) : Derives .slice (ts ++ us) (ps ++ [some n]) := by
  induction h with
  | nil => exact absurd rfl hps
  | @cons ts us' c p ps hpart hc hmore ih =>
    rw [List.append_assoc, List.cons_append, List.cons_append]
    cases hmore with
    | nil => exact .sliceLast hpart hc hn
    | cons => exact .sliceMore hpart hc (ih (List.cons_ne_nil _ _))

/-- The first parts, and what is behind them. -/
theorem Parts.split {ps : List (Option Node)} (h : Parts ts ps) (count : Nat) :
    ∃ first more, ts = first ++ more ∧ Parts first (ps.take count) ∧
      (count < ps.length → more ≠ []) := by
  induction h generalizing count with
  | nil => exact ⟨[], [], rfl, by rw [List.take_nil]; exact .nil, fun h => absurd h (by simp)⟩
  | @cons ts us c p ps hpart hc _ ih =>
    cases count with
    | zero => exact ⟨[], _, rfl, .nil, fun _ => by simp⟩
    | succ count =>
      obtain ⟨first, more, rfl, hfirst, hmore⟩ := ih count
      exact ⟨ts ++ c :: first, more, by simp, .cons hpart hc hfirst,
        fun hlt => hmore (Nat.lt_of_succ_lt_succ hlt)⟩

theorem Parts.beginsFourth {ps : List (Option Node)} (h : Parts ts ps) (hps : 3 ≤ ps.length)
    (hmore : ps.length = 3 → us ≠ []) : BeginsFourth (ts ++ us) := by
  obtain ⟨first, more, rfl, hfirst, hne⟩ := h.split 3
  refine ⟨first, more ++ us, _, List.append_assoc .., hfirst, by simpa using hps, fun hnil => ?_⟩
  obtain ⟨hnil, hus⟩ := List.append_eq_nil_iff.mp hnil
  rcases Nat.lt_or_eq_of_le hps with hlt | heq
  · exact hne hlt hnil
  · exact hmore heq.symm hus

theorem Derives.body_append {ts us : List Token} {ns ms : List Node} : Derives .body ts ns →
    Derives .body us ms → Derives .body (ts ++ us) (ns ++ ms)
  | .bodyNil, h => h
  | .bodyMore hn hns, h => by
    rw [List.append_assoc]
    exact .bodyMore hn (hns.body_append h)

/-- Of the tag that ends a block the rest can follow. -/
theorem Misses.begun {keyword : Token.Kind}
    (h : Misses [.openStatement, keyword, .closeStatement] ts rest e) :
    ∃ more o w c, ts ++ more = [o, w, c] ∧ o.kind = .openStatement ∧ w.kind = keyword ∧
      c.kind = .closeStatement := by
  cases h with
  | here =>
    exact ⟨_, token .openStatement, token keyword, token .closeStatement, rfl, rfl, rfl, rfl⟩
  | later ho h =>
  cases h with
  | here => exact ⟨_, _, token keyword, token .closeStatement, rfl, ho, rfl, rfl⟩
  | later hw h =>
  cases h with
  | here => exact ⟨_, _, _, token .closeStatement, rfl, ho, hw, rfl⟩
  | later hc h => cases h

/-! ### How a rule stands -/

/-- A rule stands as the part of it does that failed, and where the part can go on so can the
rule. -/
theorem Standing.behind {r r' : Rule} (h : Standing e rest r us) (before : List Token)
    (hgo : Begun r us → Begun r' ts)
    (hfourth : r = .index → BeginsFourth us → InFourthPart e ts rest := by nofun)
    (hts : ts = before ++ us := by simp) : Standing e rest r' ts := by
  subst hts
  cases h with
  | begun h => exact .begun (hgo h)
  | variable_ h =>
    obtain ⟨front, o, w, inner, d, rfl, h⟩ := h
    exact .variable_ ⟨before ++ front, o, w, inner, d, (List.append_assoc ..).symm, h⟩
  | fourth h =>
    obtain ⟨front, o, inner, d, rfl, h⟩ := h
    exact .fourth ⟨before ++ front, o, inner, d, (List.append_assoc ..).symm, h⟩
  | index h => exact .fourth (hfourth rfl h)

/-- An index with some parts complete: it can go on as long as it has no fourth part. -/
theorem Parts.standing {ps : List (Option Node)} (h : Parts ts ps)
    (hpart : Standing e rest .part us) : Standing e rest .index (ts ++ us) := by
  rcases Nat.lt_trichotomy ps.length 3 with hlt | heq | hgt
  · refine hpart.behind ts fun hbegun => ?_
    obtain ⟨more, n, hn⟩ := hbegun.of_part
    by_cases hnil : ps = []
    · subst hnil
      cases h
      exact (Derives.index hn).begun more
    · have hlength : (ps ++ [some n]).length ≤ 3 := by
        rwa [List.length_append, List.length_singleton]
      exact (Derives.slice (h.sliceLast hnil hn) hlength).begun more
  · by_cases hus : us = []
    · -- three parts are complete with their last colon
      subst hus
      have hnil : ps ≠ [] := fun hnil => by rw [hnil] at heq; cases heq
      exact .begun ((Derives.slice (h.slice hnil) (Nat.le_of_eq heq)).begun [])
    · exact .index (h.beginsFourth (Nat.le_of_eq heq.symm) fun _ => hus)
  · exact .index (h.beginsFourth (Nat.le_of_lt hgt) fun heq => absurd heq (Nat.ne_of_gt hgt))

/-- A loop with some tag that ends it. -/
theorem derives_loop {vs : List Token} {o w i c : Token} {v : String} {iterable : Node}
    {body : List Node} (ho : o.kind = .openStatement) (hw : w.kind = .kwFor)
    (ht : Derives (.level .chained) ts (Node.identifier v)) (hi : i.kind = .kwIn)
    (hn : Derives (.level .expression) us iterable) (hc : c.kind = .closeStatement)
    (hbody : Derives .body vs body) :
    Derives .piece (o :: w :: (ts ++ i :: (us ++ c :: (vs ++ endOf .kwEndfor))))
      (Node.loop (.identifier v) iterable body) :=
  .loop ho hw ht hi hn hc hbody (token_kind _) (token_kind _) (token_kind _)

/-- **Where an error is early the rule can go on**, but for the two exceptions. -/
theorem Breaks.standing {r : Rule} (h : Breaks r ts rest e) (he : Early e) :
    Standing e rest r ts := by
  have name (l : Level) := derives_name l
  have kind (k : Token.Kind) := token_kind k
  induction h with
  | tooDeep => exact he.elim
  -- expressions
  | tighter hm _ ih => exact (ih he).behind [] fun ⟨more, _, h⟩ => (h.tighter hm).begun more
  | @inlineTest ts _ _ i _ _ hvalue hi _ ih =>
    exact (ih he).behind (ts ++ [i]) fun ⟨more, _, h⟩ =>
      (hvalue.inline hi h (kind .kwElse) (name _)).begun
        (more ++ [token .kwElse, token .identifier])
  | inlineElse hvalue hi htest =>
    exact .begun ((hvalue.inline hi htest (kind .kwElse) (name _)).begun
      [token .kwElse, token .identifier])
  | @inlineOther ts us _ _ i w _ _ _ hvalue hi htest hw _ ih =>
    exact (ih he).behind (ts ++ i :: us ++ [w]) fun ⟨more, _, h⟩ =>
      (hvalue.inline hi htest hw h).begun more
  | @operator _ _ ts _ _ o _ _ hm ha ho _ ih =>
    exact (ih he).behind (ts ++ [o]) fun ⟨more, _, h⟩ => (ha.operator hm ho h).begun more
  | @not _ _ o _ ho _ ih =>
    exact (ih he).behind [o] fun ⟨more, _, h⟩ => (Derives.not ho h).begun more
  | @test ts _ _ i _ _ hn hi _ ih =>
    exact (ih he).behind (ts ++ [i]) fun ⟨more, _, h⟩ => (hn.test hi h).begun more
  | @testNot ts _ _ i o _ _ hn hi ho _ ih =>
    exact (ih he).behind (ts ++ [i, o]) fun ⟨more, _, h⟩ => (hn.testNot hi ho h).begun more
  | @filter ts _ _ p _ _ hn hp _ ih =>
    exact (ih he).behind (ts ++ [p]) fun ⟨more, _, h⟩ => (hn.filter hp h).begun more
  | property hn hd =>
    exact .begun ((hn.property hd (kind .identifier)).begun [token .identifier])
  | @subscript ts us _ o _ _ d hn ho _ hrun ih =>
    exact (ih he).behind (ts ++ [o])
      (fun ⟨more, _, h⟩ => (hn.subscript ho h (kind .rightBracket)).begun
        (more ++ [token .rightBracket]))
      fun _ hfourth => ⟨ts, o, us, d, rfl, ho, hfourth, hrun⟩
  | subscriptEnd hn ho hp =>
    exact .begun ((hn.subscript ho hp (kind .rightBracket)).begun [token .rightBracket])
  | @call ts _ _ _ _ hf _ ih =>
    exact (ih he).behind ts fun ⟨more, _, h⟩ => (hf.call h).begun more
  -- primaries
  | primary => exact .begun ((name _).begun [token .identifier])
  | number => exact he.elim
  | @parenthesis _ _ o _ ho _ ih =>
    exact (ih he).behind [o] fun ⟨more, _, h⟩ =>
      (Derives.parenthesis ho h (kind .rightParen)).begun (more ++ [token .rightParen])
  | parenthesisEnd ho hn =>
    exact .begun ((Derives.parenthesis ho hn (kind .rightParen)).begun [token .rightParen])
  | array _ ih => exact (ih he).behind [] fun ⟨more, _, h⟩ => h.array.begun more
  | object _ ih => exact (ih he).behind [] fun ⟨more, _, h⟩ => h.object.begun more
  -- names of tests and filters
  | testName => exact .begun ((Derives.name (t := token .identifier) (by decide)).begun
      [token .identifier])
  | filterName => exact .begun ((Derives.name (t := token .identifier) (by decide)).begun
      [token .identifier])
  | @applied _ ts _ _ _ _ hf _ ih =>
    exact (ih he).behind ts fun ⟨more, _, h⟩ => (hf.applied h).begun more
  -- between brackets
  | index hps _ ih => exact hps.standing (ih he)
  | emptyIndex => exact .begun ((name _).index.begun [token .identifier])
  | sliceParts => exact he.elim
  | partEnd => exact .begun (Derives.absent.begun [])
  | partValue _ ih => exact (ih he).behind [] fun ⟨more, _, h⟩ => h.present.begun more
  | partBehind hn => exact .begun (hn.present.begun [])
  | element _ ih => exact (ih he).behind [] fun ⟨more, _, h⟩ => h.element.begun more
  | positional _ ih => exact (ih he).behind [] fun ⟨more, _, h⟩ => h.positional.begun more
  | keywordTarget => exact he.elim
  | @keywordValue ts _ _ q _ _ hk hq _ ih =>
    exact (ih he).behind (ts ++ [q]) fun ⟨more, _, h⟩ => (hk.keyword hq h).begun more
  | entryKey _ ih =>
    exact (ih he).behind [] fun ⟨more, _, h⟩ =>
      (h.entry (kind .colon) (name _)).begun (more ++ [token .colon, token .identifier])
  | entryColon hk =>
    exact .begun ((hk.entry (kind .colon) (name _)).begun [token .colon, token .identifier])
  | @entryValue ts _ _ c _ _ hk hc _ ih =>
    exact (ih he).behind (ts ++ [c]) fun ⟨more, _, h⟩ => (hk.entry hc h).begun more
  | itemsEnd => exact .begun (Derives.itemsNil.begun [])
  | itemsFirst _ ih => exact (ih he).behind [] fun ⟨more, _, h⟩ => h.itemsLast.begun more
  | itemsComma hx => exact .begun (hx.itemsLast.begun [])
  | @itemsMore _ ts _ _ c _ _ hx hc _ ih =>
    exact (ih he).behind (ts ++ [c]) fun ⟨more, _, h⟩ => (hx.itemsMore hc h).begun more
  | @opening i =>
    exact .begun ((Derives.enclosed (kind i.opening) .itemsNil (kind i.closing)).begun
      [token i.opening, token i.closing])
  | @enclosed i _ _ o _ ho _ ih =>
    exact (ih he).behind [o] fun ⟨more, _, h⟩ =>
      (Derives.enclosed ho h (kind i.closing)).begun (more ++ [token i.closing])
  -- statements
  | plain _ ih => exact (ih he).behind [] fun ⟨more, _, h⟩ => h.plain.begun more
  | @assign ts _ _ q _ _ ht hq _ ih =>
    exact (ih he).behind (ts ++ [q]) fun ⟨more, _, h⟩ => (ht.assign hq h).begun more
  | condition _ ih =>
    exact (ih he).behind [] fun ⟨more, _, h⟩ =>
      (h.noElse (kind .closeStatement) .bodyNil).begun (more ++ [token .closeStatement])
  | conditionEnd ht =>
    exact .begun ((ht.noElse (kind .closeStatement) .bodyNil).begun [token .closeStatement])
  | @branch ts _ _ c _ _ ht hc _ ih =>
    exact (ih he).behind (ts ++ [c]) fun ⟨more, _, h⟩ => (ht.noElse hc h).begun more
  | @elseIf ts us _ _ c o w _ _ _ ht hc hbody ho hw _ ih =>
    exact (ih he).behind (ts ++ c :: us ++ [o, w]) fun ⟨more, _, h⟩ =>
      (ht.elseIf hc hbody ho hw h).begun more
  | elseEnd ht hc hbody ho hw =>
    exact .begun ((ht.elseBody hc hbody ho hw (kind .closeStatement) .bodyNil).begun
      [token .closeStatement])
  | @elseBody ts us _ _ c o w c' _ _ _ ht hc hbody ho hw hc' _ ih =>
    exact (ih he).behind (ts ++ c :: us ++ [o, w, c']) fun ⟨more, _, h⟩ =>
      (ht.elseBody hc hbody ho hw hc' h).begun more
  -- pieces
  | piece | mark => exact .begun ((Derives.text (kind .text)).begun [token .text])
  | @output _ _ o _ ho _ ih =>
    exact (ih he).behind [o] fun ⟨more, _, h⟩ =>
      (Derives.output ho h (kind .closeExpression)).begun (more ++ [token .closeExpression])
  | outputEnd ho hn =>
    exact .begun ((Derives.output ho hn (kind .closeExpression)).begun [token .closeExpression])
  | statement ho =>
    exact .begun ((Derives.set ho (kind .kwSet) (name _).plain (kind .closeStatement)).begun
      [token .kwSet, token .identifier, token .closeStatement])
  | @set _ _ o w _ ho hw _ ih =>
    exact (ih he).behind [o, w] fun ⟨more, _, h⟩ =>
      (Derives.set ho hw h (kind .closeStatement)).begun (more ++ [token .closeStatement])
  | setEnd ho hw hn =>
    exact .begun ((Derives.set ho hw hn (kind .closeStatement)).begun [token .closeStatement])
  | @conditional _ _ o w _ ho hw _ ih =>
    exact (ih he).behind [o, w] fun ⟨more, _, h⟩ =>
      (Derives.conditional ho hw h (kind .openStatement) (kind .kwEndif)
        (kind .closeStatement)).begun (more ++ endOf .kwEndif)
  | conditionalEnd ho hw hn hm =>
    obtain ⟨more, o', w', c, heq, ho', hw', hc⟩ := hm.begun
    exact .begun ((Derives.conditional ho hw hn ho' hw' hc).begun more (by simp [← heq]))
  | @loopVariable ts _ o w _ d ho hw _ hrun =>
    by_cases hts : ts = []
    · subst hts
      exact .begun ((derives_loop ho hw (name _) (kind .kwIn) (name _) (kind .closeStatement)
        .bodyNil).begun ([token .identifier, token .kwIn, token .identifier,
          token .closeStatement] ++ endOf .kwEndfor))
    · exact .variable_ ⟨[], o, w, ts, d, rfl, ho, hw, hts, hrun⟩
  | loopTarget => exact he.elim
  | loopIn ho hw ht =>
    exact .begun ((derives_loop ho hw ht (kind .kwIn) (name _) (kind .closeStatement)
      .bodyNil).begun ([token .kwIn, token .identifier, token .closeStatement] ++ endOf .kwEndfor))
  | @loopIterable ts _ _ o w i _ _ ho hw ht hi _ ih =>
    exact (ih he).behind (o :: w :: ts ++ [i]) fun ⟨more, _, h⟩ =>
      (derives_loop ho hw ht hi h (kind .closeStatement) .bodyNil).begun
        (more ++ token .closeStatement :: endOf .kwEndfor)
  | loopClose ho hw ht hi hn =>
    exact .begun ((derives_loop ho hw ht hi hn (kind .closeStatement) .bodyNil).begun
      (token .closeStatement :: endOf .kwEndfor))
  | @loopBody ts us _ _ o w i c _ _ _ ho hw ht hi hn hc _ ih =>
    exact (ih he).behind (o :: w :: ts ++ i :: us ++ [c]) fun ⟨more, _, h⟩ =>
      (derives_loop ho hw ht hi hn hc h).begun (more ++ endOf .kwEndfor)
  | loopEnd hn hm =>
    obtain ⟨more, o', w', c, heq, ho', hw', hc⟩ := hm.begun
    exact .begun ((hn ho' hw' hc).begun more (by simp [← heq]))
  | bodyEnd hbody => exact .begun (hbody.begun [])
  | @bodyPiece ts _ _ _ _ hbody _ ih =>
    exact (ih he).behind ts fun ⟨more, _, h⟩ =>
      (hbody.body_append (h.bodyMore .bodyNil)).begun more

/-! ### Whole templates -/

/-- The tokens before an error in a whole template. -/
theorem Standing.of_program (h : program.run ts = .error e rest) (he : Early e) :
    ∃ used, ts = used ++ rest ∧ Standing e rest .body used := by
  rw [program_eq_error, all, bind_of_ok (remaining_run ts)] at h
  obtain ⟨used, rfl, hb⟩ := rejects_allFor (rules_sound _).piece (rules_report _).piece _ h
  exact ⟨used, rfl, hb.standing he⟩

/-- **The tokens before an error begin a template**, unless they are in the variable of a loop or in
the fourth part of an index. -/
theorem prefix_of_early_error {s : Session} (hkinds : ∀ t ∈ ts, t.kind ≠ .endOfInput)
    (h : (Session.ofTokens ts).run program = (.error e, s)) (he : Early e)
    (hvariable : ¬ InLoopVariable e (ts.take s.position) (ts.drop s.position))
    (hfourth : ¬ InFourthPart e (ts.take s.position) (ts.drop s.position)) :
    ∃ more body,
      (∀ᶠ limit in atTop,
        parseWithin limit (ts.take s.position ++ more) = .ok (.program body)) ∧
      (¬ NestedTooDeep (ts.take s.position ++ more) →
        parse (ts.take s.position ++ more) = .ok (.program body)) := by
  obtain ⟨used, rest, hleft, hrun, rfl⟩ := (Session.run_eq_error (Session.tracks_program _)).mp h
  obtain ⟨used', heq, hstanding⟩ := Standing.of_program hrun he
  -- the tokens before the error are those that the derivation of the break is about
  obtain rfl : used = used' := List.append_cancel_right (hleft.symm.trans heq)
  rw [Session.left_ofTokens, dropEnd_eq_self hkinds] at hleft
  have hposition : ((Session.ofTokens ts).skip used).position = used.length := Nat.zero_add _
  have htake : ts.take ((Session.ofTokens ts).skip used).position = used := by
    rw [hposition, hleft, List.take_left]
  have hdrop : ts.drop ((Session.ofTokens ts).skip used).position = rest := by
    rw [hposition, hleft, List.drop_left]
  rw [htake, hdrop] at hvariable hfourth
  rw [htake]
  cases hstanding with
  | variable_ h => exact absurd h hvariable
  | fourth h => exact absurd h hfourth
  | begun h =>
    obtain ⟨more, body, hbody⟩ := h
    have hdrop : dropEnd (used ++ more) = used ++ more :=
      dropEnd_eq_self fun t ht => (hbody.readable trivial t ht).1
    have hbody' : Derives .body (dropEnd (used ++ more)) body := hdrop.symm ▸ hbody
    exact ⟨more, body, eventually_parseWithin hbody', fun hdeep => parse_of_derives hdeep hbody'⟩

/-- The tokens of `{{ f({a: b + }}`. -/
def sampleUnfinished : List Token :=
  [⟨.openExpression, "\x7b\x7b", 1, 1⟩, ⟨.identifier, "f", 1, 4⟩, ⟨.leftParen, "(", 1, 5⟩,
    ⟨.leftBrace, "\x7b", 1, 6⟩, ⟨.identifier, "a", 1, 7⟩, ⟨.colon, ":", 1, 8⟩,
    ⟨.identifier, "b", 1, 10⟩, ⟨.additive, "+", 1, 12⟩, ⟨.closeExpression, "\x7d\x7d", 1, 14⟩]

/-- In `{{ f({a: b + }}` the mark is wrong, and what is before it begins a template. -/
theorem prefix_of_early_error_sample :
    ∃ more body,
      (∀ᶠ limit in atTop,
        parseWithin limit (sampleUnfinished.take 8 ++ more) = .ok (.program body)) ∧
      (¬ NestedTooDeep (sampleUnfinished.take 8 ++ more) →
        parse (sampleUnfinished.take 8 ++ more) = .ok (.program body)) := by
  have herror : (Session.ofTokens sampleUnfinished).run program =
      (.error (.malformed ⟨.unexpectedToken "expression",
        some ⟨.closeExpression, "\x7d\x7d", 1, 14⟩⟩), ⟨sampleUnfinished, 8⟩) := rfl
  have hopen : ∀ t ∈ sampleUnfinished.take 8, t.kind ≠ .openStatement ∧ t.kind ≠ .leftBracket := by
    decide
  have hbegun := prefix_of_early_error (by decide) herror trivial
    (fun ⟨before, o, w, inner, d, htaken, ho, _⟩ =>
      (hopen o (htaken ▸ List.mem_append_right before List.mem_cons_self)).1 ho)
    (fun ⟨before, o, inner, d, htaken, ho, _⟩ =>
      (hopen o (htaken ▸ List.mem_append_right before List.mem_cons_self)).2 ho)
  exact hbegun

end Stencil.Grammar
