import Stencil.Proofs.Grammar.Steps

/-!
# Grammar — what the parser takes is derived

Whatever a rule takes when it succeeds, the grammar derives, with the tree that the rule returns
(`rules_sound`).  A rule that goes on from a node is told by what the node was derived from: the
tokens taken before and those it takes are derived together.
-/

namespace Stencil.Grammar
open Stencil.Parser

variable {α : Type}

/-- What the parser takes stands in the relation to its result. -/
def Accepts (p : Parser α) (D : List Token → α → Prop) : Prop :=
  ∀ ⦃ts rest : List Token⦄ ⦃v : α⦄, p.run ts = .ok v rest → ∃ used, ts = used ++ rest ∧ D used v

/-- Arguments may be put behind what is derived. -/
def Callable (Q : List Token → Node → Prop) : Prop :=
  ∀ {ts us : List Token} {f : Node} {args : List Node}, Q ts f →
    Derives (.enclosed .argument) us args → Q (ts ++ us) (.call f args)

/-- What a rule takes, the grammar derives. -/
structure Sound (d : Nat) : Prop where
  level : ∀ l : Level, Accepts (l.parser d) (Derives (.level l))
  applied : ∀ {Q used name}, Callable Q → Q used name →
    Accepts (Parser.applied d name) fun more => Q (used ++ more)
  member : ∀ {used object ts rest n}, Derives (.level .chained) used object →
    (front ts).kind = .dot ∨ (front ts).kind = .leftBracket →
    (Parser.member d object).run ts = .ok n rest →
    ∃ more, ts = more ++ rest ∧ Derives (.level .chained) (used ++ more) n
  index : Accepts (Parser.index d) (Derives .index)
  call : ∀ {Q used callee}, Callable Q → Q used callee →
    Accepts (Parser.call d callee) fun more => Q (used ++ more)
  arguments : Accepts (Parser.arguments d) (Derives (.enclosed .argument))
  argument : Accepts (Parser.argument d) (Derives (.item .argument))
  entry : Accepts (Parser.entry d) (Derives (.item .entry))
  piece : Accepts (Parser.piece d) (Derives .piece)
  output : Accepts (Parser.output d) (Derives .piece)
  statement : Accepts (Parser.statement d) (Derives .piece)
  assignment : Accepts (Parser.assignment d) (Derives .assignment)
  branches : Accepts (Parser.branches d) (Derives .branches)
  loop : Accepts (Parser.loop d) fun used n => ∀ {o w o' w' c : Token}, o.kind = .openStatement →
    w.kind = .kwFor → o'.kind = .openStatement → w'.kind = .kwEndfor → c.kind = .closeStatement →
    Derives .piece (o :: w :: (used ++ [o', w', c])) n

/-! ### Combinators -/

/-- A rule that always fails takes nothing that would have to be derived. -/
theorem accepts_nothing {p : Parser α} {D : List Token → α → Prop}
    (h : ∀ ts, ∃ e rest, p.run ts = .error e rest) : Accepts p D := by
  intro ts rest v hv
  obtain ⟨e, mid, he⟩ := h ts
  rw [he] at hv
  cases hv

/-- A chain is what its first operand has read, with each step keeping the relation. -/
theorem accepts_extend {step : Steps} {first : Parser Node} {Q : List Token → Node → Prop}
    (hfirst : Accepts first Q) (hs : Keeps step Q) : Accepts (extend step first) Q := by
  intro ts rest n h
  rw [extend_run, bind_eq_ok] at h
  obtain ⟨node, mid, hp, h⟩ := h
  obtain ⟨used, rfl, hq⟩ := hfirst hp
  obtain ⟨more, rfl, hq'⟩ := hs.extendFor hq h
  exact ⟨used ++ more, (List.append_assoc ..).symm, hq'⟩

/-- A name is one token of a kind that is admitted. -/
theorem accepts_nameOf (kinds : List Token.Kind) (cause : String → Cause)
    (hk : .endOfInput ∉ kinds) :
    Accepts (nameOf kinds cause) fun used n =>
      ∃ t, used = [t] ∧ t.kind ∈ kinds ∧ n = .identifier t.value := by
  intro ts rest n h
  rw [nameOf, bind_of_ok (current_run ts)] at h
  split at h
  · rename_i hkind
    obtain ⟨t, mid, rfl, -⟩ := eq_cons_of_front fun he => hk (he ▸ hkind)
    rw [bind_of_ok (advance_cons t mid)] at h
    obtain ⟨rfl, rfl⟩ := pure_eq_ok.mp h
    exact ⟨[t], rfl, t, rfl, hkind, rfl⟩
  · cases h

/-- Items are derived up to their closing token, with or without a comma before it. -/
theorem accepts_delimitedFor {i : Item} {p : Parser i.Tree} (hp : Accepts p (Derives (.item i)))
    (rounds : Nat) : Accepts (delimitedFor i.closing p rounds) fun used xs =>
      ∃ ts c, used = ts ++ [c] ∧ c.kind = i.closing ∧ Derives (.items i) ts xs := by
  have hend : i.closing ≠ .endOfInput := by cases i <;> decide
  induction rounds with
  | zero =>
    intro ts rest xs h
    rw [delimitedFor, bind_eq_ok] at h
    obtain ⟨c, mid, he, h⟩ := h
    obtain ⟨rfl, hc⟩ := expect_eq_ok.mp he
    obtain ⟨rfl, rfl⟩ := pure_eq_ok.mp h
    exact ⟨[c], rfl, [], c, rfl, hc, .itemsNil⟩
  | succ rounds ih =>
    intro ts rest xs h
    by_cases hclose : (front ts).kind = i.closing
    · obtain ⟨c, mid, rfl, -⟩ := eq_cons_of_front (hclose ▸ hend)
      rw [delimitedFor_close (t := c) hclose] at h
      cases h
      exact ⟨[c], rfl, [], c, rfl, hclose, .itemsNil⟩
    rw [delimitedFor, bind_of_ok (current_run ts), if_neg hclose, bind_of_ok (atEnd_run ts)] at h
    split at h
    · rw [bind_of_error (failHere_run _ ts)] at h
      cases h
    rw [bind_eq_ok] at h
    obtain ⟨x, mid, hrun, h⟩ := h
    obtain ⟨us, rfl, hx⟩ := hp hrun
    rw [bind_of_ok (current_run mid)] at h
    dsimp only at h
    split at h
    · -- a comma, and more items or none
      rename_i hcomma
      obtain ⟨c, mid, rfl, -⟩ := eq_cons_of_front (by rw [hcomma]; decide)
      rw [bind_of_ok (advance_cons c mid), bind_eq_ok] at h
      obtain ⟨ys, mid', hys, h⟩ := h
      obtain ⟨rfl, rfl⟩ := pure_eq_ok.mp h
      obtain ⟨-, rfl, vs, e, rfl, he, hvs⟩ := ih hys
      exact ⟨us ++ c :: (vs ++ [e]), by simp, us ++ c :: vs, e, by simp, he,
        .itemsMore hx hcomma hvs⟩
    split at h
    · rw [bind_of_error (failHere_run _ mid)] at h
      cases h
    · -- the closing bracket: the next round takes it
      rename_i hlast
      replace hlast := Decidable.of_not_not hlast
      obtain ⟨c, mid, rfl, -⟩ := eq_cons_of_front (hlast ▸ hend)
      rw [bind_of_ok (delimitedFor_close (t := c) hlast p rounds mid)] at h
      obtain ⟨rfl, rfl⟩ := pure_eq_ok.mp h
      exact ⟨us ++ [c], by simp, us, c, rfl, hlast, .itemsLast hx⟩

/-- The pieces up to a tag that ends them are a body. -/
theorem accepts_piecesFor {p : Parser Node} (hp : Accepts p (Derives .piece))
    (ends : List Token.Kind) (missing : Token.Kind) (rounds : Nat) :
    Accepts (piecesFor ends missing p rounds) (Derives .body) := by
  induction rounds with
  | zero => exact accepts_nothing fun ts => ⟨_, ts, failHere_run _ ts⟩
  | succ rounds ih =>
    intro ts rest ns h
    rw [piecesFor, bind_of_ok (remaining_run ts)] at h
    split at h
    · obtain ⟨rfl, rfl⟩ := pure_eq_ok.mp h
      exact ⟨[], rfl, .bodyNil⟩
    rw [bind_of_ok (atEnd_run ts)] at h
    split at h
    · rw [bind_of_error (failHere_run _ ts)] at h
      cases h
    simp only [bind_eq_ok] at h
    obtain ⟨n, mid, hpiece, ms, mid', hmore, h⟩ := h
    obtain ⟨rfl, rfl⟩ := pure_eq_ok.mp h
    obtain ⟨us, rfl, hn⟩ := hp hpiece
    obtain ⟨vs, rfl, hms⟩ := ih hmore
    exact ⟨us ++ vs, (List.append_assoc ..).symm, .bodyMore hn hms⟩

/-- The pieces up to the end of the input are a body. -/
theorem accepts_allFor {p : Parser Node} (hp : Accepts p (Derives .piece)) (rounds : Nat) :
    Accepts (allFor p rounds) (Derives .body) := by
  induction rounds with
  | zero =>
    intro ts rest ns h
    obtain ⟨rfl, rfl⟩ := pure_eq_ok.mp h
    exact ⟨[], rfl, .bodyNil⟩
  | succ rounds ih =>
    intro ts rest ns h
    rw [allFor, bind_of_ok (atEnd_run ts)] at h
    split at h
    · obtain ⟨rfl, rfl⟩ := pure_eq_ok.mp h
      exact ⟨[], rfl, .bodyNil⟩
    simp only [bind_eq_ok] at h
    obtain ⟨n, mid, hpiece, ms, mid', hmore, h⟩ := h
    obtain ⟨rfl, rfl⟩ := pure_eq_ok.mp h
    obtain ⟨us, rfl, hn⟩ := hp hpiece
    obtain ⟨vs, rfl, hms⟩ := ih hmore
    exact ⟨us ++ vs, (List.append_assoc ..).symm, .bodyMore hn hms⟩

/-- The parts between brackets, as they are collected: an index if no colon came. -/
def Collected (used : List Token) (parts : Subscript) : Prop :=
  match parts.beforeColons, parts.last with
  | [], none => used = []
  | [], some n => Derives (.level .expression) used n
  | before, last => Derives .slice used (before ++ (last.map some).toList)

/-- A part with its colon in front of what is collected. -/
theorem Collected.cons {us used : List Token} {c : Token} {part : Option Node}
    {parts : Subscript} (hpart : Derives .part us part) (hc : c.kind = .colon)
    (h : Collected used parts) :
    Collected (us ++ c :: used) { parts with beforeColons := part :: parts.beforeColons } := by
  obtain ⟨before, last⟩ := parts
  unfold Collected at *
  match before, last, h with
  | [], none, h => subst h; exact .sliceEnd hpart hc
  | [], some n, h => exact .sliceLast hpart hc h
  | _ :: _, _, h => exact .sliceMore hpart hc h

/-- Parts are collected as the grammar lines them up, each with its colon. -/
theorem accepts_subscriptFor {p : Parser Node} (hp : Accepts p (Derives (.level .expression)))
    (rounds : Nat) : Accepts (subscriptFor p rounds) Collected := by
  induction rounds with
  | zero => exact accepts_nothing fun ts => ⟨_, ts, failHere_run _ ts⟩
  | succ rounds ih =>
    intro ts rest parts h
    rw [subscriptFor, bind_of_ok (current_run ts)] at h
    dsimp only at h
    split at h
    · obtain ⟨rfl, rfl⟩ := pure_eq_ok.mp h
      exact ⟨[], rfl, rfl⟩
    rw [bind_of_ok (atEnd_run ts)] at h
    split at h
    · rw [bind_of_error (failHere_run _ ts)] at h
      cases h
    split at h
    · -- a colon at once
      rename_i hc
      obtain ⟨c, mid, rfl, -⟩ := eq_cons_of_front (by rw [hc]; decide)
      rw [bind_of_ok (advance_cons c mid), bind_eq_ok] at h
      obtain ⟨later, mid', hl, h⟩ := h
      obtain ⟨rfl, rfl⟩ := pure_eq_ok.mp h
      obtain ⟨us, rfl, hus⟩ := ih hl
      exact ⟨c :: us, rfl, hus.cons .absent hc⟩
    rw [bind_eq_ok] at h
    obtain ⟨n, mid, hrun, h⟩ := h
    obtain ⟨us, rfl, hn⟩ := hp hrun
    rw [bind_of_ok (current_run mid)] at h
    split at h
    · -- an expression and a colon
      rename_i hc
      obtain ⟨c, mid, rfl, -⟩ := eq_cons_of_front (by rw [hc]; decide)
      rw [bind_of_ok (advance_cons c mid), bind_eq_ok] at h
      obtain ⟨later, mid', hl, h⟩ := h
      obtain ⟨rfl, rfl⟩ := pure_eq_ok.mp h
      obtain ⟨vs, rfl, hvs⟩ := ih hl
      exact ⟨us ++ c :: vs, by simp, hvs.cons (.present hn) hc⟩
    split at h
    · obtain ⟨rfl, rfl⟩ := pure_eq_ok.mp h
      exact ⟨us, rfl, hn⟩
    · rw [failHere_run] at h
      cases h

/-- Collected parts are an index when there is one and no colon, and a slice when there are three at
most. -/
theorem accepts_subscript {p : Parser Node} (hp : Accepts p (Derives (.level .expression))) :
    Accepts (subscript p) (Derives .index) := by
  intro ts rest n h
  rw [subscript, bind_of_ok (remaining_run ts), bind_eq_ok] at h
  obtain ⟨⟨before, last⟩, mid, hparts, h⟩ := h
  obtain ⟨used, rfl, hused⟩ := accepts_subscriptFor hp _ hparts
  refine ⟨used, ?_⟩
  unfold Collected at hused
  match before, last, hused, h with
  | [], none, _, h => rw [failHere_run] at h; cases h
  | [], some n, hused, h =>
    obtain ⟨rfl, rfl⟩ := pure_eq_ok.mp h
    exact ⟨rfl, .index hused⟩
  | b :: before, last, hused, h =>
    dsimp only at h hused
    have sliced {parts : List (Option Node)} (heq : b :: before ++ (last.map some).toList = parts)
        (hlength : parts.length ≤ 3) (h : (pure (sliceOf parts) : Parser Node).run mid = .ok n rest) :
        used ++ mid = used ++ rest ∧ Derives .index used n := by
      obtain ⟨rfl, rfl⟩ := pure_eq_ok.mp h
      exact ⟨rfl, .slice (heq ▸ hused) hlength⟩
    split at h
    · rename_i heq
      exact sliced heq (by simp) h
    · rename_i heq
      exact sliced heq (by simp) h
    · rename_i heq
      exact sliced heq (by simp) h
    · rw [failHere_run] at h
      cases h

/-! ### Steps -/

variable {d : Nat}

/-- An operator of the level and an operand of the next tighter one go on with a row of the level.
-/
theorem keeps_infixStep {l m : Level} (hm : l.tighter? = some m)
    (hoperand : Accepts (m.parser d) (Derives (.level m))) :
    Keeps (infixStep l.joins (m.parser d)) (Derives (.level l)) := by
  intro used ts rest node next p hused hp h
  unfold infixStep at hp
  split at hp <;> cases hp
  rename_i hjoins
  obtain ⟨o, mid, rfl, -⟩ := eq_cons_of_front fun he => by
    rw [he] at hjoins
    cases l <;> cases hjoins
  rw [bind_of_ok (advance_cons o mid), bind_eq_ok] at h
  obtain ⟨right, mid', hrun, h⟩ := h
  obtain ⟨us, rfl, hright⟩ := hoperand hrun
  obtain ⟨rfl, rfl⟩ := pure_eq_ok.mp h
  exact ⟨o :: us, rfl, .operator hm hused hjoins hright⟩

/-- Further arguments are put behind what has been called already. -/
theorem keeps_callStep (hs : Sound d) {Q : List Token → Node → Prop} (hQ : Callable Q) :
    Keeps (callStep d) Q := by
  intro used ts rest node next p hused hp h
  unfold callStep at hp
  split at hp <;> cases hp
  rw [bind_eq_ok] at h
  obtain ⟨args, mid, hrun, h⟩ := h
  obtain ⟨us, rfl, hargs⟩ := hs.arguments hrun
  obtain ⟨rfl, rfl⟩ := pure_eq_ok.mp h
  exact ⟨us, rfl, hQ hused hargs⟩

/-- A member or a call goes on with a chain. -/
theorem keeps_chainStep (hs : Sound d) : Keeps (chainStep d) (Derives (.level .chained)) := by
  intro used ts rest node next p hused hp h
  unfold chainStep at hp
  split at hp <;> cases hp
  · exact hs.member hused (.inl ‹_›) h
  · exact hs.member hused (.inr ‹_›) h
  · exact hs.call .call hused h

/-- A name behind a mark, and all its calls. -/
theorem accepts_applied (hs : Sound d) (kinds : List Token.Kind) (cause : String → Cause)
    (hk : .endOfInput ∉ kinds) :
    Accepts (nameOf kinds cause >>= Parser.applied d) (Derives (.applied kinds)) := by
  intro ts rest n h
  rw [bind_eq_ok] at h
  obtain ⟨name, mid, hname, h⟩ := h
  obtain ⟨-, rfl, t, rfl, ht, rfl⟩ := accepts_nameOf kinds cause hk hname
  obtain ⟨us, rfl, hus⟩ := hs.applied (Q := Derives (.applied kinds)) .applied (.name ht) h
  exact ⟨t :: us, rfl, hus⟩

/-- A bar and a filter go on with what is filtered. -/
theorem keeps_filterStep (hs : Sound d) : Keeps (filterStep d) (Derives (.level .filtered)) := by
  intro used ts rest node next p hused hp h
  unfold filterStep at hp
  split at hp <;> cases hp
  rename_i hpipe
  obtain ⟨o, mid, rfl, -⟩ := eq_cons_of_front (by rw [hpipe]; decide)
  rw [bind_of_ok (advance_cons o mid), ← bind_assoc_run, bind_eq_ok] at h
  obtain ⟨f, mid', hf, h⟩ := h
  obtain ⟨us, rfl, hus⟩ := accepts_applied hs _ _ (by decide) hf
  obtain ⟨rfl, rfl⟩ := pure_eq_ok.mp h
  exact ⟨o :: us, rfl, .filter hused hpipe hus⟩

/-- `is` and a test go on with what is tested; a `not` is part of the test. -/
theorem keeps_testStep (hs : Sound d) : Keeps (testStep d) (Derives (.level .tested)) := by
  intro used ts rest node next p hused hp h
  unfold testStep at hp
  split at hp <;> cases hp
  rename_i his
  obtain ⟨i, mid, rfl, -⟩ := eq_cons_of_front (by rw [his]; decide)
  rw [bind_of_ok (advance_cons i mid), bind_of_ok (current_run mid)] at h
  simp only [decide_eq_true_eq] at h
  split at h
  · rename_i hnot
    obtain ⟨o, mid, rfl, -⟩ := eq_cons_of_front (by rw [hnot]; decide)
    rw [bind_of_ok (advance_cons o mid), ← bind_assoc_run, bind_eq_ok] at h
    obtain ⟨f, mid', hf, h⟩ := h
    obtain ⟨us, rfl, hus⟩ := accepts_applied hs _ _ (by decide) hf
    obtain ⟨rfl, rfl⟩ := pure_eq_ok.mp h
    simp only [hnot, decide_true]
    exact ⟨i :: o :: us, rfl, .testNot hused his hnot hus⟩
  · rename_i hnot
    rw [← bind_assoc_run, bind_eq_ok] at h
    obtain ⟨f, mid', hf, h⟩ := h
    obtain ⟨us, rfl, hus⟩ := accepts_applied hs _ _ (by decide) hf
    obtain ⟨rfl, rfl⟩ := pure_eq_ok.mp h
    simp only [hnot, decide_false]
    exact ⟨i :: us, rfl, .test hused his hus⟩

/-! ### Rules, one depth further -/

/-- A conditional expression is derived as such when its `if` has been taken, and as a disjunction
otherwise. -/
theorem expression_sound (hs : Sound d) :
    Accepts (Parser.expression (d + 1)) (Derives (.level .expression)) := by
  intro ts rest n h
  rw [Parser.expression, bind_eq_ok] at h
  obtain ⟨value, mid, hrun, h⟩ := h
  obtain ⟨us, rfl, hvalue⟩ := hs.level .disjunction hrun
  rw [bind_of_ok (current_run mid)] at h
  split at h
  · rename_i hif
    obtain ⟨i, mid, rfl, -⟩ := eq_cons_of_front (by rw [hif]; decide)
    rw [bind_of_ok (advance_cons i mid)] at h
    simp only [bind_eq_ok, expect_eq_ok] at h
    obtain ⟨test, mid, hrun, e, mid', ⟨rfl, he⟩, other, mid'', hrun', h⟩ := h
    obtain ⟨rfl, rfl⟩ := pure_eq_ok.mp h
    obtain ⟨vs, rfl, htest⟩ := hs.level .disjunction hrun
    obtain ⟨ws, rfl, hother⟩ := hs.level .disjunction hrun'
    exact ⟨us ++ i :: (vs ++ e :: ws), by simp, .inline hvalue hif htest he hother⟩
  · obtain ⟨rfl, rfl⟩ := pure_eq_ok.mp h
    exact ⟨us, rfl, .tighter rfl hvalue⟩

theorem negation_sound (hs : Sound d) :
    Accepts (Parser.negation (d + 1)) (Derives (.level .negation)) := by
  intro ts rest n h
  rw [Parser.negation, bind_of_ok (current_run ts)] at h
  split at h
  · rename_i hnot
    obtain ⟨o, mid, rfl, -⟩ := eq_cons_of_front (by rw [hnot]; decide)
    rw [bind_of_ok (advance_cons o mid), bind_eq_ok] at h
    obtain ⟨x, mid', hrun, h⟩ := h
    obtain ⟨rfl, rfl⟩ := pure_eq_ok.mp h
    obtain ⟨us, rfl, hx⟩ := hs.level .negation hrun
    exact ⟨o :: us, rfl, .not hnot hx⟩
  · obtain ⟨us, rfl, hus⟩ := hs.level .comparison h
    exact ⟨us, rfl, .tighter rfl hus⟩

/-- What is accepted between brackets is derived with the opening one in front. -/
theorem accepts_delimited (i : Item) {p : Parser i.Tree} (hp : Accepts p (Derives (.item i)))
    {o : Token} (ho : o.kind = i.opening) :
    Accepts (delimited i.closing p) fun used xs => Derives (.enclosed i) (o :: used) xs := by
  intro ts rest xs h
  rw [delimited, bind_of_ok (remaining_run ts)] at h
  obtain ⟨-, rfl, us, c, rfl, hc, hus⟩ := accepts_delimitedFor hp _ h
  exact ⟨us ++ [c], rfl, .enclosed ho hus hc⟩

/-- A primary is derived in the case of its first token, which tells them all apart. -/
theorem primary_sound (hs : Sound d) :
    Accepts (Parser.primary (d + 1)) (Derives (.level .primary)) := by
  intro ts rest n h
  rw [Parser.primary, bind_of_ok (current_run ts), bind_of_ok (atEnd_run ts)] at h
  dsimp only at h
  cases ts with
  | nil =>
    rw [List.isEmpty_nil, if_pos rfl, bind_of_error (fail_run _ _ _)] at h
    cases h
  | cons t ts =>
  rw [List.isEmpty_cons, if_neg Bool.false_ne_true, front_cons] at h
  -- the kinds that begin no primary fail at once; the others are the named cases
  cases hk : t.kind <;> rw [hk] at h <;> try (rw [fail_run] at h; cases h)
  case number =>
    rw [bind_of_ok (advance_cons t ts)] at h
    cases hv : Numeral.read t.value <;> rw [hv] at h
    · cases h
    · obtain ⟨rfl, rfl⟩ := pure_eq_ok.mp h
      exact ⟨[t], rfl, .number hk hv⟩
  case string =>
    rw [bind_of_ok (advance_cons t ts)] at h
    obtain ⟨rfl, rfl⟩ := pure_eq_ok.mp h
    exact ⟨[t], rfl, .string hk⟩
  case boolean =>
    rw [bind_of_ok (advance_cons t ts)] at h
    obtain ⟨rfl, rfl⟩ := pure_eq_ok.mp h
    exact ⟨[t], rfl, .boolean hk⟩
  case identifier =>
    rw [bind_of_ok (advance_cons t ts)] at h
    obtain ⟨rfl, rfl⟩ := pure_eq_ok.mp h
    exact ⟨[t], rfl, .identifier hk⟩
  case leftParen =>
    rw [bind_of_ok (advance_cons t ts)] at h
    simp only [bind_eq_ok, expect_eq_ok] at h
    obtain ⟨x, mid, hx, c, mid', ⟨rfl, hc⟩, h⟩ := h
    obtain ⟨rfl, rfl⟩ := pure_eq_ok.mp h
    obtain ⟨us, rfl, hus⟩ := hs.level .expression hx
    exact ⟨t :: (us ++ [c]), by simp, .parenthesis hk hus hc⟩
  case leftBracket =>
    rw [bind_of_ok (advance_cons t ts), bind_eq_ok] at h
    obtain ⟨xs, mid, hxs, h⟩ := h
    obtain ⟨rfl, rfl⟩ := pure_eq_ok.mp h
    obtain ⟨us, rfl, hus⟩ := accepts_delimited .element (fun _ _ _ h => by
      obtain ⟨us, he, hus⟩ := hs.level .expression h
      exact ⟨us, he, .element hus⟩) hk hxs
    exact ⟨t :: us, rfl, .array hus⟩
  case leftBrace =>
    rw [bind_of_ok (advance_cons t ts), bind_eq_ok] at h
    obtain ⟨xs, mid, hxs, h⟩ := h
    obtain ⟨rfl, rfl⟩ := pure_eq_ok.mp h
    obtain ⟨us, rfl, hus⟩ := accepts_delimited .entry hs.entry hk hxs
    exact ⟨t :: us, rfl, .object hus⟩

/-- A name behind a dot, or an index in brackets, is derived with the object before it. -/
theorem member_sound (hs : Sound d) {used : List Token} {object : Node}
    (hused : Derives (.level .chained) used object) {ts rest : List Token} {n : Node}
    (hk : (front ts).kind = .dot ∨ (front ts).kind = .leftBracket)
    (h : (Parser.member (d + 1) object).run ts = .ok n rest) :
    ∃ more, ts = more ++ rest ∧ Derives (.level .chained) (used ++ more) n := by
  have hend : (front ts).kind ≠ .endOfInput := by rcases hk with hk | hk <;> rw [hk] <;> decide
  obtain ⟨o, mid, rfl, -⟩ := eq_cons_of_front hend
  rw [Parser.member, bind_of_ok (advance_cons o mid)] at h
  split at h
  · rename_i hdot
    rw [bind_eq_ok] at h
    obtain ⟨name, mid', hname, h⟩ := h
    obtain ⟨-, rfl, t, rfl, ht, rfl⟩ := accepts_nameOf _ _ (by decide) hname
    obtain ⟨rfl, rfl⟩ := pure_eq_ok.mp h
    exact ⟨[o, t], rfl, .property hused hdot (by simpa using ht)⟩
  · rename_i hdot
    simp only [bind_eq_ok, expect_eq_ok] at h
    obtain ⟨p, mid', hp, c, mid'', ⟨rfl, hc⟩, h⟩ := h
    obtain ⟨rfl, rfl⟩ := pure_eq_ok.mp h
    obtain ⟨us, rfl, hus⟩ := hs.index hp
    exact ⟨o :: (us ++ [c]), by simp, .subscript hused (hk.resolve_left hdot) hus hc⟩

/-- Arguments behind a callee are derived with whatever the callee was derived from. -/
theorem call_sound (hs : Sound d) {Q : List Token → Node → Prop} {used : List Token}
    {callee : Node} (hQ : Callable Q) (hused : Q used callee) :
    Accepts (Parser.call (d + 1) callee) fun more => Q (used ++ more) := by
  rw [Parser.call]
  refine accepts_extend (fun ts rest n h => ?_) fun more ts rest node next p hmore hp h => ?_
  · rw [bind_eq_ok] at h
    obtain ⟨args, mid, hrun, h⟩ := h
    obtain ⟨us, rfl, hargs⟩ := hs.arguments hrun
    obtain ⟨rfl, rfl⟩ := pure_eq_ok.mp h
    exact ⟨us, rfl, hQ hused hargs⟩
  · obtain ⟨us, rfl, hus⟩ := keeps_callStep hs hQ hmore hp h
    exact ⟨us, rfl, by rwa [← List.append_assoc]⟩

/-- The name of a filter or test is derived alone, or called when a parenthesis follows. -/
theorem applied_sound (hs : Sound d) {Q : List Token → Node → Prop} {used : List Token}
    {name : Node} (hQ : Callable Q) (hused : Q used name) :
    Accepts (Parser.applied (d + 1) name) fun more => Q (used ++ more) := by
  intro ts rest n h
  rw [Parser.applied, bind_of_ok (current_run ts)] at h
  split at h
  · exact hs.call hQ hused h
  · obtain ⟨rfl, rfl⟩ := pure_eq_ok.mp h
    exact ⟨[], rfl, show Q (used ++ []) name by rwa [List.append_nil]⟩

/-- A keyword argument is derived when what stands before the sign has turned out to be a name. -/
theorem argument_sound (hs : Sound d) :
    Accepts (Parser.argument (d + 1)) (Derives (.item .argument)) := by
  intro ts rest n h
  rw [Parser.argument, bind_of_ok (current_run ts), bind_eq_ok] at h
  obtain ⟨k, mid, hrun, h⟩ := h
  obtain ⟨us, rfl, hus⟩ := hs.level .expression hrun
  rw [bind_of_ok (current_run mid)] at h
  split at h
  · rename_i heq
    obtain ⟨e, mid, rfl, -⟩ := eq_cons_of_front (by rw [heq]; decide)
    rw [bind_of_ok (advance_cons e mid)] at h
    cases k with
    | identifier name =>
      rw [if_pos (by rfl), bind_eq_ok] at h
      obtain ⟨v, mid', hv, h⟩ := h
      obtain ⟨rfl, rfl⟩ := pure_eq_ok.mp h
      obtain ⟨vs, rfl, hvs⟩ := hs.level .expression hv
      exact ⟨us ++ e :: vs, by simp, .keyword hus heq hvs⟩
    | _ => rw [if_neg (by simp [Node.isIdentifier]), fail_run] at h; cases h
  · obtain ⟨rfl, rfl⟩ := pure_eq_ok.mp h
    exact ⟨us, rfl, .positional hus⟩

theorem entry_sound (hs : Sound d) :
    Accepts (Parser.entry (d + 1)) (Derives (.item .entry)) := by
  intro ts rest n h
  rw [Parser.entry] at h
  simp only [bind_eq_ok, expect_eq_ok] at h
  obtain ⟨k, mid, hk, c, mid', ⟨rfl, hc⟩, v, mid'', hv, h⟩ := h
  obtain ⟨rfl, rfl⟩ := pure_eq_ok.mp h
  obtain ⟨us, rfl, hus⟩ := hs.level .expression hk
  obtain ⟨vs, rfl, hvs⟩ := hs.level .expression hv
  exact ⟨us ++ c :: vs, by simp, .entry hus hc hvs⟩

/-- Text, outputs and statements are the pieces. -/
theorem piece_sound (hs : Sound d) : Accepts (Parser.piece (d + 1)) (Derives .piece) := by
  intro ts rest n h
  rw [Parser.piece, bind_of_ok (current_run ts)] at h
  cases hk : (front ts).kind <;> rw [hk] at h <;> try (rw [fail_run] at h; cases h)
  case text =>
    obtain ⟨t, mid, rfl, -⟩ := eq_cons_of_front (by rw [hk]; decide)
    rw [bind_of_ok (advance_cons t mid)] at h
    obtain ⟨rfl, rfl⟩ := pure_eq_ok.mp h
    exact ⟨[t], rfl, .text hk⟩
  case openStatement => exact hs.statement h
  case openExpression => exact hs.output h

theorem output_sound (hs : Sound d) : Accepts (Parser.output (d + 1)) (Derives .piece) := by
  intro ts rest n h
  rw [Parser.output] at h
  simp only [bind_eq_ok, expect_eq_ok] at h
  obtain ⟨o, mid, ⟨rfl, ho⟩, x, mid', hx, c, mid'', ⟨rfl, hc⟩, h⟩ := h
  obtain ⟨rfl, rfl⟩ := pure_eq_ok.mp h
  obtain ⟨us, rfl, hus⟩ := hs.level .expression hx
  exact ⟨o :: (us ++ [c]), by simp, .output ho hus hc⟩

/-- The tag that ends a block. -/
theorem endTag_eq_ok {keyword : Token.Kind} {ts rest : List Token} {u : Unit}
    (h : (endTag keyword).run ts = .ok u rest) : ∃ o w c, ts = o :: w :: c :: rest ∧
      o.kind = .openStatement ∧ w.kind = keyword ∧ c.kind = .closeStatement := by
  rw [endTag] at h
  simp only [bind_eq_ok, expect_eq_ok] at h
  obtain ⟨o, mid, ⟨rfl, ho⟩, w, mid', ⟨rfl, hw⟩, c, mid'', ⟨rfl, hc⟩, h⟩ := h
  obtain ⟨-, rfl⟩ := pure_eq_ok.mp h
  exact ⟨o, w, c, rfl, ho, hw, hc⟩

/-- Each keyword of a statement leads to the rule of its form, whose tokens are derived with the tag
around them. -/
theorem statement_sound (hs : Sound d) : Accepts (Parser.statement (d + 1)) (Derives .piece) := by
  intro ts rest n h
  rw [Parser.statement, bind_eq_ok] at h
  obtain ⟨o, mid, hopen, h⟩ := h
  obtain ⟨rfl, ho⟩ := expect_eq_ok.mp hopen
  rw [bind_of_ok (current_run mid)] at h
  cases hk : (front mid).kind <;> rw [hk] at h <;> try (rw [fail_run] at h; cases h)
  case kwSet =>
    obtain ⟨w, mid, rfl, -⟩ := eq_cons_of_front (by rw [hk]; decide)
    rw [bind_of_ok (advance_cons w mid)] at h
    simp only [bind_eq_ok, expect_eq_ok] at h
    obtain ⟨x, mid', hx, c, mid'', ⟨rfl, hc⟩, h⟩ := h
    obtain ⟨rfl, rfl⟩ := pure_eq_ok.mp h
    obtain ⟨us, rfl, hus⟩ := hs.assignment hx
    exact ⟨o :: w :: (us ++ [c]), by simp, .set ho hk hus hc⟩
  case kwIf =>
    obtain ⟨w, mid, rfl, -⟩ := eq_cons_of_front (by rw [hk]; decide)
    rw [bind_of_ok (advance_cons w mid)] at h
    simp only [bind_eq_ok] at h
    obtain ⟨x, mid', hx, u, mid'', hend, h⟩ := h
    obtain ⟨rfl, rfl⟩ := pure_eq_ok.mp h
    obtain ⟨o', w', c, rfl, ho', hw', hc⟩ := endTag_eq_ok hend
    obtain ⟨us, rfl, hus⟩ := hs.branches hx
    exact ⟨o :: w :: (us ++ [o', w', c]), by simp, .conditional ho hk hus ho' hw' hc⟩
  case kwFor =>
    obtain ⟨w, mid, rfl, -⟩ := eq_cons_of_front (by rw [hk]; decide)
    rw [bind_of_ok (advance_cons w mid)] at h
    simp only [bind_eq_ok] at h
    obtain ⟨x, mid', hx, u, mid'', hend, h⟩ := h
    obtain ⟨rfl, rfl⟩ := pure_eq_ok.mp h
    obtain ⟨o', w', c, rfl, ho', hw', hc⟩ := endTag_eq_ok hend
    obtain ⟨us, rfl, hus⟩ := hs.loop hx
    exact ⟨o :: w :: (us ++ [o', w', c]), by simp, hus ho hk ho' hw' hc⟩

/-- An assignment is derived from the right; an expression alone is one as well. -/
theorem assignment_sound (hs : Sound d) :
    Accepts (Parser.assignment (d + 1)) (Derives .assignment) := by
  intro ts rest n h
  rw [Parser.assignment, bind_eq_ok] at h
  obtain ⟨target, mid, hrun, h⟩ := h
  obtain ⟨us, rfl, hus⟩ := hs.level .expression hrun
  rw [bind_of_ok (current_run mid)] at h
  split at h
  · rename_i heq
    obtain ⟨e, mid, rfl, -⟩ := eq_cons_of_front (by rw [heq]; decide)
    rw [bind_of_ok (advance_cons e mid), bind_eq_ok] at h
    obtain ⟨v, mid', hv, h⟩ := h
    obtain ⟨rfl, rfl⟩ := pure_eq_ok.mp h
    obtain ⟨vs, rfl, hvs⟩ := hs.assignment hv
    exact ⟨us ++ e :: vs, by simp, .assign hus heq hvs⟩
  · obtain ⟨rfl, rfl⟩ := pure_eq_ok.mp h
    exact ⟨us, rfl, .plain hus⟩

theorem accepts_pieces (hs : Sound d) (ends : List Token.Kind) (missing : Token.Kind) :
    Accepts (pieces ends missing (Parser.piece d)) (Derives .body) := by
  intro ts rest ns h
  rw [pieces, bind_of_ok (remaining_run ts)] at h
  exact accepts_piecesFor hs.piece _ _ _ h

/-- The branches are derived with the tag that goes on with them, or without one. -/
theorem branches_sound (hs : Sound d) :
    Accepts (Parser.branches (d + 1)) (Derives .branches) := by
  intro ts rest n h
  rw [Parser.branches] at h
  simp only [bind_eq_ok, expect_eq_ok] at h
  obtain ⟨test, mid, hrun, c, mid', ⟨rfl, hc⟩, body, mid, hbody, h⟩ := h
  obtain ⟨us, rfl, htest⟩ := hs.level .expression hrun
  obtain ⟨vs, rfl, hvs⟩ := accepts_pieces hs _ _ hbody
  obtain ⟨b, mid', hsees, h⟩ := h
  cases hsees
  split at h
  · rename_i helif
    obtain ⟨o, w, mid, rfl, ho, hw⟩ := beginsWith_pair helif
    rw [bind_of_ok (advance_cons o _), bind_of_ok (advance_cons w mid), bind_eq_ok] at h
    obtain ⟨other, mid', hother, h⟩ := h
    obtain ⟨rfl, rfl⟩ := pure_eq_ok.mp h
    obtain ⟨ws, rfl, hws⟩ := hs.branches hother
    exact ⟨us ++ c :: (vs ++ o :: w :: ws), by simp, .elseIf htest hc hvs ho hw hws⟩
  rw [bind_of_ok (sees_run _ mid)] at h
  split at h
  · rename_i helse
    obtain ⟨o, w, mid, rfl, ho, hw⟩ := beginsWith_pair helse
    rw [bind_of_ok (advance_cons o _), bind_of_ok (advance_cons w mid)] at h
    simp only [bind_eq_ok, expect_eq_ok] at h
    obtain ⟨c', mid', ⟨rfl, hc'⟩, other, mid'', hother, h⟩ := h
    obtain ⟨rfl, rfl⟩ := pure_eq_ok.mp h
    obtain ⟨ws, rfl, hws⟩ := accepts_pieces hs _ _ hother
    exact ⟨us ++ c :: (vs ++ o :: w :: c' :: ws), by simp, .elseBody htest hc hvs ho hw hc' hws⟩
  · obtain ⟨rfl, rfl⟩ := pure_eq_ok.mp h
    exact ⟨us ++ c :: vs, by simp, .noElse htest hc hvs⟩

/-- A loop is derived once the tag before it and the one behind it are put around what it has taken.
-/
theorem loop_sound (hs : Sound d) :
    Accepts (Parser.loop (d + 1)) fun used n => ∀ {o w o' w' c : Token},
      o.kind = .openStatement → w.kind = .kwFor → o'.kind = .openStatement →
      w'.kind = .kwEndfor → c.kind = .closeStatement →
      Derives .piece (o :: w :: (used ++ [o', w', c])) n := by
  intro ts rest n h
  rw [Parser.loop, bind_of_ok (current_run ts), bind_eq_ok] at h
  obtain ⟨target, mid, hrun, h⟩ := h
  obtain ⟨us, rfl, htarget⟩ := hs.level .chained hrun
  cases target with
  | identifier v =>
    rw [if_pos (by rfl)] at h
    simp only [bind_eq_ok, expect_eq_ok] at h
    obtain ⟨i, mid', ⟨rfl, hi⟩, iterable, mid, hiter, c, mid', ⟨rfl, hc⟩, body, mid'', hbody, h⟩ := h
    obtain ⟨rfl, rfl⟩ := pure_eq_ok.mp h
    obtain ⟨vs, rfl, hvs⟩ := hs.level .expression hiter
    obtain ⟨ws, rfl, hws⟩ := accepts_pieces hs _ _ hbody
    refine ⟨us ++ i :: (vs ++ c :: ws), by simp, fun ho hw ho' hw' hc' => ?_⟩
    have hloop := Derives.loop ho hw htarget hi hvs hc hws ho' hw' hc'
    simpa only [List.append_assoc, List.cons_append] using hloop
  | _ => rw [if_neg (by simp [Node.isIdentifier]), fail_run] at h; cases h

theorem level_sound (hs : Sound d) (l : Level) :
    Accepts (l.parser (d + 1)) (Derives (.level l)) := by
  have operand {l m : Level} (hm : l.tighter? = some m) :
      Accepts (m.parser d) (Derives (.level l)) := fun _ _ _ h =>
    (hs.level m h).imp fun _ h => ⟨h.1, .tighter hm h.2⟩
  have infixed {l m : Level} (hm : l.tighter? = some m) :
      Accepts (extend (infixStep l.joins (m.parser d)) (m.parser d)) (Derives (.level l)) :=
    accepts_extend (operand hm) (keeps_infixStep hm (hs.level m))
  cases l with
  | expression => exact expression_sound hs
  | disjunction => exact infixed (l := .disjunction) rfl
  | conjunction => exact infixed (l := .conjunction) rfl
  | negation => exact negation_sound hs
  | comparison => exact infixed (l := .comparison) rfl
  | sum => exact infixed (l := .sum) rfl
  | product => exact infixed (l := .product) rfl
  | tested => exact accepts_extend (operand (m := .filtered) rfl) (keeps_testStep hs)
  | filtered => exact accepts_extend (operand (m := .chained) rfl) (keeps_filterStep hs)
  | chained => exact accepts_extend (operand (m := .primary) rfl) (keeps_chainStep hs)
  | primary => exact primary_sound hs

/-- One more level of nesting: each rule takes what is derived when those within it do. -/
theorem sound_succ (hs : Sound d) : Sound (d + 1) where
  level := level_sound hs
  applied := applied_sound hs
  member := fun hused hk h => member_sound hs hused hk h
  index := by
    rw [Parser.index]
    exact accepts_subscript (hs.level .expression)
  call := call_sound hs
  arguments := by
    intro ts rest args h
    rw [Parser.arguments, bind_eq_ok] at h
    obtain ⟨o, mid, hopen, h⟩ := h
    obtain ⟨rfl, ho⟩ := expect_eq_ok.mp hopen
    obtain ⟨us, rfl, hus⟩ := accepts_delimited .argument hs.argument ho h
    exact ⟨o :: us, rfl, hus⟩
  argument := argument_sound hs
  entry := entry_sound hs
  piece := piece_sound hs
  output := output_sound hs
  statement := statement_sound hs
  assignment := assignment_sound hs
  branches := branches_sound hs
  loop := loop_sound hs

/-- No rule succeeds where none may be entered. -/
theorem sound_zero : Sound 0 := by
  have deep {D : List Token → Node → Prop} : Accepts tooDeep D :=
    accepts_nothing fun ts => ⟨_, ts, failHere_run _ ts⟩
  have hentry : Accepts (do return (← tooDeep, .bare)) (Derives (.item .entry)) :=
    accepts_nothing fun ts => ⟨_, ts, bind_of_error (failHere_run _ ts)⟩
  have harguments : Accepts (do return [← tooDeep]) (Derives (.enclosed .argument)) :=
    accepts_nothing fun ts => ⟨_, ts, bind_of_error (failHere_run _ ts)⟩
  refine { level := fun l => ?_, applied := fun _ _ => deep, member := fun _ _ h => ?_,
           index := deep, call := fun _ _ => deep, arguments := harguments, argument := deep,
           entry := hentry, piece := deep, output := deep, statement := deep,
           assignment := deep, branches := deep, loop := deep }
  · cases l <;> exact deep
  · exact absurd h (by rw [Parser.member, tooDeep, failHere_run]; simp)

/-- **What the parser takes is derived**, by every rule and at every depth. -/
theorem rules_sound : ∀ d, Sound d
  | 0 => sound_zero
  | d + 1 => sound_succ (rules_sound d)

end Stencil.Grammar
