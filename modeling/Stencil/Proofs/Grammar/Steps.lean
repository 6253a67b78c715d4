import Stencil.Proofs.Grammar.Basic
import Stencil.Proofs.Parser.Progress

/-!
# Grammar — the steps of a level

The parser of each level (`Level.parser`), and the steps by which those levels that repeat go on
from a node (`Level.step`).  Six levels are an operand of the next tighter level with steps behind
it (`Level.parser_succ`); a call, and the name of a test or filter, are repetitions as well
(`call_run`, `applied_run`).
-/

namespace Stencil.Grammar
open Stencil.Parser

/-- The parser of a level. -/
def Level.parser {σ : Type} [TokenStream σ] : Level → Nat → ParserOn σ Node
  | expression  => Parser.expression
  | disjunction => Parser.disjunction
  | conjunction => Parser.conjunction
  | negation    => Parser.negation
  | comparison  => Parser.comparison
  | sum         => Parser.sum
  | product     => Parser.product
  | tested      => Parser.tested
  | filtered    => Parser.filtered
  | chained     => Parser.chained
  | primary     => Parser.primary

/-- What all rules have in common, the parsers of all levels have. -/
theorem Level.related {σ τ : Type} [TokenStream σ] [TokenStream τ]
    {R : List Token.Kind → ∀ {α : Type}, ParserOn σ α → ParserOn τ α → Prop} {d e : Nat}
    (h : RulesRelated R d e) (l : Level) : R [] (l.parser d) (l.parser e) := by
  cases l with
  | expression => exact h.expression
  | disjunction => exact h.disjunction
  | conjunction => exact h.conjunction
  | negation => exact h.negation
  | comparison => exact h.comparison
  | sum => exact h.sum
  | product => exact h.product
  | tested => exact h.tested
  | filtered => exact h.filtered
  | chained => exact h.chained
  | primary => exact h.primary

/-- An operator and an operand behind a node. -/
def infixStep (operators : Token.Kind → Bool) (operand : Parser Node) : Steps := fun left kind =>
  if operators kind then
    some do
      let operator ← Parser.advance
      let right ← operand
      return .binary operator.value left right
  else none

/-- A test behind a node. -/
def testStep (d : Nat) : Steps := fun operand kind =>
  if kind = .kwIs then
    some do
      let _ ← Parser.advance
      let negated := decide ((← Parser.current).kind = .kwNot)
      if negated then
        let _ ← Parser.advance
      let name ← Parser.nameOf [.identifier, .boolean] .testName
      return .test operand negated (← Parser.applied d name)
  else none

/-- A filter behind a node. -/
def filterStep (d : Nat) : Steps := fun operand kind =>
  if kind = .pipe then
    some do
      let _ ← Parser.advance
      let name ← Parser.nameOf [.identifier] .filterName
      return .filter operand (← Parser.applied d name)
  else none

/-- What is attached to a node at once. -/
def chainStep (d : Nat) : Steps := fun node kind =>
  match kind with
  | .dot | .leftBracket => some (Parser.member d node)
  | .leftParen => some (Parser.call d node)
  | _ => none

/-- Arguments behind a node. -/
def callStep (d : Nat) : Steps := fun node kind =>
  if kind = .leftParen then some (return .call node (← Parser.arguments d)) else none

/-- The steps of a level that repeats. -/
def Level.step : Level → Nat → Steps
  | disjunction, d => infixStep (disjunction.joins ·) (Parser.conjunction d)
  | conjunction, d => infixStep (conjunction.joins ·) (Parser.negation d)
  | comparison, d  => infixStep (comparison.joins ·) (Parser.sum d)
  | sum, d         => infixStep (sum.joins ·) (Parser.product d)
  | product, d     => infixStep (product.joins ·) (Parser.tested d)
  | tested, d      => testStep d
  | filtered, d    => filterStep d
  | chained, d     => chainStep d
  | _, _           => fun _ _ => none

/-- Does the level repeat steps behind an operand? -/
def Level.repeats : Level → Bool
  | expression | negation | primary => false
  | _ => true

/-- A level that repeats is an operand of the next tighter level with steps behind it. -/
theorem Level.parser_succ {l m : Level} (hl : l.repeats = true) (hm : l.tighter? = some m)
    (d : Nat) : l.parser (d + 1) = extend (l.step d) (m.parser d) := by
  cases l <;> cases hm <;>
    first
    | contradiction
    | rfl

/-- The operator of a level is offered as a step: it is taken, and an operand of the next tighter
level is read. -/
theorem Level.step_of_joins {l m : Level} (hm : l.tighter? = some m) {kind : Token.Kind}
    (hk : l.joins kind = true) (d : Nat) (left : Node) :
    l.step d left kind = some (do
      let operator ← Parser.advance
      let right ← m.parser d
      return .binary operator.value left right) := by
  cases l <;> cases hm <;> exact if_pos hk

/-- A token of a kind that is admitted is taken for its value. -/
theorem nameOf_cons {names : List Token.Kind} {t : Token} (ht : t.kind ∈ names)
    (cause : String → Cause) (rest : List Token) :
    (nameOf names cause).run (t :: rest) = .ok (.identifier t.value) rest := by
  rw [nameOf, bind_of_ok (current_run _), front_cons, if_pos ht, bind_of_ok (advance_cons t rest),
    pure_run]

/-! ### Steps take tokens -/

/-- An operator is taken in every step of its level. -/
theorem advances_infixStep {operators : Token.Kind → Bool} (hend : operators .endOfInput = false)
    {operand : Parser Node} (hoperand : Trims operand) : Advances (infixStep operators operand) where
  endOfInput node := if_neg (by rw [hend]; exact Bool.false_ne_true)
  shorter := by
    intro node p ts rest next hp h
    unfold infixStep at hp
    split at hp <;> cases hp
    rename_i hk
    refine length_lt_of_advance (fun t => ?_) (fun he => by rw [he, hend] at hk; cases hk) h
    exact hoperand.bind fun _ => respects_trims.pure _

/-- `is` is taken in every test. -/
theorem advances_testStep (d : Nat) : Advances (testStep d) where
  endOfInput _ := rfl
  shorter := by
    intro node p ts rest next hp h
    unfold testStep at hp
    split at hp <;> cases hp
    rename_i hk
    refine length_lt_of_advance (fun t => ?_) (by rw [hk]; decide) h
    have name (negated : Bool) : Trims (do
        let name ← nameOf [.identifier, .boolean] .testName
        return Node.test node negated (← Parser.applied d name)) :=
      (trims_nameOf _ _).bind fun name => ((rules_trim d).applied name).bind fun _ =>
        respects_trims.pure _
    refine Trims.bind respects_trims.current fun t => ?_
    simp only [decide_eq_true_eq]
    split
    · exact trims_advance.bind fun _ => name _
    · exact name _

theorem advances_filterStep (d : Nat) : Advances (filterStep d) where
  endOfInput _ := rfl
  shorter := by
    intro node p ts rest next hp h
    unfold filterStep at hp
    split at hp <;> cases hp
    rename_i hk
    refine length_lt_of_advance (fun t => ?_) (by rw [hk]; decide) h
    exact (trims_nameOf _ _).bind fun name => ((rules_trim d).applied name).bind fun _ =>
      respects_trims.pure _

/-- A parenthesis is taken in every call. -/
theorem advances_callStep (d : Nat) : Advances (callStep d) where
  endOfInput _ := rfl
  shorter := by
    intro node p ts rest next hp h
    unfold callStep at hp
    split at hp <;> cases hp
    exact length_lt_of_arguments (fun _ => respects_trims.pure _) h

/-- A call is a list of arguments with more of them behind it. -/
theorem call_run (d : Nat) (callee : Node) (ts : List Token) :
    (Parser.call (d + 1) callee).run ts =
      (Parser.arguments d >>= fun args => again (callStep d) (.call callee args)).run ts := by
  rw [Parser.call, extend_run, bind_assoc_run]
  rfl

/-- The name of a test or filter is a name with lists of arguments behind it. -/
theorem applied_run (d : Nat) (name : Node) (ts : List Token) :
    (Parser.applied (d + 2) name).run ts = (again (callStep d) name).run ts := by
  rw [Parser.applied, bind_of_ok (current_run ts)]
  split
  · rename_i hk
    rw [call_run, again_of_some (advances_callStep d) (if_pos hk), bind_assoc_run]
    rfl
  · rename_i hk
    rw [again_of_none (if_neg hk), pure_run]

/-- Lists of arguments in a row leave the end of what they found. -/
theorem trims_again_callStep (d : Nat) (node : Node) : Trims (again (callStep d) node) :=
  trims_again (fun h => by
    unfold callStep at h
    split at h <;> cases h
    exact (rules_trim d).arguments.bind fun _ => respects_trims.pure _) node

/-- A member takes the token at hand first. -/
theorem length_lt_of_member {d : Nat} {object n : Node} {ts rest : List Token}
    (h : (Parser.member d object).run ts = .ok n rest) : rest.length < ts.length := by
  cases d with
  | zero => rw [Parser.member, tooDeep, failHere_run] at h; cases h
  | succ d =>
    cases ts with
    | nil => cases d <;> cases h
    | cons t ts =>
      rw [Parser.member, bind_of_ok (advance_cons t ts)] at h
      refine Nat.lt_succ_of_le (Trims.suffix ?_ h).length_le
      split
      · exact (trims_nameOf _ _).bind fun _ => respects_trims.pure _
      · exact (rules_trim d).index.bind fun _ => (trims_expect _).bind fun _ =>
          respects_trims.pure _

/-- A dot, a bracket or a parenthesis is taken in every link of a chain. -/
theorem advances_chainStep (d : Nat) : Advances (chainStep d) where
  endOfInput _ := rfl
  shorter := by
    intro node p ts rest next hp h
    unfold chainStep at hp
    split at hp <;> cases hp
    · exact length_lt_of_member h
    · exact length_lt_of_member h
    · cases d with
      | zero => rw [Parser.call, tooDeep, failHere_run] at h; cases h
      | succ d =>
        rw [call_run] at h
        exact length_lt_of_arguments (fun _ => trims_again_callStep d _) h

/-- Whatever a level repeats takes a token each time, so every level comes to an end. -/
theorem Level.advances_step (l : Level) (d : Nat) : Advances (l.step d) := by
  have none : Advances fun _ _ => none := ⟨fun _ => rfl, fun h => nomatch h⟩
  cases l with
  | disjunction => exact advances_infixStep rfl (rules_trim d).conjunction
  | conjunction => exact advances_infixStep rfl (rules_trim d).negation
  | comparison => exact advances_infixStep rfl (rules_trim d).sum
  | sum => exact advances_infixStep rfl (rules_trim d).product
  | product => exact advances_infixStep rfl (rules_trim d).tested
  | tested => exact advances_testStep d
  | filtered => exact advances_filterStep d
  | chained => exact advances_chainStep d
  | expression | negation | primary => exact none

/-! ### One step more -/

variable {d : Nat} {n : Node} {ts : List Token}

/-- Behind `is` a test is read, and the next one behind it. -/
theorem again_test {i : Token} (hi : i.kind = .kwIs) (hnot : (front ts).kind ≠ .kwNot) :
    (again (testStep d) n).run (i :: ts) =
      ((nameOf [.identifier, .boolean] .testName >>= Parser.applied d) >>= fun f =>
        again (testStep d) (.test n false f)).run ts := by
  have hstep : testStep d n (front (i :: ts)).kind = some _ := if_pos hi
  rw [again_of_some (advances_testStep d) hstep]
  simp only [bind_assoc]
  rw [bind_of_ok (advance_cons i ts), bind_of_ok (current_run ts)]
  simp only [hnot, decide_false, Bool.false_eq_true, if_false, bind_assoc, pure_bind]

/-- Behind `is` and `not` a negated test is read. -/
theorem again_testNot {i o : Token} (hi : i.kind = .kwIs) (ho : o.kind = .kwNot) :
    (again (testStep d) n).run (i :: o :: ts) =
      ((nameOf [.identifier, .boolean] .testName >>= Parser.applied d) >>= fun f =>
        again (testStep d) (.test n true f)).run ts := by
  have hstep : testStep d n (front (i :: o :: ts)).kind = some _ := if_pos hi
  rw [again_of_some (advances_testStep d) hstep]
  simp only [bind_assoc]
  rw [bind_of_ok (advance_cons i _), bind_of_ok (current_run _)]
  simp only [front_cons, ho, decide_true, if_true, bind_assoc, pure_bind]
  rw [bind_of_ok (advance_cons o ts)]

/-- Behind a bar a filter is read, and the next one behind it. -/
theorem again_filter {p : Token} (hp : p.kind = .pipe) :
    (again (filterStep d) n).run (p :: ts) =
      ((nameOf [.identifier] .filterName >>= Parser.applied d) >>= fun f =>
        again (filterStep d) (.filter n f)).run ts := by
  have hstep : filterStep d n (front (p :: ts)).kind = some _ := if_pos hp
  rw [again_of_some (advances_filterStep d) hstep]
  simp only [bind_assoc, pure_bind]
  rw [bind_of_ok (advance_cons p ts)]

/-- A list of arguments makes a call, which may be called at once. -/
theorem again_call (hts : (front ts).kind = .leftParen) :
    (again (callStep d) n).run ts =
      (Parser.arguments d >>= fun args => again (callStep d) (.call n args)).run ts := by
  rw [again_of_some (advances_callStep d) (if_pos hts)]
  simp only [bind_assoc, pure_bind]

/-- The lists of arguments that a call takes at once are as many steps of a chain. -/
theorem again_callStep_chainStep (n : Node) (ts : List Token) :
    (again (callStep d) n >>= again (chainStep (d + 1))).run ts =
      (again (chainStep (d + 1)) n).run ts := by
  by_cases hts : (front ts).kind = .leftParen
  · have hstep : chainStep (d + 1) n (front ts).kind = some (Parser.call (d + 1) n) := by
      rw [hts]
      rfl
    rw [again_of_some (advances_chainStep _) hstep]
    refine bind_congr_run ?_ fun _ _ _ => rfl
    rw [again_call hts, call_run]
  · rw [bind_of_ok (again_of_none (if_neg hts))]

/-- In a chain, too, a list of arguments makes a call, and the chain goes on from it. -/
theorem again_chain_call (hts : (front ts).kind = .leftParen) :
    (again (chainStep (d + 1)) n).run ts =
      (Parser.arguments d >>= fun args => again (chainStep (d + 1)) (.call n args)).run ts := by
  have hstep : chainStep (d + 1) n (front ts).kind = some (Parser.call (d + 1) n) := by
    rw [hts]
    rfl
  rw [again_of_some (advances_chainStep _) hstep, bind_congr_run (call_run d n ts) fun _ _ _ => rfl,
    bind_assoc_run]
  exact bind_congr_run rfl fun args mid _ => again_callStep_chainStep _ mid

/-- A dot and a name make a member, and the chain goes on from it. -/
theorem again_property {o t : Token} (ho : o.kind = .dot) (ht : t.kind = .identifier) :
    (again (chainStep (d + 1)) n).run (o :: t :: ts) =
      (again (chainStep (d + 1)) (.member n (.identifier t.value) false)).run ts := by
  have hstep : chainStep (d + 1) n (front (o :: t :: ts)).kind =
      some (Parser.member (d + 1) n) := by
    rw [front_cons, ho]
    rfl
  rw [again_of_some (advances_chainStep _) hstep, Parser.member]
  simp only [bind_assoc]
  rw [bind_of_ok (advance_cons o _), if_pos ho]
  simp only [bind_assoc, pure_bind]
  rw [bind_of_ok (nameOf_cons (by simp [ht]) _ ts)]

/-- An index between brackets makes a member, and the chain goes on from it. -/
theorem again_subscript {o : Token} (ho : o.kind = .leftBracket) :
    (again (chainStep (d + 1)) n).run (o :: ts) =
      (Parser.index d >>= fun p => expect .rightBracket >>= fun _ =>
        again (chainStep (d + 1)) (.member n p true)).run ts := by
  have hstep : chainStep (d + 1) n (front (o :: ts)).kind = some (Parser.member (d + 1) n) := by
    rw [front_cons, ho]
    rfl
  rw [again_of_some (advances_chainStep _) hstep, Parser.member]
  simp only [bind_assoc]
  rw [bind_of_ok (advance_cons o _), if_neg (by rw [ho]; decide)]
  simp only [bind_assoc, pure_bind]

end Stencil.Grammar
