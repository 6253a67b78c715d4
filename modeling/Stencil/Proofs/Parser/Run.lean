import Stencil.Parser.Basic
import Stencil.Proofs.Sequence

/-!
# Parser — runs of the combinators

What the combinators do to the tokens, so that no later proof opens them.

* `expect_eq_ok`: the token that had to come was there.
* `again`: the rest of a repetition of steps.  If the steps take tokens (`Advances`), the count of
  rounds does not matter (`extendFor_eq_again`), and a repetition unrolls by one step
  (`again_of_some`, `again_of_none`).
-/

namespace Stencil.Parser

variable {α : Type}

/-! ### Tokens -/

/-- The token at hand is the first one. -/
@[simp] theorem front_cons (t : Token) (ts : List Token) : front (t :: ts) = t := rfl

/-- What follows does not change the token at hand. -/
theorem front_append {ts : List Token} (h : ts ≠ []) (us : List Token) :
    front (ts ++ us) = front ts := by
  cases ts with
  | nil => exact absurd rfl h
  | cons t ts => rfl

theorem front_mem {ts : List Token} (h : ts ≠ []) : front ts ∈ ts := by
  cases ts with
  | nil => exact absurd rfl h
  | cons t ts => exact .head ts

/-- A token at hand that is not the end of the input stands in the list. -/
theorem eq_cons_of_front {ts : List Token} (h : (front ts).kind ≠ .endOfInput) :
    ∃ t rest, ts = t :: rest ∧ front ts = t := by
  cases ts with
  | nil => exact absurd rfl h
  | cons t rest => exact ⟨t, rest, rfl, rfl⟩

/-- The tokens are looked at and left. -/
theorem remaining_run (ts : List Token) : remaining.run ts = .ok ts ts := rfl

theorem current_run (ts : List Token) : current.run ts = .ok (front ts) ts := rfl

/-- The first token is taken. -/
theorem advance_cons (t : Token) (ts : List Token) : advance.run (t :: ts) = .ok t ts := rfl

theorem atEnd_run (ts : List Token) : atEnd.run ts = .ok ts.isEmpty ts := rfl

/-- The next kinds are looked at and left. -/
theorem sees_run (kinds : List Token.Kind) (ts : List Token) :
    (sees kinds).run ts = .ok (beginsWith kinds ts) ts := rfl

/-- A token of the kind that is expected is taken. -/
theorem expect_cons {kind : Token.Kind} {t : Token} (h : t.kind = kind) (ts : List Token) :
    (expect kind).run (t :: ts) = .ok t ts := by
  rw [expect, bind_of_ok (current_run _), bind_of_ok (atEnd_run _), front_cons,
    if_neg (by simpa using h), advance_cons]

/-- Two kinds at the front are two tokens of these kinds. -/
theorem beginsWith_pair {a b : Token.Kind} {ts : List Token} (h : beginsWith [a, b] ts = true) :
    ∃ s t rest, ts = s :: t :: rest ∧ s.kind = a ∧ t.kind = b := by
  match ts, h with
  | [_], h => simp [beginsWith] at h
  | s :: t :: rest, h =>
    simp only [beginsWith, Bool.and_true, Bool.and_eq_true, decide_eq_true_eq] at h
    exact ⟨s, t, rest, rfl, h.1, h.2⟩

/-! ### Errors -/

/-- A failure leaves the tokens where they are. -/
theorem fail_run (cause : Cause) (t : Token) (ts : List Token) :
    (fail cause t : Parser α).run ts = .error (.malformed ⟨cause, some t⟩) ts := rfl

/-- A failure at the token at hand names that token, which may be the end of the input. -/
theorem failHere_run (cause : Cause) (ts : List Token) :
    (failHere cause : Parser α).run ts = .error (.malformed ⟨cause, some (front ts)⟩) ts := by
  unfold failHere
  rw [bind_of_ok (current_run ts), fail_run]

/-- Any other token than the one expected is refused and left; so is the end. -/
theorem expect_of_ne {kind : Token.Kind} {ts : List Token}
    (h : ∀ t rest, ts = t :: rest → t.kind ≠ kind) :
    (expect kind).run ts = .error (.malformed ⟨.expectedToken kind, some (front ts)⟩) ts := by
  have hrefused : ts.isEmpty ∨ (front ts).kind ≠ kind := by
    cases ts with
    | nil => exact .inl rfl
    | cons t rest => exact .inr (h t rest rfl)
  rw [expect, bind_of_ok (current_run ts), bind_of_ok (atEnd_run ts), if_pos hrefused, fail_run]

/-- A token is expected with success iff it is at hand. -/
theorem expect_eq_ok {kind : Token.Kind} {ts rest : List Token} {t : Token} :
    (expect kind).run ts = .ok t rest ↔ ts = t :: rest ∧ t.kind = kind := by
  constructor
  · intro h
    cases ts with
    | nil => rw [expect_of_ne (by simp)] at h; cases h
    | cons s mid =>
      by_cases hs : s.kind = kind
      · rw [expect_cons hs] at h
        cases h
        exact ⟨rfl, hs⟩
      · rw [expect_of_ne (by rintro _ _ ⟨⟩; exact hs)] at h
        cases h
  · rintro ⟨rfl, h⟩
    exact expect_cons h rest

/-! ### Repetition of steps -/

/-- Steps from a node onwards, as long as the token at hand begins one. -/
abbrev Steps := Node → Token.Kind → Option (Parser Node)

/-- Every step takes a token, and none begins at the end of the input. -/
structure Advances (step : Steps) : Prop where
  endOfInput : ∀ node, step node .endOfInput = none
  shorter : ∀ {node : Node} {p : Parser Node} {ts rest : List Token} {next : Node},
    step node (front ts).kind = some p → p.run ts = .ok next rest → rest.length < ts.length

/-- The rest of a repetition that has come as far as a node. -/
def again (step : Steps) (node : Node) : Parser Node := fun ts =>
  (extendFor step ts.length node).run ts

/-- A chain is its first operand and as many steps as the tokens behind it allow. -/
theorem extend_run (step : Steps) (first : Parser Node) (ts : List Token) :
    (extend step first).run ts = (first >>= again step).run ts := rfl

/-- Where no step is offered the repetition ends, whatever rounds are left. -/
theorem extendFor_of_none {step : Steps} {node : Node} {ts : List Token}
    (h : step node (front ts).kind = none) (rounds : Nat) :
    (extendFor step rounds node).run ts = .ok node ts := by
  cases rounds with
  | zero => rfl
  | succ rounds =>
    unfold extendFor
    rw [bind_of_ok (current_run ts)]
    simp only [h, pure_run]

/-- A step that is offered is taken, and a round is used up. -/
theorem extendFor_of_some {step : Steps} {node : Node} {ts : List Token} {p : Parser Node}
    (h : step node (front ts).kind = some p) (rounds : Nat) :
    (extendFor step (rounds + 1) node).run ts = (p >>= extendFor step rounds).run ts := by
  rw [extendFor, bind_of_ok (current_run ts)]
  simp only [h]

/-- The count of rounds does not matter as long as there are as many as tokens. -/
theorem extendFor_agree {step : Steps} (hs : Advances step) (rounds : Nat) :
    ∀ {rounds' : Nat} {ts : List Token}, ts.length ≤ rounds → ts.length ≤ rounds' → ∀ node,
      (extendFor step rounds node).run ts = (extendFor step rounds' node).run ts := by
  have none_left (rounds : Nat) (node : Node) :
      (extendFor step rounds node).run [] = .ok node [] := by
    cases rounds with
    | zero => rfl
    | succ rounds => exact extendFor_of_none (hs.endOfInput node) _
  induction rounds with
  | zero =>
    intro rounds' ts hr _ node
    obtain rfl := List.length_eq_zero_iff.mp (Nat.le_zero.mp hr)
    rw [none_left, none_left]
  | succ rounds ih =>
    intro rounds' ts hr hr' node
    cases rounds' with
    | zero =>
      obtain rfl := List.length_eq_zero_iff.mp (Nat.le_zero.mp hr')
      rw [none_left, none_left]
    | succ rounds' =>
      cases h : step node (front ts).kind with
      | none => rw [extendFor_of_none h, extendFor_of_none h]
      | some p =>
        rw [extendFor_of_some h, extendFor_of_some h]
        refine bind_congr_run rfl fun next rest hp => ?_
        have hlt := hs.shorter h hp
        exact ih (by omega) (by omega) next

/-- Any rounds that suffice do what as many rounds as tokens do. -/
theorem extendFor_eq_again {step : Steps} (hs : Advances step) {rounds : Nat} {ts : List Token}
    (hr : ts.length ≤ rounds) (node : Node) :
    (extendFor step rounds node).run ts = (again step node).run ts :=
  extendFor_agree hs rounds hr (Nat.le_refl _) node

/-- Where no step is offered nothing more is read. -/
theorem again_of_none {step : Steps} {node : Node} {ts : List Token}
    (h : step node (front ts).kind = none) : (again step node).run ts = .ok node ts :=
  extendFor_of_none h _

/-- A step that is offered is taken, and the repetition goes on behind it. -/
theorem again_of_some {step : Steps} (hs : Advances step) {node : Node} {ts : List Token}
    {p : Parser Node} (h : step node (front ts).kind = some p) :
    (again step node).run ts = (p >>= again step).run ts := by
  cases ts with
  | nil => cases (hs.endOfInput node).symm.trans h
  | cons t ts =>
    show (extendFor step (ts.length + 1) node).run (t :: ts) = _
    rw [extendFor_of_some h]
    refine bind_congr_run rfl fun next rest hp => ?_
    have hlt := hs.shorter h hp
    exact extendFor_eq_again hs (Nat.le_of_lt_succ hlt) next

/-- The steps keep a relation between the tokens taken so far and the node they have led to. -/
def Keeps (step : Steps) (Q : List Token → Node → Prop) : Prop :=
  ∀ ⦃used ts rest : List Token⦄ ⦃node next : Node⦄ ⦃p : Parser Node⦄, Q used node →
    step node (front ts).kind = some p → p.run ts = .ok next rest →
      ∃ more, ts = more ++ rest ∧ Q (used ++ more) next

/-- What the steps keep, a repetition keeps. -/
theorem Keeps.extendFor {step : Steps} {Q : List Token → Node → Prop} (hs : Keeps step Q)
    {rounds : Nat} {used ts rest : List Token} {node next : Node} (hq : Q used node)
    (h : (extendFor step rounds node).run ts = .ok next rest) :
    ∃ more, ts = more ++ rest ∧ Q (used ++ more) next := by
  induction rounds generalizing used ts node with
  | zero =>
    cases h
    exact ⟨[], rfl, by rwa [List.append_nil]⟩
  | succ rounds ih =>
    cases hstep : step node (front ts).kind with
    | none =>
      rw [extendFor_of_none hstep] at h
      cases h
      exact ⟨[], rfl, by rwa [List.append_nil]⟩
    | some p =>
      rw [extendFor_of_some hstep, bind_eq_ok] at h
      obtain ⟨mid, left, hp, h⟩ := h
      obtain ⟨more, rfl, hq'⟩ := hs hq hstep hp
      obtain ⟨more', rfl, hq''⟩ := ih hq' h
      exact ⟨more ++ more', (List.append_assoc ..).symm, by rwa [← List.append_assoc]⟩

/-! ### Items, pieces and parts -/

/-- At the closing token the items end. -/
theorem delimitedFor_close {close : Token.Kind} {t : Token} (ht : t.kind = close)
    (item : Parser α) (rounds : Nat) (rest : List Token) :
    (delimitedFor close item rounds).run (t :: rest) = .ok [] rest := by
  have last : (do let _ ← expect close; return [] : Parser (List α)).run (t :: rest) =
      .ok [] rest := by
    rw [bind_of_ok (expect_cons ht rest), pure_run]
  cases rounds with
  | zero => exact last
  | succ rounds =>
    rw [delimitedFor, bind_of_ok (current_run _)]
    simp only [front_cons, ht, if_true, last]

/-- An item and a comma. -/
theorem delimitedFor_comma {close : Token.Kind} {item : Parser α} {ts mid : List Token} {c : Token}
    {x : α} (hne : ts ≠ []) (hfront : (front ts).kind ≠ close)
    (hx : item.run ts = .ok x (c :: mid)) (hc : c.kind = .comma) (rounds : Nat) :
    (delimitedFor close item (rounds + 1)).run ts =
      (do return x :: (← delimitedFor close item rounds) : Parser (List α)).run mid := by
  rw [delimitedFor, bind_of_ok (current_run ts), if_neg hfront, bind_of_ok (atEnd_run ts)]
  dsimp only
  rw [if_neg (by simpa using hne), bind_of_ok hx, bind_of_ok (current_run _)]
  rw [front_cons, if_pos hc, bind_of_ok (advance_cons c mid)]

/-- An item and the closing token. -/
theorem delimitedFor_last {close : Token.Kind} {item : Parser α} {ts rest : List Token} {c : Token}
    {x : α} (hne : ts ≠ []) (hfront : (front ts).kind ≠ close)
    (hx : item.run ts = .ok x (c :: rest)) (hc : c.kind = close) (hcomma : close ≠ .comma)
    (rounds : Nat) : (delimitedFor close item (rounds + 1)).run ts = .ok [x] rest := by
  rw [delimitedFor, bind_of_ok (current_run ts), if_neg hfront, bind_of_ok (atEnd_run ts)]
  dsimp only
  rw [if_neg (by simpa using hne), bind_of_ok hx, bind_of_ok (current_run _)]
  rw [front_cons, if_neg (hc ▸ hcomma), if_neg (not_not_intro hc),
    bind_of_ok (delimitedFor_close hc item rounds rest), pure_run]

/-- At a tag that ends the block the pieces end, and the tag is left. -/
theorem piecesFor_stop {ends : List Token.Kind} {ts : List Token}
    (h : (ends.any fun kind => beginsWith [.openStatement, kind] ts) = true)
    (missing : Token.Kind) (item : Parser Node) (rounds : Nat) :
    (piecesFor ends missing item (rounds + 1)).run ts = .ok [] ts := by
  rw [piecesFor, bind_of_ok (remaining_run ts), if_pos h, pure_run]

/-- At any other token a piece is read, and more of them behind it. -/
theorem piecesFor_piece {ends : List Token.Kind} {item : Parser Node} {ts mid : List Token}
    {n : Node} (h : (ends.any fun kind => beginsWith [.openStatement, kind] ts) = false)
    (hne : ts ≠ []) (hn : item.run ts = .ok n mid) (missing : Token.Kind) (rounds : Nat) :
    (piecesFor ends missing item (rounds + 1)).run ts =
      (do return n :: (← piecesFor ends missing item rounds) : Parser (List Node)).run mid := by
  rw [piecesFor, bind_of_ok (remaining_run ts), if_neg (by rw [h]; exact Bool.false_ne_true),
    bind_of_ok (atEnd_run ts)]
  dsimp only
  rw [if_neg (by simpa using hne), bind_of_ok hn]

/-- The pieces of a template end with the tokens. -/
theorem allFor_nil (item : Parser Node) (rounds : Nat) :
    (allFor item rounds).run [] = .ok [] [] := by
  cases rounds <;> rfl

theorem allFor_piece {item : Parser Node} {ts mid : List Token} {n : Node} (hne : ts ≠ [])
    (hn : item.run ts = .ok n mid) (rounds : Nat) : (allFor item (rounds + 1)).run ts =
      (do return n :: (← allFor item rounds) : Parser (List Node)).run mid := by
  rw [allFor, bind_of_ok (atEnd_run ts), if_neg (by simpa using hne), bind_of_ok hn]

/-- A part of a slice in front of what comes behind its colon. -/
def withPart (part : Option Node) (later : Parser Subscript) : Parser Subscript := do
  let later ← later
  return { later with beforeColons := part :: later.beforeColons }

/-- At the closing bracket the parts end, and the last one is absent. -/
theorem subscriptFor_close {ts : List Token} (h : (front ts).kind = .rightBracket)
    (expression : Parser Node) (rounds : Nat) :
    (subscriptFor expression (rounds + 1)).run ts = .ok ⟨[], none⟩ ts := by
  rw [subscriptFor, bind_of_ok (current_run ts)]
  dsimp only
  rw [if_pos h, pure_run]

/-- A colon at once makes an absent part. -/
theorem subscriptFor_absent {c : Token} (hc : c.kind = .colon) (ts : List Token)
    (expression : Parser Node) (rounds : Nat) :
    (subscriptFor expression (rounds + 1)).run (c :: ts) =
      (withPart none (subscriptFor expression rounds)).run ts := by
  rw [subscriptFor, bind_of_ok (current_run _)]
  dsimp only
  rw [front_cons, hc, if_neg (by decide), bind_of_ok (atEnd_run _), if_neg (by simp), if_pos rfl,
    bind_of_ok (advance_cons c ts)]
  rfl

/-- An expression and a colon make a part, with more of them behind it. -/
theorem subscriptFor_present {expression : Parser Node} {ts mid : List Token} {c : Token}
    {n : Node} (hne : ts ≠ []) (hclose : (front ts).kind ≠ .rightBracket)
    (hcolon : (front ts).kind ≠ .colon) (hn : expression.run ts = .ok n (c :: mid))
    (hc : c.kind = .colon) (rounds : Nat) : (subscriptFor expression (rounds + 1)).run ts =
      (withPart (some n) (subscriptFor expression rounds)).run mid := by
  rw [subscriptFor, bind_of_ok (current_run ts)]
  dsimp only
  rw [if_neg hclose, bind_of_ok (atEnd_run ts), if_neg (by simpa using hne), if_neg hcolon,
    bind_of_ok hn, bind_of_ok (current_run _), front_cons, if_pos hc,
    bind_of_ok (advance_cons c mid)]
  rfl

/-- An expression at the closing bracket is the last part. -/
theorem subscriptFor_last {expression : Parser Node} {ts mid : List Token} {n : Node}
    (hne : ts ≠ []) (hclose : (front ts).kind ≠ .rightBracket)
    (hcolon : (front ts).kind ≠ .colon) (hn : expression.run ts = .ok n mid)
    (hmid : (front mid).kind = .rightBracket) (rounds : Nat) :
    (subscriptFor expression (rounds + 1)).run ts = .ok ⟨[], some n⟩ mid := by
  rw [subscriptFor, bind_of_ok (current_run ts)]
  dsimp only
  rw [if_neg hclose, bind_of_ok (atEnd_run ts), if_neg (by simpa using hne), if_neg hcolon,
    bind_of_ok hn, bind_of_ok (current_run mid), hmid, if_neg (by decide), if_pos rfl, pure_run]

end Stencil.Parser
