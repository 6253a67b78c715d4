import Stencil.Proofs.Parser.Depth
import Stencil.Proofs.Parser.Rounds

/-!
# Parser — behind the first tokens

At a given depth a rule has come, behind some first tokens, to one point of its work whatever
follows them: there it goes on as another parser, with those tokens taken (`Reaches`).  Or it finds
the nesting too deep, and then too whatever follows.  So two lists of tokens that begin alike part
company only behind what they share, and what the rule does with the one tells how deep it may go in
the other.

There is a lemma for each combinator: what is done first is behind fewer tokens (`Reaches.bind`),
what is done later behind those that were taken before (`Reaches.after`, `Reaches.take`).
Repetitions are unrolled by one round, without a count (`delimited_round`, `pieces_round`,
`all_round`, `subscriptParts_round`).
-/

namespace Stencil.Parser

variable {α β : Type}

/-- Nothing goes on behind a nesting that is too deep. -/
theorem tooDeep_bind {p : Parser α} {f : α → Parser β} {ts : List Token}
    (h : TooDeep (p.run ts)) : TooDeep ((p >>= f).run ts) := by
  obtain ⟨t, left, h⟩ := h
  exact ⟨t, left, bind_of_error h⟩

/-- Behind the tokens and in front of whatever meets the condition, `p` goes on as one of the
parsers `Q`, or finds the nesting too deep. -/
def Reaches (C : List Token → Prop) (Q : Parser α → Prop) (p : Parser α) (ts : List Token) : Prop :=
  (∀ rest, C rest → TooDeep (p.run (ts ++ rest))) ∨
    ∃ q, Q q ∧ ∀ rest, C rest → p.run (ts ++ rest) = q.run rest

namespace Reaches

variable {C D : List Token → Prop} {P Q : Parser α → Prop} {R : Parser β → Prop} {p q : Parser α}
  {f : α → Parser β} {ts us : List Token} {a : α}

/-- A parser that always finds the nesting too deep reaches anything. -/
theorem of_tooDeep (h : ∀ ts, TooDeep (p.run ts)) : Reaches C Q p ts := .inl fun _ _ => h _

/-- A parser that does what `q` does behind the tokens reaches `q` there. -/
theorem of_run (hq : Q q) (h : ∀ rest, C rest → p.run (ts ++ rest) = q.run rest) :
    Reaches C Q p ts := .inr ⟨q, hq, h⟩

/-- Without tokens a parser reaches itself. -/
theorem here (hp : Q p) : Reaches C Q p [] := of_run hp fun _ _ => rfl

theorem mono (h : Reaches C Q p ts) (hC : ∀ rest, D rest → C rest) : Reaches D Q p ts :=
  h.imp (fun h rest hrest => h rest (hC rest hrest))
    fun ⟨q, hq, h⟩ => ⟨q, hq, fun rest hrest => h rest (hC rest hrest)⟩

/-- What does the same reaches the same. -/
theorem congr {p' : Parser α} {ts' : List Token} (h : Reaches C Q p ts)
    (heq : ∀ rest, C rest → p'.run (ts' ++ rest) = p.run (ts ++ rest)) : Reaches C Q p' ts' := by
  rcases h with h | ⟨q, hq, h⟩
  · refine .inl fun rest hrest => ?_
    rw [heq rest hrest]
    exact h rest hrest
  · exact of_run hq fun rest hrest => (heq rest hrest).trans (h rest hrest)

/-- What is reached may itself reach more. -/
theorem trans (h : Reaches C (· = q) p ts) (h' : Reaches D Q q us)
    (hC : ∀ rest, D rest → C (us ++ rest)) : Reaches D Q p (ts ++ us) := by
  rcases h with h | ⟨_, rfl, h⟩
  · refine .inl fun rest hrest => ?_
    rw [List.append_assoc]
    exact h _ (hC rest hrest)
  · refine h'.congr fun rest hrest => ?_
    rw [List.append_assoc]
    exact h _ (hC rest hrest)

/-- What is reached may do the same as another parser. -/
theorem turn {q' : Parser α} (h : Reaches C (· = q) p ts)
    (heq : ∀ rest, C rest → q.run rest = q'.run rest) : Reaches C (· = q') p ts := by
  rcases h with h | ⟨_, rfl, h⟩
  · exact .inl h
  · exact of_run rfl fun rest hrest => (h rest hrest).trans (heq rest hrest)

/-! ### Sequences -/

/-- What is done behind a parser is done behind what that one reaches. -/
theorem bind (h : Reaches C Q p ts) (hQ : ∀ q, Q q → R (q >>= f)) : Reaches C R (p >>= f) ts := by
  rcases h with h | ⟨q, hq, h⟩
  · exact .inl fun rest hrest => tooDeep_bind (h rest hrest)
  · exact of_run (hQ q hq) fun rest hrest => bind_congr_run (h rest hrest) fun _ _ _ => rfl

/-- The first part of a sequence has ended. -/
theorem ended (h : Reaches C (· = pure a) p ts) : Reaches C (· = f a) (p >>= f) ts :=
  h.bind fun q hq => by rw [hq, pure_bind]

/-- The first part of a sequence has ended before the last of the tokens. -/
theorem after (h : Reaches C (· = pure a) p ts) (hf : Reaches D R (f a) us)
    (hC : ∀ rest, D rest → C (us ++ rest)) : Reaches D R (p >>= f) (ts ++ us) :=
  h.ended.trans hf hC

/-- A token is taken on the way. -/
theorem take {f : Token → Parser β} {t : Token} (h : Reaches C R (f t) ts) :
    Reaches C R (advance >>= f) (t :: ts) :=
  h.congr fun rest _ => bind_of_ok (advance_cons t (ts ++ rest))

/-- An expected token is taken on the way when it is of that kind. -/
theorem expect {f : Token → Parser β} {kind : Token.Kind} {t : Token} (ht : t.kind = kind)
    (h : Reaches C R (f t) ts) : Reaches C R (expect kind >>= f) (t :: ts) :=
  h.congr fun rest _ => bind_of_ok (expect_cons ht (ts ++ rest))

/-- What is read without being taken is the same whatever follows. -/
theorem look {γ : Type} {read : Parser γ} {f : γ → Parser β} {v : γ}
    (hread : ∀ rest, C rest → read.run (ts ++ rest) = .ok v (ts ++ rest))
    (h : Reaches C R (f v) ts) : Reaches C R (read >>= f) ts :=
  h.congr fun rest hrest => bind_of_ok (hread rest hrest)

/-- The first of the tokens is the one at hand, whatever follows them all. -/
theorem current {f : Token → Parser β} {t : Token} (h : Reaches C R (f t) (t :: ts)) :
    Reaches C R (Parser.current >>= f) (t :: ts) :=
  look (fun rest _ => current_run (t :: (ts ++ rest))) h

end Reaches

/-! ### Repetition without a count -/

variable {item : Parser α} {close : Token.Kind} {ts : List Token}

/-- What is done behind an item: more items behind a comma, or the end. -/
def behindItem (close : Token.Kind) (item : Parser α) (x : α) : Parser (List α) := do
  let kind := (← current).kind
  if kind = .comma then
    let _ ← advance
  else if kind ≠ close then failHere (.expectedToken .comma)
  return x :: (← delimited close item)

theorem delimited_close {t : Token} (ht : t.kind = close) (item : Parser α) (rest : List Token) :
    (delimited close item).run (t :: rest) = .ok [] rest := by
  rw [delimited, bind_of_ok (remaining_run _)]
  exact delimitedFor_close ht item _ rest

/-- Where the items are not at their end, one is read, and more behind it. -/
theorem delimited_round (hitem : Trims item) (hne : ts ≠ []) (hfront : (front ts).kind ≠ close) :
    (delimited close item).run ts = (item >>= behindItem close item).run ts := by
  obtain ⟨rounds, hrounds⟩ := Nat.exists_eq_add_one.mpr (List.length_pos_iff.mpr hne)
  rw [delimited, bind_of_ok (remaining_run ts), hrounds, delimitedFor, bind_of_ok (current_run ts),
    if_neg hfront, bind_of_ok (atEnd_run ts)]
  dsimp only
  rw [if_neg (by simpa using hne)]
  refine bind_congr_run rfl fun x mid hx => ?_
  have hle : mid.length ≤ rounds + 1 := hrounds ▸ (hitem.suffix hx).length_le
  rw [behindItem, bind_of_ok (current_run mid), bind_of_ok (current_run mid)]
  dsimp only
  split
  · rename_i hcomma
    obtain ⟨c, mid, rfl, -⟩ := eq_cons_of_front (by rw [hcomma]; decide)
    rw [bind_of_ok (advance_cons c mid), bind_of_ok (advance_cons c mid)]
    refine bind_congr_run ?_ fun _ _ _ => rfl
    exact settles_delimitedFor hitem close (Nat.le_of_succ_le_succ hle)
  split
  · rw [bind_of_error (failHere_run _ mid), bind_of_error (failHere_run _ mid)]
  · -- at the closing token no more rounds are made
    rename_i hclose
    have hclose := not_not.mp hclose
    refine bind_congr_run ?_ fun _ _ _ => rfl
    cases mid with
    | nil => exact (delimitedFor_nil close item rounds).trans (delimitedFor_nil close item 0).symm
    | cons c mid =>
      exact (delimitedFor_close hclose item rounds mid).trans (delimited_close hclose item mid).symm

/-- Behind a comma more items are read, or none at the closing token. -/
theorem behindItem_comma {c : Token} (hc : c.kind = .comma) (item : Parser α) (x : α)
    (rest : List Token) : (behindItem close item x).run (c :: rest) =
      (delimited close item >>= fun xs => pure (x :: xs)).run rest := by
  rw [behindItem, bind_of_ok (current_run _)]
  dsimp only
  rw [front_cons, if_pos hc, bind_of_ok (advance_cons c rest)]

/-- At the closing token an item has been the last. -/
theorem behindItem_close {c : Token} (hc : c.kind = close) (hcomma : close ≠ .comma)
    (item : Parser α) (x : α) (rest : List Token) :
    (behindItem close item x).run (c :: rest) = .ok [x] rest := by
  rw [behindItem, bind_of_ok (current_run _)]
  dsimp only
  rw [front_cons, if_neg (hc ▸ hcomma), if_neg (not_not_intro hc),
    bind_of_ok (delimited_close hc item rest), pure_run]

variable {node : Parser Node}

/-- Where a body is not at its end, a piece is read, and more behind it. -/
theorem pieces_round (hnode : Takes 1 node) {ends : List Token.Kind}
    (h : (ends.any fun kind => beginsWith [.openStatement, kind] ts) = false) (hne : ts ≠ [])
    (missing : Token.Kind) : (pieces ends missing node).run ts =
      (node >>= fun n => pieces ends missing node >>= fun ns => pure (n :: ns)).run ts := by
  obtain ⟨rounds, hrounds⟩ := Nat.exists_eq_add_one.mpr (List.length_pos_iff.mpr hne)
  rw [pieces, bind_of_ok (remaining_run ts), hrounds, piecesFor, bind_of_ok (remaining_run ts),
    if_neg (by rw [h]; exact Bool.false_ne_true), bind_of_ok (atEnd_run ts)]
  dsimp only
  rw [if_neg (by simpa using hne)]
  refine bind_congr_run rfl fun n mid hn => bind_congr_run ?_ fun _ _ _ => rfl
  have := hnode hn
  exact settles_piecesFor hnode ends missing (by omega)

/-- Where a template is not at its end, a piece is read, and more behind it. -/
theorem all_round (hnode : Takes 1 node) (hne : ts ≠ []) : (all node).run ts =
    (node >>= fun n => all node >>= fun ns => pure (n :: ns)).run ts := by
  obtain ⟨rounds, hrounds⟩ := Nat.exists_eq_add_one.mpr (List.length_pos_iff.mpr hne)
  rw [all, bind_of_ok (remaining_run ts), hrounds, allFor, bind_of_ok (atEnd_run ts),
    if_neg (by simpa using hne)]
  refine bind_congr_run rfl fun n mid hn => bind_congr_run ?_ fun _ _ _ => rfl
  have := hnode hn
  exact settles_allFor hnode (by omega)

/-! ### Subscripts without a count -/

/-- The parts of a subscript. -/
def subscriptParts (expression : Parser Node) : Parser Subscript := do
  subscriptFor expression (← remaining).length

/-- What is done behind an expression in a subscript: more parts behind a colon, or the end. -/
def behindPart (expression : Parser Node) (n : Node) : Parser Subscript := do
  let kind := (← current).kind
  if kind = .colon then
    let _ ← advance
    withPart (some n) (subscriptParts expression)
  else if kind = .rightBracket then return ⟨[], some n⟩
  else failHere (.expectedToken .rightBracket)

variable {expression : Parser Node}

/-- A colon at once makes an absent part, whatever the count of rounds. -/
theorem subscriptParts_absent {c : Token} (hc : c.kind = .colon)
    (rest : List Token) : (subscriptParts expression).run (c :: rest) =
      (withPart none (subscriptParts expression)).run rest := by
  rw [subscriptParts, bind_of_ok (remaining_run _)]
  exact subscriptFor_absent hc rest expression rest.length

/-- An expression that begins no other way is read, and more parts behind it. -/
theorem subscriptParts_round (hexpression : Trims expression) (hne : ts ≠ [])
    (hclose : (front ts).kind ≠ .rightBracket) (hcolon : (front ts).kind ≠ .colon) :
    (subscriptParts expression).run ts = (expression >>= behindPart expression).run ts := by
  obtain ⟨rounds, hrounds⟩ := Nat.exists_eq_add_one.mpr (List.length_pos_iff.mpr hne)
  rw [subscriptParts, bind_of_ok (remaining_run ts), hrounds, subscriptFor, bind_of_ok (current_run ts)]
  dsimp only
  rw [if_neg hclose, bind_of_ok (atEnd_run ts), if_neg (by simpa using hne), if_neg hcolon]
  refine bind_congr_run rfl fun n mid hn => ?_
  have hle : mid.length ≤ rounds + 1 := hrounds ▸ (hexpression.suffix hn).length_le
  rw [behindPart, bind_of_ok (current_run mid), bind_of_ok (current_run mid)]
  dsimp only
  split
  · rename_i hmid
    obtain ⟨c, mid, rfl, -⟩ := eq_cons_of_front (by rw [hmid]; decide)
    rw [bind_of_ok (advance_cons c mid), bind_of_ok (advance_cons c mid)]
    refine bind_congr_run ?_ fun _ _ _ => rfl
    exact settles_subscriptFor hexpression (Nat.le_of_succ_le_succ hle)
  · rfl

end Stencil.Parser
