import Stencil.Proofs.Grammar.Breaks
import Stencil.Proofs.Grammar.Soundness

/-!
# Grammar — what a rule has taken when it fails

`Rejects p B` says that wherever `p` fails, the tokens it has taken, those it leaves and the failure
are related by `B`.  For the combinators of the parser this goes along with soundness: in a sequence
either the first part fails, or it succeeds, is derived, and what comes behind fails.
-/

namespace Stencil.Grammar
open Stencil.Parser

variable {α β : Type}

/-- A rule that fails has taken tokens in the relation to those left and to the failure. -/
def Rejects (p : Parser α) (B : List Token → List Token → Failure → Prop) : Prop :=
  ∀ ⦃ts rest : List Token⦄ ⦃e : Failure⦄, p.run ts = .error e rest →
    ∃ used, ts = used ++ rest ∧ B used rest e

/-! ### Operations -/

/-- A failure blames the token it is given and leaves the tokens where they are. -/
theorem fail_eq_error {cause : Cause} {t : Token} {ts rest : List Token} {e : Failure}
    (h : (fail cause t : Parser α).run ts = .error e rest) :
    rest = ts ∧ e = .malformed ⟨cause, some t⟩ := by
  obtain ⟨he, hts⟩ := EStateM.Result.error.inj h
  exact ⟨hts.symm, he.symm⟩

/-- A failure at the current token blames that token, or the end where none is left. -/
theorem failHere_eq_error {cause : Cause} {ts rest : List Token} {e : Failure}
    (h : (failHere cause : Parser α).run ts = .error e rest) :
    rest = ts ∧ e = foundAt cause ts := by
  rw [failHere_run] at h
  obtain ⟨he, hts⟩ := EStateM.Result.error.inj h
  exact ⟨hts.symm, he.symm⟩

/-- An expected token is missing where another kind of token, or none, comes next. -/
theorem expect_eq_error {kind : Token.Kind} {ts rest : List Token} {e : Failure}
    (hk : kind ≠ .endOfInput) (h : (expect kind).run ts = .error e rest) :
    rest = ts ∧ (front ts).kind ≠ kind ∧ e = foundAt (.expectedToken kind) ts := by
  have hne : ∀ t ts', ts = t :: ts' → t.kind ≠ kind := by
    rintro t ts' rfl ht
    rw [expect_cons ht] at h
    cases h
  rw [expect_of_ne hne] at h
  obtain ⟨he, hts⟩ := EStateM.Result.error.inj h
  refine ⟨hts.symm, ?_, he.symm⟩
  cases ts with
  | nil => exact hk.symm
  | cons t ts' => exact hne t ts' rfl

/-- A name is missing where the next token is of no kind that is admitted as one. -/
theorem nameOf_eq_error {kinds : List Token.Kind} {cause : String → Cause} {ts rest : List Token}
    {e : Failure} (h : (nameOf kinds cause).run ts = .error e rest) :
    rest = ts ∧ (front ts).kind ∉ kinds ∧ e = foundAt (cause (front ts).description) ts := by
  rw [nameOf, bind_of_ok (current_run ts)] at h
  split at h
  · cases ts <;> cases h
  · obtain ⟨rfl, rfl⟩ := fail_eq_error h
    exact ⟨rfl, ‹_›, rfl⟩

/-- The tag that ends a block. -/
theorem endTag_eq_error {keyword : Token.Kind} {ts rest : List Token} {e : Failure}
    (hk : keyword ≠ .endOfInput) (h : (endTag keyword).run ts = .error e rest) :
    ∃ used, ts = used ++ rest ∧ Misses [.openStatement, keyword, .closeStatement] used rest e := by
  rw [endTag] at h
  simp only [bind_eq_error, expect_eq_ok] at h
  rcases h with h | ⟨o, mid, ⟨rfl, ho⟩, h | ⟨w, mid, ⟨rfl, hw⟩, h | ⟨c, mid, ⟨rfl, hc⟩, h⟩⟩⟩
  · obtain ⟨rfl, hne, rfl⟩ := expect_eq_error (by decide) h
    exact ⟨[], rfl, .here hne⟩
  · obtain ⟨rfl, hne, rfl⟩ := expect_eq_error hk h
    exact ⟨[o], rfl, .later ho (.here hne)⟩
  · obtain ⟨rfl, hne, rfl⟩ := expect_eq_error (by decide) h
    exact ⟨[o, w], rfl, .later ho (.later hw (.here hne))⟩
  · cases h

/-! ### Combinators -/

/-- A step that fails breaks off behind the tokens that led to its node. -/
def StepRejects (step : Steps) (Q : List Token → Node → Prop)
    (B : List Token → List Token → Failure → Prop) : Prop :=
  ∀ ⦃used ts rest : List Token⦄ ⦃node : Node⦄ ⦃p : Parser Node⦄ ⦃e : Failure⦄, Q used node →
    step node (front ts).kind = some p → p.run ts = .error e rest →
      ∃ more, ts = more ++ rest ∧ B (used ++ more) rest e

/-- A repetition of steps fails in one of its steps, behind all that the steps before it have read.
-/
theorem rejects_extendFor {step : Steps} {Q : List Token → Node → Prop}
    {B : List Token → List Token → Failure → Prop} (hs : Keeps step Q) (hf : StepRejects step Q B)
    {rounds : Nat} {used ts rest : List Token} {node : Node} {e : Failure} (hq : Q used node)
    (h : (extendFor step rounds node).run ts = .error e rest) :
    ∃ more, ts = more ++ rest ∧ B (used ++ more) rest e := by
  induction rounds generalizing used ts node with
  | zero => cases h
  | succ rounds ih =>
    cases hstep : step node (front ts).kind with
    | none => rw [extendFor_of_none hstep] at h; cases h
    | some p =>
      rw [extendFor_of_some hstep] at h
      rw [bind_eq_error] at h
      rcases h with h | ⟨next, mid, hp, h⟩
      · exact hf hq hstep h
      · obtain ⟨more, rfl, hq⟩ := hs hq hstep hp
        obtain ⟨more', rfl, hb⟩ := ih hq h
        exact ⟨more ++ more', (List.append_assoc ..).symm, by rwa [← List.append_assoc]⟩

/-- A chain fails in its first operand, or in one of the steps behind it. -/
theorem rejects_extend {step : Steps} {first : Parser Node} {Q : List Token → Node → Prop}
    {B : List Token → List Token → Failure → Prop} (hfirst : Accepts first Q)
    (hrejects : Rejects first B) (hs : Keeps step Q) (hf : StepRejects step Q B) :
    Rejects (extend step first) B := by
  intro ts rest e h
  rw [extend_run] at h
  rw [bind_eq_error] at h
  rcases h with h | ⟨node, mid, hp, h⟩
  · exact hrejects h
  · obtain ⟨used, rfl, hq⟩ := hfirst hp
    obtain ⟨more, rfl, hb⟩ := rejects_extendFor hs hf hq h
    exact ⟨used ++ more, (List.append_assoc ..).symm, hb⟩

/-- Items fail in an item, for want of a comma behind one, or for want of the closing token at the
end of the input. -/
theorem rejects_delimitedFor {i : Item} {p : Parser i.Tree} (hp : Accepts p (Derives (.item i)))
    (hf : Rejects p (Breaks (.item i))) (rounds : Nat) : ∀ {ts rest : List Token} {e : Failure},
      ts.length ≤ rounds → (delimitedFor i.closing p rounds).run ts = .error e rest →
        ∃ used, ts = used ++ rest ∧ Breaks (.items i) used rest e := by
  have hend : i.closing ≠ .endOfInput := by cases i <;> decide
  induction rounds with
  | zero =>
    intro ts rest e hr h
    obtain rfl := List.length_eq_zero_iff.mp (Nat.le_zero.mp hr)
    rw [delimitedFor, bind_pure_eq_error] at h
    obtain ⟨rfl, -, rfl⟩ := expect_eq_error hend h
    exact ⟨[], rfl, .itemsEnd⟩
  | succ rounds ih =>
    intro ts rest e hr h
    by_cases hclose : (front ts).kind = i.closing
    · obtain ⟨c, mid, rfl, -⟩ := eq_cons_of_front (hclose ▸ hend)
      rw [delimitedFor_close (t := c) hclose] at h
      cases h
    rw [delimitedFor, bind_of_ok (current_run ts), if_neg hclose, bind_of_ok (atEnd_run ts)] at h
    split at h
    · rename_i hnil
      obtain rfl := List.isEmpty_iff.mp hnil
      rw [bind_of_error (failHere_run _ [])] at h
      cases h
      exact ⟨[], rfl, .itemsEnd⟩
    rw [bind_eq_error] at h
    rcases h with h | ⟨x, mid, hrun, h⟩
    · obtain ⟨used, rfl, hb⟩ := hf h
      exact ⟨used, rfl, .itemsFirst hb⟩
    obtain ⟨us, rfl, hx⟩ := hp hrun
    rw [bind_of_ok (current_run mid)] at h
    dsimp only at h
    split at h
    · -- a comma, and more items
      rename_i hcomma
      obtain ⟨c, mid, rfl, -⟩ := eq_cons_of_front (by rw [hcomma]; decide)
      rw [List.length_append, List.length_cons] at hr
      rw [bind_of_ok (advance_cons c mid)] at h
      rw [bind_pure_eq_error] at h
      obtain ⟨vs, rfl, hb⟩ := ih (by omega) h
      exact ⟨us ++ c :: vs, by simp, .itemsMore hx hcomma hb⟩
    split at h
    · rename_i hcomma hne
      rw [bind_of_error (failHere_run _ mid)] at h
      cases h
      exact ⟨us, rfl, .itemsComma hx hcomma hne⟩
    · rename_i hlast
      replace hlast := Decidable.of_not_not hlast
      obtain ⟨c, mid, rfl, -⟩ := eq_cons_of_front (hlast ▸ hend)
      rw [bind_of_ok (delimitedFor_close (t := c) hlast p rounds mid)] at h
      cases h

/-- What holds of the items holds of the brackets around them, with the opening token in front. -/
theorem rejects_delimited (i : Item) {p : Parser i.Tree} (hp : Accepts p (Derives (.item i)))
    (hf : Rejects p (Breaks (.item i))) {o : Token} (ho : o.kind = i.opening) :
    Rejects (delimited i.closing p) fun used => Breaks (.enclosed i) (o :: used) := by
  intro ts rest e h
  rw [delimited, bind_of_ok (remaining_run ts)] at h
  obtain ⟨used, rfl, hb⟩ := rejects_delimitedFor hp hf _ (Nat.le_refl _) h
  exact ⟨used, rfl, .enclosed ho hb⟩

/-- The pieces of a body break off in a piece, or at the end of the input. -/
def BodyBreaks (missing : Token.Kind) (used rest : List Token) (e : Failure) : Prop :=
  ∃ ts us body, used = ts ++ us ∧ Derives .body ts body ∧
    (Breaks .piece us rest e ∨ us = [] ∧ rest = [] ∧ e = foundAt (.expectedToken missing) [])

/-- A piece in front of a body that breaks off. -/
theorem BodyBreaks.cons {missing : Token.Kind} {ts used rest : List Token} {n : Node} {e : Failure}
    (hn : Derives .piece ts n) (h : BodyBreaks missing used rest e) :
    BodyBreaks missing (ts ++ used) rest e := by
  obtain ⟨us, vs, body, rfl, hbody, hb⟩ := h
  exact ⟨ts ++ us, vs, n :: body, (List.append_assoc ..).symm, .bodyMore hn hbody, hb⟩

/-- A body that breaks off at the end of the input misses one of the two tags that end bodies. -/
theorem BodyBreaks.breaks {missing : Token.Kind} {used rest : List Token} {e : Failure}
    (hm : missing ∈ [.kwEndif, .kwEndfor]) (h : BodyBreaks missing used rest e) :
    Breaks .body used rest e := by
  obtain ⟨ts, us, body, rfl, hbody, hb | ⟨rfl, rfl, rfl⟩⟩ := h
  · exact .bodyPiece hbody hb
  · rw [List.append_nil]
    exact .bodyEnd hbody hm

/-- The pieces of a body fail in a piece, or for want of a tag that ends them. -/
theorem rejects_piecesFor {p : Parser Node} (hp : Accepts p (Derives .piece))
    (hf : Rejects p (Breaks .piece)) (ends : List Token.Kind) (missing : Token.Kind)
    (rounds : Nat) : ∀ {ts rest : List Token} {e : Failure}, ts.length ≤ rounds →
      (piecesFor ends missing p rounds).run ts = .error e rest →
        ∃ used, ts = used ++ rest ∧ BodyBreaks missing used rest e := by
  have at_end : BodyBreaks missing [] [] (foundAt (.expectedToken missing) []) :=
    ⟨[], [], [], rfl, .bodyNil, .inr ⟨rfl, rfl, rfl⟩⟩
  induction rounds with
  | zero =>
    intro ts rest e hr h
    obtain rfl := List.length_eq_zero_iff.mp (Nat.le_zero.mp hr)
    obtain ⟨rfl, rfl⟩ := failHere_eq_error h
    exact ⟨[], rfl, at_end⟩
  | succ rounds ih =>
    intro ts rest e hr h
    rw [piecesFor, bind_of_ok (remaining_run ts)] at h
    split at h
    · cases h
    rw [bind_of_ok (atEnd_run ts)] at h
    split at h
    · rename_i hnil
      obtain rfl := List.isEmpty_iff.mp hnil
      rw [bind_of_error (failHere_run _ [])] at h
      cases h
      exact ⟨[], rfl, at_end⟩
    rw [bind_eq_error] at h
    rcases h with h | ⟨n, mid, hrun, h⟩
    · obtain ⟨used, rfl, hb⟩ := hf h
      exact ⟨used, rfl, [], used, [], rfl, .bodyNil, .inl hb⟩
    rw [bind_pure_eq_error] at h
    obtain ⟨us, rfl, hn⟩ := hp hrun
    have hpos := List.length_pos_iff.mpr hn.begins.1
    rw [List.length_append] at hr
    obtain ⟨vs, rfl, hb⟩ := ih (by omega) h
    exact ⟨us ++ vs, (List.append_assoc ..).symm, hb.cons hn⟩

/-- The pieces of a template fail in a piece only: its end is the end of the input. -/
theorem rejects_allFor {p : Parser Node} (hp : Accepts p (Derives .piece))
    (hf : Rejects p (Breaks .piece)) (rounds : Nat) : Rejects (allFor p rounds) (Breaks .body) := by
  have hbody : Rejects (allFor p rounds) fun used rest e =>
      ∃ ts us body, used = ts ++ us ∧ Derives .body ts body ∧ Breaks .piece us rest e := by
    induction rounds with
    | zero => intro ts rest e h; cases h
    | succ rounds ih =>
      intro ts rest e h
      rw [allFor, bind_of_ok (atEnd_run ts)] at h
      split at h
      · cases h
      rw [bind_eq_error] at h
      rcases h with h | ⟨n, mid, hrun, h⟩
      · obtain ⟨used, rfl, hb⟩ := hf h
        exact ⟨used, rfl, [], used, [], rfl, .bodyNil, hb⟩
      rw [bind_pure_eq_error] at h
      obtain ⟨us, rfl, hn⟩ := hp hrun
      obtain ⟨-, rfl, ws, vs, body, rfl, hbody, hb⟩ := ih h
      exact ⟨us ++ (ws ++ vs), by simp, us ++ ws, vs, n :: body, by simp, .bodyMore hn hbody, hb⟩
  intro ts rest e h
  obtain ⟨-, rfl, us, vs, body, rfl, hus, hb⟩ := hbody h
  exact ⟨us ++ vs, rfl, .bodyPiece hus hb⟩

/-- Parts with their colons, and a part that breaks off behind them. -/
def PartsBreak (used rest : List Token) (e : Failure) : Prop :=
  ∃ ts us ps, used = ts ++ us ∧ Parts ts ps ∧ Breaks .part us rest e

theorem PartsBreak.of_part {used rest : List Token} {e : Failure} (h : Breaks .part used rest e) :
    PartsBreak used rest e := ⟨[], used, [], rfl, .nil, h⟩

/-- A part and its colon in front of parts that break off. -/
theorem PartsBreak.cons {ts used rest : List Token} {c : Token} {part : Option Node} {e : Failure}
    (hpart : Derives .part ts part) (hc : c.kind = .colon) (h : PartsBreak used rest e) :
    PartsBreak (ts ++ c :: used) rest e := by
  obtain ⟨us, vs, ps, rfl, hps, hb⟩ := h
  exact ⟨ts ++ c :: us, vs, part :: ps, by simp, .cons hpart hc hps, hb⟩

/-- The parts of an index fail in the expression of a part, or where neither a colon nor the closing
bracket is behind it. -/
theorem rejects_subscriptFor {p : Parser Node} (hp : Accepts p (Derives (.level .expression)))
    (hf : Rejects p (Breaks (.level .expression))) (rounds : Nat) :
    ∀ {ts rest : List Token} {e : Failure}, ts.length ≤ rounds →
      (subscriptFor p rounds).run ts = .error e rest →
        ∃ used, ts = used ++ rest ∧ PartsBreak used rest e := by
  induction rounds with
  | zero =>
    intro ts rest e hr h
    obtain rfl := List.length_eq_zero_iff.mp (Nat.le_zero.mp hr)
    obtain ⟨rfl, rfl⟩ := failHere_eq_error h
    exact ⟨[], rfl, .of_part .partEnd⟩
  | succ rounds ih =>
    intro ts rest e hr h
    rw [subscriptFor, bind_of_ok (current_run ts)] at h
    dsimp only at h
    split at h
    · cases h
    rw [bind_of_ok (atEnd_run ts)] at h
    split at h
    · rename_i hnil
      obtain rfl := List.isEmpty_iff.mp hnil
      rw [bind_of_error (failHere_run _ [])] at h
      cases h
      exact ⟨[], rfl, .of_part .partEnd⟩
    split at h
    · -- a colon at once
      rename_i hc
      obtain ⟨c, mid, rfl, -⟩ := eq_cons_of_front (by rw [hc]; decide)
      rw [bind_of_ok (advance_cons c mid), bind_pure_eq_error] at h
      obtain ⟨us, rfl, hb⟩ := ih (Nat.le_of_succ_le_succ hr) h
      exact ⟨c :: us, rfl, hb.cons .absent hc⟩
    rw [bind_eq_error] at h
    rcases h with h | ⟨n, mid, hrun, h⟩
    · obtain ⟨us, rfl, hb⟩ := hf h
      exact ⟨us, rfl, .of_part (.partValue hb)⟩
    obtain ⟨us, rfl, hn⟩ := hp hrun
    rw [bind_of_ok (current_run mid)] at h
    split at h
    · -- an expression and a colon
      rename_i hc
      obtain ⟨c, mid, rfl, -⟩ := eq_cons_of_front (by rw [hc]; decide)
      rw [List.length_append, List.length_cons] at hr
      rw [bind_of_ok (advance_cons c mid), bind_pure_eq_error] at h
      obtain ⟨vs, rfl, hb⟩ := ih (by omega) h
      exact ⟨us ++ c :: vs, by simp, hb.cons (.present hn) hc⟩
    split at h
    · cases h
    · rename_i hcolon hclose
      obtain ⟨rfl, rfl⟩ := failHere_eq_error h
      exact ⟨us, rfl, .of_part (.partBehind hn hcolon hclose)⟩

/-- The parts between brackets are read up to the closing one. -/
theorem front_of_subscriptFor {p : Parser Node} {rounds : Nat} {ts rest : List Token}
    {parts : Subscript} (h : (subscriptFor p rounds).run ts = .ok parts rest) :
    (front rest).kind = .rightBracket := by
  induction rounds generalizing ts parts with
  | zero => rw [subscriptFor, failHere_run] at h; cases h
  | succ rounds ih =>
    rw [subscriptFor, bind_of_ok (current_run ts)] at h
    dsimp only at h
    split at h
    · obtain ⟨rfl, rfl⟩ := pure_eq_ok.mp h
      assumption
    rw [bind_of_ok (atEnd_run ts)] at h
    split at h
    · rw [bind_of_error (failHere_run _ ts)] at h
      cases h
    split at h
    · simp only [bind_eq_ok] at h
      obtain ⟨_, _, _, later, _, hlater, h⟩ := h
      obtain ⟨rfl, rfl⟩ := pure_eq_ok.mp h
      exact ih hlater
    rw [bind_eq_ok] at h
    obtain ⟨n, mid, -, h⟩ := h
    rw [bind_of_ok (current_run mid)] at h
    split at h
    · simp only [bind_eq_ok] at h
      obtain ⟨_, _, _, later, _, hlater, h⟩ := h
      obtain ⟨rfl, rfl⟩ := pure_eq_ok.mp h
      exact ih hlater
    split at h
    · obtain ⟨rfl, rfl⟩ := pure_eq_ok.mp h
      assumption
    · rw [failHere_run] at h
      cases h

/-- An index fails in one of its parts, or at its closing bracket when it has no part or too many.
-/
theorem rejects_subscript {p : Parser Node} (hp : Accepts p (Derives (.level .expression)))
    (hf : Rejects p (Breaks (.level .expression))) : Rejects (subscript p) (Breaks .index) := by
  intro ts rest e h
  rw [subscript, bind_of_ok (remaining_run ts), bind_eq_error] at h
  rcases h with h | ⟨⟨before, last⟩, mid, hparts, h⟩
  · obtain ⟨-, rfl, us, vs, ps, rfl, hps, hb⟩ := rejects_subscriptFor hp hf _ (Nat.le_refl _) h
    exact ⟨us ++ vs, rfl, .index hps hb⟩
  have hclose := front_of_subscriptFor hparts
  obtain ⟨used, rfl, hused⟩ := accepts_subscriptFor hp _ hparts
  refine ⟨used, ?_⟩
  unfold Collected at hused
  cases before with
  | nil =>
    cases last with
    | none =>
      obtain rfl : used = [] := hused
      obtain ⟨rfl, rfl⟩ := failHere_eq_error h
      exact ⟨rfl, .emptyIndex hclose⟩
    | some n => cases h
  | cons b before =>
    dsimp only at h hused
    split at h
    · cases h
    · cases h
    · cases h
    · rename_i hone htwo hthree
      obtain ⟨rfl, rfl⟩ := failHere_eq_error h
      refine ⟨rfl, .sliceParts hused ?_ hclose⟩
      have hne : b :: before ++ (last.map some).toList ≠ [] := by simp
      generalize b :: before ++ (last.map some).toList = parts at *
      rcases parts with _ | ⟨start, _ | ⟨stop, _ | ⟨step, _ | ⟨more, parts⟩⟩⟩⟩
      · exact absurd rfl hne
      · exact absurd rfl (hone start)
      · exact absurd rfl (htwo start stop)
      · exact absurd rfl (hthree start stop step)
      · simp

end Stencil.Grammar
