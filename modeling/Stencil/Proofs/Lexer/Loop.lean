import Stencil.Proofs.Lexer.Fault
import Stencil.Proofs.Lexer.Reader

/-!
# Lexer — the loop over all tokens

The tokens of a text are made call by call up to the end of the input.  `Loops` is that loop, without
a bound on its rounds: it goes on for as long as a call makes a token.  It is what the lexer does
(`loops_drain`), for there are rounds enough: every call that makes a token takes a character.

So the lexer is done after as many tokens as the text has characters at most, it moves over characters
that are there, and where it fails it fails over the text (`tokens_finish`).
-/

namespace Stencil.Lexer

variable {lexer lexer' mid : Lexer} {e : Error} {token : Token}

/-- A result, with a token before the tokens of it. -/
def resultBehind (token : Token) :
    EStateM.Result Error Lexer (List Token) → EStateM.Result Error Lexer (List Token)
  | .ok ts lexer => .ok (token :: ts) lexer
  | .error e lexer => .error e lexer

/-- Calls up to the end of the input or to a failure, how many of them make a token, and what they
come to. -/
inductive Loops : Lexer → Nat → EStateM.Result Error Lexer (List Token) → Prop
  | ended {lexer lexer' : Lexer} {token : Token} : next.run lexer = .ok token lexer' →
      token.kind = .endOfInput → Loops lexer 0 (.ok [] lexer')
  | failed {lexer lexer' : Lexer} {e : Error} : next.run lexer = .error e lexer' →
      Loops lexer 0 (.error e lexer')
  | more {lexer mid : Lexer} {token : Token} {made : Nat}
      {result : EStateM.Result Error Lexer (List Token)} : next.run lexer = .ok token mid →
      token.kind ≠ .endOfInput → Loops mid made result →
      Loops lexer (made + 1) (resultBehind token result)

/-- What a call that makes a token leaves is shorter. -/
theorem length_lt_of_next (h : next.run lexer = .ok token lexer') (hkind : token.kind ≠ .endOfInput) :
    lexer'.cursor.rest.length < lexer.cursor.rest.length := by
  rcases answers_next h with hpasses | ⟨hend, -⟩
  · exact hpasses.length_lt (List.cons_ne_nil _ _)
  · exact absurd hend hkind

/-- **The bound on the rounds is none.**  With one round more than characters the lexer does what the
loop does, which makes no more tokens than there are characters. -/
theorem loops_drain (rounds : Nat) : ∀ lexer : Lexer, lexer.cursor.rest.length < rounds →
    ∃ made ≤ lexer.cursor.rest.length, Loops lexer made ((drain rounds).run lexer) := by
  induction rounds with
  | zero => exact fun _ hrounds => absurd hrounds (Nat.not_lt_zero _)
  | succ rounds ih =>
    intro lexer hrounds
    rw [drain]
    cases hnext : next.run lexer with
    | error e lexer' =>
      rw [bind_of_error hnext]
      exact ⟨0, Nat.zero_le _, .failed hnext⟩
    | ok token mid =>
      rw [bind_of_ok hnext]
      by_cases hkind : token.kind = .endOfInput
      · rw [if_pos hkind]
        exact ⟨0, Nat.zero_le _, .ended hnext hkind⟩
      · have hshorter := length_lt_of_next hnext hkind
        obtain ⟨made, hmade, hloops⟩ := ih mid (by omega)
        refine ⟨made + 1, by omega, ?_⟩
        have hbehind : (drain rounds >>= fun ts => pure (token :: ts)).run mid =
            resultBehind token ((drain rounds).run mid) := by
          rw [EStateM.run_bind]
          cases (drain rounds).run mid <;> rfl
        rw [if_neg hkind, hbehind]
        exact .more hnext hkind hloops

/-- The loop comes to as many tokens as calls made one, or to a fault of the text. -/
theorem Loops.comes_to {made : Nat} {result : EStateM.Result Error Lexer (List Token)}
    (h : Loops lexer made result) : (∃ ts last, result = .ok ts last ∧ ts.length = made) ∨
      ∃ e last, result = .error e last ∧ e.IsFault := by
  induction h with
  | ended => exact .inl ⟨_, _, rfl, rfl⟩
  | failed hnext => exact .inr ⟨_, _, rfl, blames_next _ hnext⟩
  | more _ _ _ ih =>
    rcases ih with ⟨ts, last, rfl, rfl⟩ | ⟨e, last, rfl, hfault⟩
    · exact .inl ⟨_, _, rfl, rfl⟩
    · exact .inr ⟨_, _, rfl, hfault⟩

/-- The next call is in order: it moves over characters that are there; if it makes a token, it moves
on; at the end of the input, it leaves a lexer that answers alike and does not change any more; and if
it fails, then over the text. -/
def Orderly (lexer : Lexer) : Prop :=
  Ahead lexer (leftBy next lexer) ∧
  match next.run lexer with
  | .ok token lexer' =>
    if token.kind = .endOfInput then next.run lexer' = .ok token lexer'
    else lexer.cursor.place.position < lexer'.cursor.place.position
  | .error e _ => e.IsFault

/-- Every call is in order. -/
theorem orderly (lexer : Lexer) : Orderly lexer := by
  refine ⟨moves_next lexer, ?_⟩
  cases hnext : next.run lexer with
  | error e lexer' => exact blames_next lexer hnext
  | ok token lexer' =>
    by_cases hkind : token.kind = .endOfInput
    · exact (if_pos hkind).mpr (next_of_endOfInput hnext hkind)
    · exact (if_neg hkind).mpr (position_lt_of_next hnext hkind)

/-- **The lexer finishes, and fails over the text only.**  Every call on a text is in order.  The tokens
are made by calls without a bound on them, of which no more make a token than the text has characters;
and they come to so many tokens or to a fault of the text. -/
theorem tokens_finish (source : String) : (∀ n, Orderly (calls n (ofText source)).2) ∧
    ∃ made ≤ source.length, Loops (ofText source) made (tokens.run (ofText source)) ∧
      match tokenize source with
      | .ok ts => ts.length = made
      | .error e => e.IsFault := by
  obtain ⟨made, hmade, hloops⟩ : ∃ made ≤ source.length,
      Loops (ofText source) made (tokens.run (ofText source)) :=
    loops_drain _ (ofText source) (Nat.lt_succ_self _)
  refine ⟨fun n => orderly _, made, hmade, hloops, ?_⟩
  rcases hloops.comes_to with ⟨ts, last, hrun, hlength⟩ | ⟨e, last, hrun, hfault⟩
  · simpa only [tokenize, hrun] using hlength
  · simpa only [tokenize, hrun] using hfault

end Stencil.Lexer
