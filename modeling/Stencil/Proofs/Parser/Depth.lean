import Stencil.Proofs.Parser.Congruence
import Stencil.Proofs.Parser.Run

/-!
# Parser — the limit of nesting

A rule that may enter more rules inside one another answers as before wherever the nesting was not
too deep before (`Shallower`).  So a result is the same at every depth at which the nesting is not
too deep (`rules_shallower`, `all_shallower`), and what holds at some depth holds at the limit,
unless the nesting is too deep there.
-/

namespace Stencil.Parser

variable {α β : Type}

/-- The nesting was found too deep. -/
def TooDeep (result : EStateM.Result Failure (List Token) α) : Prop :=
  ∃ token rest, result = .error (.malformed ⟨.nestingTooDeep, token⟩) rest

theorem not_tooDeep_ok (a : α) (rest : List Token) :
    ¬ TooDeep (.ok a rest : EStateM.Result Failure (List Token) α) := by
  rintro ⟨_, _, h⟩
  cases h

/-- `q` answers as `p` wherever `p` does not find the nesting too deep. -/
def Shallower (p q : Parser α) : Prop := ∀ ts, TooDeep (p.run ts) ∨ p.run ts = q.run ts

theorem Shallower.refl (p : Parser α) : Shallower p p := fun _ => .inr rfl

/-- The rule that always finds the nesting too deep is shallower than any. -/
theorem shallower_tooDeep (q : Parser Node) : Shallower tooDeep q :=
  fun ts => .inl ⟨_, ts, failHere_run _ ts⟩

/-- A sequence is found too deep if its first part is, or its second behind the same result. -/
theorem Shallower.bind {p q : Parser α} {f g : α → Parser β} (h : Shallower p q)
    (hf : ∀ a, Shallower (f a) (g a)) : Shallower (p >>= f) (q >>= g) := by
  intro ts
  rcases h ts with ⟨t, rest, hp⟩ | heq
  · exact .inl ⟨t, rest, bind_of_error hp⟩
  · cases hp : p.run ts with
    | ok a mid =>
      rw [bind_of_ok hp, bind_of_ok (heq ▸ hp)]
      exact hf a mid
    | error e mid =>
      rw [bind_of_error hp, bind_of_error (heq ▸ hp)]
      exact .inr rfl

/-- None of the combinators of the parser looks at the depth. -/
theorem respects_shallower : Respects Shallower where
  pure _ := .refl _
  bind := .bind
  fail _ _ := .refl _
  refuse _ := .refl _
  remaining := .refl _
  current := .refl _
  advance := .refl _
  atEnd := .refl _
  sees _ := .refl _
  expect _ := .refl _

/-- Without depth every rule finds the nesting too deep. -/
theorem rules_shallower_zero (e : Nat) : RulesRelated (fun _ => Shallower) 0 e := by
  have entry : Shallower (do return (← tooDeep, .bare)) (entry e) :=
    fun ts => .inl ⟨_, ts, bind_of_error (failHere_run _ ts)⟩
  have arguments : Shallower (do return [← tooDeep]) (arguments e) :=
    fun ts => .inl ⟨_, ts, bind_of_error (failHere_run _ ts)⟩
  constructor <;>
    first
    | exact shallower_tooDeep _
    | exact fun _ => shallower_tooDeep _
    | exact fun _ _ _ => shallower_tooDeep _
    | exact entry
    | exact arguments

/-- **A deeper rule answers as a shallower one** that does not find the nesting too deep. -/
theorem rules_shallower : ∀ {d e : Nat}, d ≤ e → RulesRelated (fun _ => Shallower) d e
  | 0, e, _ => rules_shallower_zero e
  | _ + 1, _ + 1, h =>
    respects_shallower.guarded.rules_succ (rules_shallower (Nat.le_of_succ_le_succ h))

/-- A result found at some depth is found at every depth at which the nesting is not too deep. -/
theorem eq_of_shallower {p : Nat → Parser α} (hp : ∀ {d e}, d ≤ e → Shallower (p d) (p e))
    {ts : List Token} {d e : Nat} (hd : ¬ TooDeep ((p d).run ts)) (he : ¬ TooDeep ((p e).run ts)) :
    (p d).run ts = (p e).run ts := by
  rcases Nat.le_total d e with h | h
  · exact (hp h ts).resolve_left hd
  · exact ((hp h ts).resolve_left he).symm

/-- Whole templates, too, are answered alike at a greater depth. -/
theorem all_shallower {d e : Nat} (h : d ≤ e) : Shallower (all (piece d)) (all (piece e)) :=
  respects_shallower.guarded.all (rules_shallower h).piece

end Stencil.Parser
