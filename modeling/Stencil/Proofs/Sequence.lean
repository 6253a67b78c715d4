/-!
# Sequences of computations

What a sequence does, for computations that have a state and may fail: the parser, whose state is
the tokens left, and the lexer.  `bind_of_ok` and `bind_of_error` run a sequence forwards, and
`bind_eq_ok` and `bind_eq_error` open one that succeeded or failed.
-/

namespace Stencil

variable {ε σ α β : Type} {p : EStateM ε σ α} {f : α → EStateM ε σ β} {s s' : σ} {a : α} {b : β}
  {e : ε}

/-- Behind a success the sequence goes on with its result. -/
theorem bind_of_ok (h : p.run s = .ok a s') : (p >>= f).run s = (f a).run s' := by
  rw [EStateM.run_bind, h]

/-- Behind an error nothing goes on. -/
theorem bind_of_error (h : p.run s = .error e s') : (p >>= f).run s = .error e s' := by
  rw [EStateM.run_bind, h]

/-- A sequence succeeds iff both of its parts do, one behind the other. -/
theorem bind_eq_ok : (p >>= f).run s = .ok b s' ↔
    ∃ a mid, p.run s = .ok a mid ∧ (f a).run mid = .ok b s' := by
  constructor
  · intro h
    cases hp : p.run s with
    | ok a mid => exact ⟨a, mid, rfl, by rwa [bind_of_ok hp] at h⟩
    | error e mid => rw [bind_of_error hp] at h; cases h
  · rintro ⟨a, mid, hp, hf⟩
    rw [bind_of_ok hp, hf]

/-- A sequence fails in its first part or behind it. -/
theorem bind_eq_error : (p >>= f).run s = .error e s' ↔
    p.run s = .error e s' ∨ ∃ a mid, p.run s = .ok a mid ∧ (f a).run mid = .error e s' := by
  constructor
  · intro h
    cases hp : p.run s with
    | ok a mid => exact .inr ⟨a, mid, rfl, by rwa [bind_of_ok hp] at h⟩
    | error e mid =>
      rw [bind_of_error hp] at h
      cases h
      exact .inl rfl
  · rintro (hp | ⟨a, mid, hp, hf⟩)
    · exact bind_of_error hp
    · rw [bind_of_ok hp, hf]

/-- What is only made of a result fails with it. -/
theorem bind_pure_eq_error {g : α → β} :
    (p >>= fun a => pure (g a)).run s = .error e s' ↔ p.run s = .error e s' :=
  bind_eq_error.trans (or_iff_left fun ⟨_, _, _, h⟩ => nomatch h)

theorem pure_run (a : α) (s : σ) : (pure a : EStateM ε σ α).run s = .ok a s := rfl

/-- A result that is at hand leaves the state as it is. -/
theorem pure_eq_ok {a' : α} : (pure a : EStateM ε σ α).run s = .ok a' s' ↔ a = a' ∧ s = s' := by
  rw [pure_run, EStateM.Result.ok.injEq]

theorem get_run (s : σ) : (get : EStateM ε σ σ).run s = .ok s s := rfl

/-- Two sequences that go on alike after results that are alike. -/
theorem bind_congr_run {q : EStateM ε σ α} {g : α → EStateM ε σ β} {t : σ}
    (h : p.run s = q.run t) (hf : ∀ a mid, p.run s = .ok a mid → (f a).run mid = (g a).run mid) :
    (p >>= f).run s = (q >>= g).run t := by
  cases hp : p.run s with
  | ok a mid => rw [bind_of_ok hp, bind_of_ok (h ▸ hp), hf a mid hp]
  | error e mid => rw [bind_of_error hp, bind_of_error (h ▸ hp)]

/-- Sequences may be grouped either way. -/
theorem bind_assoc_run {γ : Type} (p : EStateM ε σ α) (f : α → EStateM ε σ β)
    (g : β → EStateM ε σ γ) (s : σ) :
    ((p >>= f) >>= g).run s = (p >>= fun a => f a >>= g).run s := by
  rw [bind_assoc]

end Stencil
