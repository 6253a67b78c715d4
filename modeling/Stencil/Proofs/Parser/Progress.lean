import Stencil.Proofs.Parser.Congruence
import Stencil.Proofs.Parser.Run

/-!
# Parser — progress

No rule makes up a token or puts one back: what it leaves is the end of what it found, whether it
succeeds or fails (`rules_trim`).  A rule that takes a token first leaves fewer
(`length_lt_of_advance`, `length_lt_of_arguments`).
-/

namespace Stencil.Parser

variable {α β : Type}

/-- The tokens that a run leaves. -/
def behind : EStateM.Result Failure (List Token) α → List Token
  | .ok _ rest => rest
  | .error _ rest => rest

/-- What a rule leaves is the end of what it found. -/
def Trims (p : Parser α) : Prop := ∀ ts, behind (p.run ts) <:+ ts

/-- A rule that succeeds leaves the end of its tokens. -/
theorem Trims.suffix {p : Parser α} (h : Trims p) {ts rest : List Token} {a : α}
    (hp : p.run ts = .ok a rest) : rest <:+ ts := by
  have := h ts
  rwa [hp] at this

/-- A rule that fails leaves the end of its tokens, too: it has not gone back. -/
theorem Trims.suffix_of_error {p : Parser α} (h : Trims p) {ts rest : List Token} {e : Failure}
    (hp : p.run ts = .error e rest) : rest <:+ ts := by
  have := h ts
  rwa [hp] at this

/-- What takes nothing leaves everything. -/
theorem trims_of_left {p : Parser α} (h : ∀ ts, behind (p.run ts) = ts) : Trims p :=
  fun ts => ⟨[], h ts⟩

theorem trims_failHere (cause : Cause) : Trims (α := α) (failHere cause) :=
  trims_of_left fun ts => by rw [failHere_run]; rfl

/-- The end of an end is an end. -/
theorem Trims.bind {p : Parser α} {f : α → Parser β} (h : Trims p) (hf : ∀ a, Trims (f a)) :
    Trims (p >>= f) := by
  intro ts
  cases hp : p.run ts with
  | ok a mid =>
    rw [bind_of_ok hp]
    exact (hf a mid).trans (h.suffix hp)
  | error e mid =>
    rw [bind_of_error hp]
    exact h.suffix_of_error hp

theorem trims_advance : Trims advance := fun ts =>
  match ts with
  | [] => List.suffix_rfl
  | t :: ts => List.suffix_cons t ts

/-- An expected token is taken, or everything is left. -/
theorem trims_expect (kind : Token.Kind) : Trims (expect kind) := fun ts =>
  match ts with
  | [] => trims_failHere _ []
  | t :: ts => by
    by_cases ht : t.kind = kind
    · rw [expect_cons ht]
      exact List.suffix_cons t ts
    · rw [expect_of_ne (by rintro _ _ ⟨⟩; exact ht)]
      exact List.suffix_rfl

/-- Every combinator of the parser leaves the end of what it found if its parts do. -/
theorem respects_trims : Respects fun (p _ : Parser _) => Trims p where
  pure _ := trims_of_left fun _ => rfl
  bind := .bind
  fail _ _ := trims_of_left fun _ => rfl
  refuse _ := trims_of_left fun _ => rfl
  remaining := trims_of_left fun _ => rfl
  current := trims_of_left fun _ => rfl
  advance := trims_advance
  atEnd := trims_of_left fun _ => rfl
  sees _ := trims_of_left fun _ => rfl
  expect := trims_expect

/-- **What a rule leaves is the end of what it found.** -/
theorem rules_trim (d : Nat) : RulesRelated (fun _ {α} (p _ : Parser α) => Trims p) d d :=
  respects_trims.guarded.rules d

theorem trims_nameOf (kinds : List Token.Kind) (cause : String → Cause) :
    Trims (nameOf kinds cause) := by
  refine Trims.bind respects_trims.current fun t => ?_
  split
  · exact trims_advance.bind fun _ => respects_trims.pure _
  · exact respects_trims.fail _ _

/-- Steps leave the end of what they found however often they are repeated. -/
theorem trims_again {step : Steps} (hs : ∀ {node kind p}, step node kind = some p → Trims p)
    (node : Node) : Trims (again step node) := by
  have related (node : Node) (kind : Token.Kind) :
      Option.Rel (fun p _ => Trims p) (step node kind) (step node kind) := by
    cases h : step node kind with
    | none => exact .none
    | some p => exact .some (hs h)
  exact fun ts => respects_trims.guarded.extendFor related ts.length node ts

/-! ### Rules that take a token first -/

/-- A rule behind a token that is taken leaves fewer tokens. -/
theorem length_lt_of_advance {p : Token → Parser α} (hp : ∀ t, Trims (p t)) {ts rest : List Token}
    {a : α} (hfront : (front ts).kind ≠ .endOfInput)
    (h : (advance >>= p).run ts = .ok a rest) : rest.length < ts.length := by
  obtain ⟨t, mid, rfl, -⟩ := eq_cons_of_front hfront
  rw [bind_of_ok (advance_cons t mid)] at h
  exact Nat.lt_succ_of_le ((hp t).suffix h).length_le

/-- Arguments begin with their parenthesis. -/
theorem length_lt_of_arguments {d : Nat} {p : List Node → Parser α} (hp : ∀ args, Trims (p args))
    {ts rest : List Token} {a : α} (h : (arguments d >>= p).run ts = .ok a rest) :
    rest.length < ts.length := by
  cases d with
  | zero =>
    have deep : (tooDeep >>= fun n => pure [n] : Parser (List Node)).run ts = _ :=
      bind_of_error (failHere_run _ ts)
    rw [arguments, bind_of_error deep] at h
    cases h
  | succ d =>
    rw [arguments, bind_assoc_run, bind_eq_ok] at h
    obtain ⟨o, mid, hopen, h⟩ := h
    obtain ⟨rfl, -⟩ := expect_eq_ok.mp hopen
    have items : Trims (delimited .rightParen (argument d)) :=
      respects_trims.guarded.delimited (q := argument d) _ (rules_trim d).argument
    exact Nat.lt_succ_of_le ((items.bind hp).suffix h).length_le

end Stencil.Parser
