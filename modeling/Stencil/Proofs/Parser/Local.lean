import Stencil.Proofs.Parser.Rounds

/-!
# Parser — how far a rule looks

What a rule does is settled by the tokens that it takes and, behind them, by the kinds of at most
two more (`Local`).  Other tokens may be put behind these, or none: a rule that succeeds still takes
the same tokens with the same result, and one that fails still fails in the same place with the same
error, as long as the two tokens there are the same.

There is a lemma for each combinator, as for a congruence.  A test of the kind of the token at hand
looks one token ahead, and the search for the tag that ends a block looks two.  A sequence looks as
far as its last part does; what a part in its midst looks ahead may be what a later part takes
(`Local.before`).
-/

namespace Stencil.Parser

variable {α β : Type}

/-- So many tokens are of the same kinds, or both lists end alike before. -/
def Alike (count : Nat) (ts us : List Token) : Prop :=
  (ts.take count).map Token.kind = (us.take count).map Token.kind

/-- Both lists begin with the same tokens, so many at least. -/
def Sure (count : Nat) (ts us : List Token) : Prop :=
  ∃ first ts' us', first.length = count ∧ ts = first ++ ts' ∧ us = first ++ us'

/-- The rule looks at the tokens that it takes, and behind them at the kinds of the next `ahead`.
Where it is `sure`, so many tokens are known to be there. -/
structure Local (sure : Nat) (ahead : Fin 3) (p : Parser α) : Prop where
  trims : Trims p
  ok : ∀ {used rest rest' : List Token} {a : α}, p.run (used ++ rest) = .ok a rest →
    Alike ahead rest rest' → Sure sure (used ++ rest) (used ++ rest') →
      p.run (used ++ rest') = .ok a rest'
  error : ∀ {used rest rest' : List Token} {e : Failure}, p.run (used ++ rest) = .error e rest →
    rest.take 2 = rest'.take 2 → Sure sure (used ++ rest) (used ++ rest') →
      p.run (used ++ rest') = .error e rest'

/-! ### Tokens in common -/

theorem sure_zero (ts us : List Token) : Sure 0 ts us := ⟨[], ts, us, rfl, rfl, rfl⟩

/-- One more token is known on both sides when it is the same on both. -/
theorem sure_succ {n : Nat} {ts us : List Token} :
    Sure (n + 1) ts us ↔ ∃ t ts' us', ts = t :: ts' ∧ us = t :: us' ∧ Sure n ts' us' := by
  constructor
  · rintro ⟨first, ts', us', hlength, rfl, rfl⟩
    obtain ⟨t, first, rfl⟩ := List.exists_cons_of_length_eq_add_one hlength
    exact ⟨t, _, _, rfl, rfl, first, ts', us', Nat.succ.inj hlength, rfl, rfl⟩
  · rintro ⟨t, _, _, rfl, rfl, first, ts', us', hlength, rfl, rfl⟩
    exact ⟨t :: first, ts', us', congrArg (· + 1) hlength, rfl, rfl⟩

/-- As many equal tokens in front as there are tokens at least. -/
theorem sure_of_take {n : Nat} {ts us : List Token} (h : ts.take n = us.take n)
    (hn : n ≤ ts.length) : Sure n ts us :=
  ⟨ts.take n, ts.drop n, us.drop n, List.length_take_of_le hn, (List.take_append_drop n ts).symm,
    by rw [h, List.take_append_drop]⟩

/-- What is alike further ahead is alike nearer by. -/
theorem Alike.of_le {m n : Nat} {ts us : List Token} (h : Alike n ts us) (hmn : m ≤ n) :
    Alike m ts us := by
  have := congrArg (List.take m) h
  rwa [← List.map_take, ← List.map_take, List.take_take, List.take_take, Nat.min_eq_left hmn]
    at this

theorem alike_of_take {n : Nat} {ts us : List Token} (h : ts.take n = us.take n) : Alike n ts us :=
  congrArg (List.map Token.kind) h

/-- Two rows with equal fronts are both at their end, or begin with one token and have equal fronts
behind it. -/
theorem take_succ_eq {n : Nat} {ts us : List Token} (h : ts.take (n + 1) = us.take (n + 1)) :
    ts = [] ∧ us = [] ∨ ∃ t ts' us', ts = t :: ts' ∧ us = t :: us' := by
  cases ts with
  | nil => cases us with
    | nil => exact .inl ⟨rfl, rfl⟩
    | cons u us => cases h
  | cons t ts => cases us with
    | nil => cases h
    | cons u us =>
      obtain ⟨rfl, -⟩ := List.cons.inj h
      exact .inr ⟨t, ts, us, rfl, rfl⟩

/-- Tokens in front of what is alike. -/
theorem Alike.append {c m n : Nat} {ts us : List Token} (h : Alike n ts us) (first : List Token)
    (hc : c ≤ first.length) (hm : m ≤ n + c) : Alike m (first ++ ts) (first ++ us) := by
  unfold Alike
  rw [List.take_append, List.take_append, List.map_append, List.map_append]
  exact congrArg (List.map Token.kind (first.take m) ++ ·) (h.of_le (by omega))

/-- Two rows that are alike are both at their end, or begin with one kind and are alike behind it.
-/
theorem alike_succ {n : Nat} {ts us : List Token} (h : Alike (n + 1) ts us) :
    ts = [] ∧ us = [] ∨
      ∃ t ts' u us', ts = t :: ts' ∧ us = u :: us' ∧ t.kind = u.kind ∧ Alike n ts' us' := by
  cases ts with
  | nil => cases us with
    | nil => exact .inl ⟨rfl, rfl⟩
    | cons u us => cases h
  | cons t ts => cases us with
    | nil => cases h
    | cons u us =>
      obtain ⟨hkind, h⟩ := List.cons.inj h
      exact .inr ⟨t, ts, u, us, rfl, rfl, hkind, h⟩

/-- The tokens at hand are of one kind. -/
theorem Alike.front {n : Nat} {ts us : List Token} (h : Alike (n + 1) ts us) :
    (front ts).kind = (front us).kind := by
  obtain ⟨rfl, rfl⟩ | ⟨t, ts, u, us, rfl, rfl, hkind, -⟩ := alike_succ h
  · rfl
  · exact hkind

theorem Alike.isEmpty {n : Nat} {ts us : List Token} (h : Alike (n + 1) ts us) :
    ts.isEmpty = us.isEmpty := by
  obtain ⟨rfl, rfl⟩ | ⟨t, ts, u, us, rfl, rfl, -⟩ := alike_succ h <;> rfl

/-- A test of no more kinds than are alike comes out the same. -/
theorem Alike.beginsWith {n : Nat} {ts us : List Token} (h : Alike n ts us)
    {kinds : List Token.Kind} (hn : kinds.length ≤ n) :
    beginsWith kinds ts = beginsWith kinds us := by
  induction kinds generalizing n ts us with
  | nil => rfl
  | cons kind kinds ih =>
    obtain ⟨n, rfl⟩ := Nat.exists_eq_add_one.mpr (Nat.zero_lt_of_lt hn)
    obtain ⟨rfl, rfl⟩ | ⟨t, ts, u, us, rfl, rfl, hkind, h⟩ := alike_succ h
    · rfl
    · rw [Parser.beginsWith, Parser.beginsWith, hkind, ih h (Nat.le_of_succ_le_succ hn)]

namespace Local

variable {s : Nat} {j k : Fin 3} {p : Parser α}

/-- Fewer tokens known, and fewer looked at, is more. -/
theorem mono (h : Local 0 j p) (hjk : j ≤ k) : Local s k p where
  trims := h.trims
  ok hp hrest _ := h.ok hp (hrest.of_le hjk) (sure_zero _ _)
  error hp hrest _ := h.error hp hrest (sure_zero _ _)

/-- What a rule takes whenever it succeeds need not be known to be there. -/
theorem of_takes {n : Nat} (h : Local n k p) (htakes : Takes n p) (hn : n ≤ 2) : Local 0 k p where
  trims := h.trims
  ok {used rest _ _} hp hrest _ := by
    have hle := htakes hp
    rw [List.length_append] at hle
    refine h.ok hp hrest (sure_of_take ?_ (by rw [List.length_append]; omega))
    rw [List.take_append_of_le_length (by omega), List.take_append_of_le_length (by omega)]
  error {used rest rest' _} hp hrest _ := by
    by_cases hlength : n ≤ (used ++ rest).length
    · refine h.error hp hrest (sure_of_take ?_ hlength)
      have hrest := congrArg (List.take (n - used.length)) hrest
      rw [List.take_take, List.take_take, Nat.min_eq_left (by omega)] at hrest
      rw [List.take_append, List.take_append, hrest]
    · -- so few tokens that they are all the same
      have hle : rest.length < 2 := by rw [List.length_append] at hlength; omega
      have hle' : rest'.length < 2 := by
        have := congrArg List.length hrest
        simp only [List.length_take] at this
        omega
      rw [List.take_of_length_le (Nat.le_of_lt hle), List.take_of_length_le (Nat.le_of_lt hle')]
        at hrest
      rwa [← hrest]

/-! ### Tokens and errors -/

theorem pure (a : α) : Local s k (Pure.pure a) where
  trims := respects_trims.pure a
  ok hp _ _ := by
    obtain ⟨rfl, hused⟩ := pure_eq_ok.mp hp
    obtain rfl := List.append_left_eq_self.mp hused
    rfl
  error hp _ _ := by cases hp

/-- A failure looks at nothing. -/
theorem fail (cause : Cause) (t : Token) : Local s k (fail (α := α) cause t) where
  trims := respects_trims.fail cause t
  ok hp _ _ := by cases hp
  error hp _ _ := by
    rw [fail_run] at hp
    obtain ⟨rfl, hused⟩ := EStateM.Result.error.inj hp
    obtain rfl := List.append_left_eq_self.mp hused
    rfl

theorem refuse (e : Numeral.Error) : Local s k (throw (.numeral e) : Parser Node) where
  trims := respects_trims.refuse e
  ok hp _ _ := by cases hp
  error hp _ _ := by
    obtain ⟨rfl, hused⟩ := EStateM.Result.error.inj hp
    obtain rfl := List.append_left_eq_self.mp hused
    rfl

/-- A failure at the token at hand names a token that is known, or whose kind is. -/
theorem failHere (cause : Cause) : Local s k (failHere (α := α) cause) where
  trims := trims_failHere cause
  ok hp _ _ := by rw [failHere_run] at hp; cases hp
  error {used rest rest' e} hp hrest _ := by
    rw [failHere_run] at hp
    obtain ⟨rfl, hused⟩ := EStateM.Result.error.inj hp
    obtain rfl := List.append_left_eq_self.mp hused
    have hfront : front rest = front rest' := by
      obtain ⟨rfl, rfl⟩ | ⟨t, ts, us, rfl, rfl⟩ := take_succ_eq hrest <;> rfl
    rw [List.nil_append, List.nil_append, failHere_run, hfront]

/-- A token of a kind is taken, or it is not the token at hand. -/
theorem expect (kind : Token.Kind) : Local s k (expect kind) where
  trims := trims_expect kind
  ok {used rest rest' t} hp _ _ := by
    obtain ⟨hts, ht⟩ := expect_eq_ok.mp hp
    obtain rfl : used = [t] := List.append_cancel_right hts
    exact expect_cons ht rest'
  error {used rest rest' e} hp hrest _ := by
    have hne : ∀ t ts, used ++ rest = t :: ts → t.kind ≠ kind := by
      intro t ts hts ht
      rw [hts, expect_cons ht] at hp
      cases hp
    rw [expect_of_ne hne] at hp
    obtain ⟨rfl, hused⟩ := EStateM.Result.error.inj hp
    obtain rfl := List.append_left_eq_self.mp hused
    obtain ⟨rfl, rfl⟩ | ⟨t, ts, us, rfl, rfl⟩ := take_succ_eq hrest
    · exact expect_of_ne hne
    · exact expect_of_ne fun _ _ he => by
        obtain ⟨rfl, -⟩ := List.cons.inj he
        exact hne t ts rfl

/-! ### Sequences -/

/-- A sequence whose first part looks no further ahead than the rest takes and looks. -/
theorem before {c : Nat} {f : α → Parser β} (hp : Local s j p) (hf : ∀ a, Local 0 k (f a))
    (hc : ∀ a, Takes c (f a)) (hjk : (j : Nat) ≤ k + c) : Local s k (p >>= f) where
  trims := hp.trims.bind fun a => (hf a).trims
  ok {used rest rest' b} h hrest hsure := by
    obtain ⟨a, mid, ha, hb⟩ := bind_eq_ok.mp h
    obtain ⟨more, rfl⟩ := (hf a).trims.suffix hb
    obtain ⟨first, hfirst⟩ := hp.trims.suffix ha
    -- what the whole has taken is what its parts have taken
    obtain rfl : used = first ++ more := by
      rw [← List.append_assoc] at hfirst
      exact (List.append_cancel_right hfirst).symm
    have hlength := hc a hb
    rw [List.length_append] at hlength
    have hmid : Alike j (more ++ rest) (more ++ rest') := hrest.append more (by omega) hjk
    rw [List.append_assoc, List.append_assoc] at hsure
    rw [List.append_assoc] at ha ⊢
    rw [bind_of_ok (hp.ok ha hmid hsure)]
    exact (hf a).ok hb hrest (sure_zero _ _)
  error {used rest rest' e} h hrest hsure := by
    cases ha : p.run (used ++ rest) with
    | error e' mid =>
      rw [bind_of_error ha] at h
      cases h
      exact bind_of_error (hp.error ha hrest hsure)
    | ok a mid =>
      rw [bind_of_ok ha] at h
      obtain ⟨more, rfl⟩ := (hf a).trims.suffix_of_error h
      obtain ⟨first, hfirst⟩ := hp.trims.suffix ha
      obtain rfl : used = first ++ more := by
        rw [← List.append_assoc] at hfirst
        exact (List.append_cancel_right hfirst).symm
      -- on failure nothing is known of what the second part takes, but the first one looked no
      -- further than that
      have hmid : Alike j (more ++ rest) (more ++ rest') :=
        (alike_of_take hrest).append more (Nat.zero_le _) (Nat.le_of_lt_succ j.isLt)
      rw [List.append_assoc, List.append_assoc] at hsure
      rw [List.append_assoc] at ha ⊢
      rw [bind_of_ok (hp.ok ha hmid hsure)]
      exact (hf a).error h hrest (sure_zero _ _)

/-- A sequence whose parts look equally far; what is known is known to the first. -/
theorem bind {f : α → Parser β} (hp : Local s k p) (hf : ∀ a, Local 0 k (f a)) :
    Local s k (p >>= f) :=
  hp.before hf (fun a => (hf a).trims.takes) (Nat.le_add_right _ _)

theorem advance (hk : 1 ≤ k) : Local s k advance where
  trims := trims_advance
  ok {used rest rest' t} hp hrest _ := by
    cases hts : used ++ rest with
    | nil =>
      obtain ⟨rfl, rfl⟩ := List.append_eq_nil_iff.mp hts
      obtain ⟨-, rfl⟩ | ⟨_, _, _, _, h, -⟩ := alike_succ (n := 0) (hrest.of_le hk)
      · exact hp
      · cases h
    | cons u us =>
      rw [hts, advance_cons] at hp
      obtain ⟨rfl, rfl⟩ := EStateM.Result.ok.inj hp
      obtain rfl : used = [u] := List.append_cancel_right hts
      exact advance_cons u rest'
  error {used rest _ _} hp _ _ := by
    cases hts : used ++ rest <;> rw [hts] at hp <;> cases hp

/-- A rule that takes the token known to be there, or refuses it. -/
theorem first {q : Parser Token} {f : Token → Parser β} (hq : Trims q)
    (hstep : ∀ t, (∀ ts, q.run (t :: ts) = .ok t ts) ∨
      ∃ e, ∀ ts, q.run (t :: ts) = .error e (t :: ts))
    (h : ∀ t, Local s k (f t)) : Local (s + 1) k (q >>= f) where
  trims := hq.bind fun t => (h t).trims
  ok {used rest rest' b} hp hrest hsure := by
    obtain ⟨t, ts, us, hts, hus, hsure⟩ := sure_succ.mp hsure
    rw [hts] at hp
    obtain htake | ⟨e, hrefuse⟩ := hstep t
    · rw [bind_of_ok (htake ts)] at hp
      obtain ⟨more, rfl⟩ := (h t).trims.suffix hp
      obtain rfl : used = t :: more := List.append_cancel_right hts
      obtain rfl : more ++ rest' = us := (List.cons.inj hus).2
      rw [hus, bind_of_ok (htake _)]
      exact (h t).ok hp hrest hsure
    · rw [bind_of_error (hrefuse ts)] at hp
      cases hp
  error {used rest rest' e} hp hrest hsure := by
    obtain ⟨t, ts, us, hts, hus, hsure⟩ := sure_succ.mp hsure
    rw [hts] at hp
    obtain htake | ⟨e, hrefuse⟩ := hstep t
    · rw [bind_of_ok (htake ts)] at hp
      obtain ⟨more, rfl⟩ := (h t).trims.suffix_of_error hp
      obtain rfl : used = t :: more := List.append_cancel_right hts
      obtain rfl : more ++ rest' = us := (List.cons.inj hus).2
      rw [hus, bind_of_ok (htake _)]
      exact (h t).error hp hrest hsure
    · rw [bind_of_error (hrefuse ts)] at hp
      obtain ⟨rfl, rfl⟩ := EStateM.Result.error.inj hp
      obtain rfl := List.append_left_eq_self.mp hts
      rw [hus, bind_of_error (hrefuse us), ← hus]
      rfl

/-- A token that is known is taken, and what else is known is known behind it. -/
theorem take {f : Token → Parser β} (h : ∀ t, Local s k (f t)) :
    Local (s + 1) k (Parser.advance >>= f) :=
  first trims_advance (fun t => .inl (advance_cons t)) h

/-- A token that is known is of the kind expected, or is not; either way it is the same in both
rows. -/
theorem takeExpected {kind : Token.Kind} {f : Token → Parser β} (h : ∀ t, Local s k (f t)) :
    Local (s + 1) k (Parser.expect kind >>= f) := by
  refine first (trims_expect kind) (fun t => ?_) h
  by_cases ht : t.kind = kind
  · exact .inl (expect_cons ht)
  · exact .inr ⟨.malformed ⟨.expectedToken kind, some t⟩, fun ts =>
      expect_of_ne fun _ _ he => (List.cons.inj he).1 ▸ ht⟩

/-- A rule that reads without taking, and reads the same where the next tokens are alike. -/
theorem look {γ : Type} {read : Parser γ} {value : List Token → γ} {f : γ → Parser β}
    (hread : ∀ ts, read.run ts = .ok (value ts) ts)
    (hvalue : ∀ ts us, Alike k ts us → f (value ts) = f (value us)) (h : ∀ c, Local s k (f c)) :
    Local s k (read >>= f) where
  trims := (trims_of_left fun ts => by rw [hread]; rfl).bind fun c => (h c).trims
  ok {used rest rest' b} hp hrest hsure := by
    have hvalue := hvalue _ _ (hrest.append used (Nat.zero_le _) (Nat.le_refl _))
    rw [bind_of_ok (hread _)] at hp ⊢
    rw [← hvalue]
    exact (h _).ok hp hrest hsure
  error {used rest rest' e} hp hrest hsure := by
    have hle : (k : Nat) ≤ 2 := Nat.le_of_lt_succ k.isLt
    have hvalue := hvalue _ _ ((alike_of_take hrest).append used (Nat.zero_le _) hle)
    rw [bind_of_ok (hread _)] at hp ⊢
    rw [← hvalue]
    exact (h _).error hp hrest hsure

/-- The token that is known to be at hand. -/
theorem current {f : Token → Parser β} (h : ∀ t, Local (s + 1) k (f t)) :
    Local (s + 1) k (Parser.current >>= f) where
  trims := respects_trims.current.bind fun t => (h t).trims
  ok {used rest rest' b} hp hrest hsure := by
    obtain ⟨t, ts, us, hts, hus, -⟩ := sure_succ.mp hsure
    have hfront : front (used ++ rest) = front (used ++ rest') := by rw [hts, hus]; rfl
    rw [bind_of_ok (current_run _)] at hp ⊢
    rw [← hfront]
    exact (h _).ok hp hrest hsure
  error {used rest rest' e} hp hrest hsure := by
    obtain ⟨t, ts, us, hts, hus, -⟩ := sure_succ.mp hsure
    have hfront : front (used ++ rest) = front (used ++ rest') := by rw [hts, hus]; rfl
    rw [bind_of_ok (current_run _)] at hp ⊢
    rw [← hfront]
    exact (h _).error hp hrest hsure

/-- A choice by the kind of the token at hand. -/
theorem choose {f : Token → Parser β} (hk : 1 ≤ k)
    (hf : ∀ t u : Token, t.kind = u.kind → f t = f u) (h : ∀ t, Local s k (f t)) :
    Local s k (Parser.current >>= f) :=
  look current_run (fun _ _ hts => hf _ _ (Alike.front (n := 0) (hts.of_le hk))) h

/-- The end of the input is told from the kind of the next token. -/
theorem atEnd {f : Bool → Parser β} (hk : 1 ≤ k) (h : ∀ b, Local s k (f b)) :
    Local s k (Parser.atEnd >>= f) :=
  look atEnd_run (fun _ _ hts => congrArg f (Alike.isEmpty (n := 0) (hts.of_le hk))) h

/-- A test of kinds looks as far ahead as it has kinds. -/
theorem sees {f : Bool → Parser β} {kinds : List Token.Kind} (hk : kinds.length ≤ k)
    (h : ∀ b, Local s k (f b)) : Local s k (Parser.sees kinds >>= f) :=
  look (sees_run kinds) (fun _ _ hts => congrArg f (hts.beginsWith hk)) h

/-- A name is taken with its token. -/
theorem nameOf {kinds : List Token.Kind} (cause : String → Cause) (hk : .endOfInput ∉ kinds) :
    Local 0 k (nameOf kinds cause) := by
  refine of_takes (n := 1) ?_ (takes_nameOf cause hk) (by decide)
  refine current fun t => ?_
  split
  · exact take fun _ => pure _
  · exact fail _ _

/-- A rule behind a test that ends it with an error. -/
theorem guarded (b : Bool) {r : Parser Unit} (hr : Local 0 k r) (h : Local 0 k p) :
    Local 0 k (if b = true then do r; p else p) := by
  split
  · exact hr.bind fun _ => h
  · exact h

/-- The tag that ends a block is told token by token. -/
theorem endTag (keyword : Token.Kind) : Local 0 k (endTag keyword) :=
  (expect _).bind fun _ => (expect _).bind fun _ => (expect _).bind fun _ => pure _

/-! ### Repetition -/

/-- A repetition in as many rounds as tokens looks as far as each of its rounds. -/
theorem of_rounds {repetition : Nat → Parser α} (hs : Settles repetition)
    (h : ∀ rounds, Local s k (repetition rounds)) :
    Local s k (fun ts => (repetition ts.length).run ts) where
  trims ts := (h ts.length).trims ts
  ok {used rest rest' a} hp hrest hsure := by
    have hmore := hs (Nat.le_max_left (used ++ rest).length (used ++ rest').length)
    have hmore' := hs (Nat.le_max_right (used ++ rest).length (used ++ rest').length)
    have hlocal := (h _).ok (hmore.trans hp) hrest hsure
    exact hmore'.symm.trans hlocal
  error {used rest rest' e} hp hrest hsure := by
    have hmore := hs (Nat.le_max_left (used ++ rest).length (used ++ rest').length)
    have hmore' := hs (Nat.le_max_right (used ++ rest).length (used ++ rest').length)
    have hlocal := (h _).error (hmore.trans hp) hrest hsure
    exact hmore'.symm.trans hlocal

/-- By induction on the rounds: each looks at the token that may offer a step, and takes it. -/
theorem extendFor {step : Steps} (h : ∀ {node kind p}, step node kind = some p → Local 0 k p)
    (hk : 1 ≤ k) (rounds : Nat) : ∀ node, Local 0 k (extendFor step rounds node) := by
  induction rounds with
  | zero => exact fun _ => pure _
  | succ rounds ih =>
    intro node
    rw [Parser.extendFor]
    refine choose hk (fun t u htu => by rw [htu]) fun t => ?_
    split
    · exact (h ‹_›).bind ih
    · exact pure _

/-- Steps that each take a token look no further however often they are repeated. -/
theorem again {step : Steps} (hs : Advances step)
    (h : ∀ {node kind p}, step node kind = some p → Local 0 k p) (hk : 1 ≤ k) (node : Node) :
    Local 0 k (again step node) :=
  of_rounds (settles_extendFor hs node) fun rounds => extendFor h hk rounds node

theorem extend {step : Steps} {first : Parser Node} (hfirst : Local 0 k first)
    (hs : Advances step) (h : ∀ {node kind p}, step node kind = some p → Local 0 k p)
    (hk : 1 ≤ k) : Local 0 k (extend step first) :=
  hfirst.bind fun node => again hs h hk node

/-- Items look for a comma or the closing token behind each of them. -/
theorem delimitedFor {close : Token.Kind} {item : Parser α} (h : Local 0 k item) (hk : 1 ≤ k)
    (rounds : Nat) : Local 0 k (delimitedFor close item rounds) := by
  induction rounds with
  | zero => exact (expect close).bind fun _ => pure _
  | succ rounds ih =>
    have later (x : α) : Local 0 k (do return x :: (← Parser.delimitedFor close item rounds)) :=
      ih.bind fun xs => pure _
    rw [Parser.delimitedFor]
    refine choose hk (fun t u htu => by rw [htu]) fun t => ?_
    split
    · exact (expect close).bind fun _ => pure _
    refine atEnd hk fun b => guarded b (failHere _) ?_
    refine h.bind fun x => choose hk (fun t u htu => by rw [htu]) fun t => ?_
    dsimp only
    split
    · exact (advance hk).bind fun _ => later x
    split
    · exact (failHere _).bind fun _ => later x
    · exact later x

theorem delimited {close : Token.Kind} {item : Parser α} (h : Local 0 k item) (hk : 1 ≤ k) :
    Local 0 k (delimited close item) :=
  of_rounds (settles_delimitedFor h.trims close) fun rounds => delimitedFor h hk rounds

/-- Pieces look for the two tokens of a tag that ends them. -/
theorem piecesFor {item : Parser Node} (h : Local 0 2 item) (ends : List Token.Kind)
    (missing : Token.Kind) (rounds : Nat) : Local 0 2 (piecesFor ends missing item rounds) := by
  induction rounds with
  | zero => exact failHere _
  | succ rounds ih =>
    rw [Parser.piecesFor]
    have hends (ts us : List Token) (hts : Alike 2 ts us) :
        (fun kind => beginsWith [.openStatement, kind] ts) =
          fun kind => beginsWith [.openStatement, kind] us :=
      funext fun kind => hts.beginsWith (Nat.le_refl _)
    refine look remaining_run (fun ts us hts => by rw [hends ts us hts]) fun left => ?_
    split
    · exact pure _
    · exact atEnd (by decide) fun b => guarded b (failHere _) <|
        h.bind fun node => ih.bind fun _ => pure _

theorem pieces {item : Parser Node} (h : Local 0 2 item) (htakes : Takes 1 item)
    (ends : List Token.Kind) (missing : Token.Kind) : Local 0 2 (pieces ends missing item) :=
  of_rounds (settles_piecesFor htakes ends missing) fun rounds => piecesFor h ends missing rounds

/-- The pieces of a template look for the end of the input. -/
theorem allFor {item : Parser Node} (h : Local 0 k item) (hk : 1 ≤ k) (rounds : Nat) :
    Local 0 k (allFor item rounds) := by
  induction rounds with
  | zero => exact pure _
  | succ rounds ih =>
    rw [Parser.allFor]
    refine atEnd hk fun b => ?_
    split
    · exact pure _
    · exact h.bind fun node => ih.bind fun _ => pure _

theorem all {item : Parser Node} (h : Local 0 k item) (htakes : Takes 1 item) (hk : 1 ≤ k) :
    Local 0 k (all item) :=
  of_rounds (settles_allFor htakes) fun rounds => allFor h hk rounds

/-- Parts look for a colon or the closing bracket. -/
theorem subscriptFor {expression : Parser Node} (h : Local 0 k expression) (hk : 1 ≤ k)
    (rounds : Nat) : Local 0 k (subscriptFor expression rounds) := by
  induction rounds with
  | zero => exact failHere _
  | succ rounds ih =>
    have later (part : Option Node) : Local 0 k (do
        let later ← Parser.subscriptFor expression rounds
        return { later with beforeColons := part :: later.beforeColons }) :=
      ih.bind fun _ => pure _
    rw [Parser.subscriptFor]
    refine choose hk (fun t u htu => by rw [htu]) fun t => ?_
    dsimp only
    split
    · exact pure _
    refine atEnd hk fun b => guarded b (failHere _) ?_
    split
    · exact (advance hk).bind fun _ => later none
    refine h.bind fun node => choose hk (fun t u htu => by rw [htu]) fun t => ?_
    split
    · exact (advance hk).bind fun _ => later (some node)
    split
    · exact pure _
    · exact failHere _

theorem subscript {expression : Parser Node} (h : Local 0 k expression) (hk : 1 ≤ k) :
    Local 0 k (subscript expression) := by
  have parts : Local 0 k (get >>= fun ts => Parser.subscriptFor expression ts.length) :=
    of_rounds (settles_subscriptFor h.trims) fun rounds => subscriptFor h hk rounds
  refine parts.bind (f := fun parts => _) fun parts => ?_
  split
  · exact failHere _
  · exact pure _
  · split
    · exact pure _
    · exact pure _
    · exact pure _
    · exact failHere _

end Local

end Stencil.Parser
