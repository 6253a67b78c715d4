import Mathlib.Logic.Function.Iterate
import Stencil.Proofs.Parser.Progress

/-!
# Parser — repetition comes to its end

A repetition is a row of rounds, each of which is told what is done behind it.  A round goes on to
the next one only with fewer tokens than it found (`Descends`): it has taken a step, an item, a
piece or a part.  Hence a repetition ends after as many rounds as tokens are left, and one more,
whatever would be done behind them (`Descends.ends`); and it is the test in its midst that ends it,
never the count of rounds it is given (`Ends.settles`).
-/

namespace Stencil.Parser

variable {α ι : Type}

/-! ### Tokens that a rule takes -/

/-- A rule that succeeds takes at least so many tokens. -/
def Takes (least : Nat) (p : Parser α) : Prop :=
  ∀ ⦃ts rest : List Token⦄ ⦃a : α⦄, p.run ts = .ok a rest → rest.length + least ≤ ts.length

/-- A rule that only ever drops tokens from the front takes at least none. -/
theorem Trims.takes {p : Parser α} (h : Trims p) : Takes 0 p := fun _ _ _ hp =>
  (h.suffix hp).length_le

/-- An expected token is taken. -/
theorem takes_expect (kind : Token.Kind) : Takes 1 (expect kind) := fun ts rest t h => by
  obtain ⟨rfl, -⟩ := expect_eq_ok.mp h
  exact Nat.le_refl _

/-- A name is one token, as long as the end of the input is not among the kinds that are admitted.
-/
theorem takes_nameOf {kinds : List Token.Kind} (cause : String → Cause)
    (hk : .endOfInput ∉ kinds) : Takes 1 (nameOf kinds cause) := fun ts rest n h => by
  rw [nameOf, bind_of_ok (current_run ts)] at h
  split at h
  · rename_i hkind
    exact length_lt_of_advance (fun _ => respects_trims.pure _) (fun he => hk (he ▸ hkind)) h
  · rw [fail_run] at h
    cases h

/-- What two rules take in a row adds up. -/
theorem Takes.bind {β : Type} {least more : Nat} {p : Parser α} {f : α → Parser β}
    (h : Takes least p) (hf : ∀ a, Takes more (f a)) : Takes (more + least) (p >>= f) := by
  intro ts rest b hb
  obtain ⟨a, mid, hp, hb⟩ := bind_eq_ok.mp hb
  have := h hp
  have := hf a hb
  omega

/-- A look at the current token takes nothing. -/
theorem takes_current {β : Type} {least : Nat} {f : Token → Parser β} (h : ∀ t, Takes least (f t)) :
    Takes least (current >>= f) := fun ts rest b hb => by
  rw [bind_of_ok (current_run ts)] at hb
  exact h _ hb

/-! ### Rounds -/

/-- A round with what is done behind it, from a start. -/
abbrev Round (ι α : Type) := (ι → Parser α) → ι → Parser α

/-- With as many rounds as tokens the repetition has come to its end. -/
def Settles (repetition : Nat → Parser α) : Prop :=
  ∀ ⦃ts : List Token⦄ ⦃rounds : Nat⦄, ts.length ≤ rounds →
    (repetition rounds).run ts = (repetition ts.length).run ts

/-- What a round does depends on what is done behind it with fewer tokens only. -/
def Descends (round : Round ι α) : Prop :=
  ∀ ⦃later later' : ι → Parser α⦄ ⦃ts : List Token⦄,
    (∀ i mid, mid.length < ts.length → (later i).run mid = (later' i).run mid) →
    ∀ i, (round later i).run ts = (round later' i).run ts

/-- A repetition in rounds that ends by itself: with more rounds than tokens it makes no difference
what would be done behind them. -/
structure Ends (round : Round ι α) (repetition : Nat → ι → Parser α) : Prop where
  succ : ∀ rounds, repetition (rounds + 1) = round (repetition rounds)
  settled : ∀ {later later' : ι → Parser α} {i : ι} {ts : List Token} {rounds : Nat},
    ts.length < rounds → (round^[rounds] later i).run ts = (round^[rounds] later' i).run ts

variable {round : Round ι α} {repetition : Nat → ι → Parser α}

/-- A round that goes on with fewer tokens only, repeated more often than there are tokens, never
comes to what would be done behind the last round. -/
theorem Descends.ends (h : Descends round)
    (hsucc : ∀ rounds, repetition (rounds + 1) = round (repetition rounds)) :
    Ends round repetition where
  succ := hsucc
  settled {later later' i ts rounds} hr := by
    induction rounds generalizing i ts with
    | zero => exact absurd hr (Nat.not_lt_zero _)
    | succ rounds ih =>
      rw [Function.iterate_succ_apply', Function.iterate_succ_apply']
      exact h (fun i mid hmid => ih (by omega)) i

/-- A repetition that is at its end where no token is left has come there in any number of rounds
that suffices. -/
theorem Ends.settles (he : Ends round repetition) (h : Descends round)
    (hnil : ∀ i, (repetition 1 i).run [] = (repetition 0 i).run []) (i : ι) :
    Settles fun rounds => repetition rounds i := by
  have at_nil (rounds : Nat) (i : ι) :
      (repetition rounds i).run [] = (repetition 0 i).run [] := by
    cases rounds with
    | zero => rfl
    | succ rounds =>
      rw [← hnil, he.succ, he.succ]
      exact h (fun _ _ hmid => absurd hmid (Nat.not_lt_zero _)) i
  have agree (rounds : Nat) : ∀ {rounds' : Nat} {ts : List Token} {i : ι}, ts.length ≤ rounds →
      ts.length ≤ rounds' → (repetition rounds i).run ts = (repetition rounds' i).run ts := by
    induction rounds with
    | zero =>
      intro rounds' ts i hr _
      obtain rfl := List.length_eq_zero_iff.mp (Nat.le_zero.mp hr)
      rw [at_nil 0, at_nil rounds']
    | succ rounds ih =>
      intro rounds' ts i hr hr'
      cases rounds' with
      | zero =>
        obtain rfl := List.length_eq_zero_iff.mp (Nat.le_zero.mp hr')
        exact at_nil _ i
      | succ rounds' =>
        rw [he.succ, he.succ]
        exact h (fun i mid hmid => ih (by omega) (by omega)) i
  exact fun ts rounds hr => agree rounds hr (Nat.le_refl _)

/-! ### Steps -/

/-- A round of `extendFor`. -/
def extendRound (step : Steps) : Round Node Node := fun later node => do
  match step node (← current).kind with
  | some next => later (← next)
  | none => return node

/-- One more round of `extendFor` is `extendRound` with the others behind it. -/
theorem extendFor_succ (step : Steps) (rounds : Nat) :
    extendFor step (rounds + 1) = extendRound step (extendFor step rounds) := by
  funext node
  refine congrArg (current >>= ·) (funext fun t => ?_)
  cases step node t.kind <;> rfl

/-- A step that is offered takes a token, so the rounds behind it find fewer. -/
theorem descends_extendRound {step : Steps} (hs : Advances step) : Descends (extendRound step) := by
  intro later later' ts h node
  rw [extendRound, extendRound, bind_of_ok (current_run ts), bind_of_ok (current_run ts)]
  cases hstep : step node (front ts).kind with
  | none => rfl
  | some next => exact bind_congr_run rfl fun _ mid hp => h _ mid (hs.shorter hstep hp)

theorem ends_extendFor {step : Steps} (hs : Advances step) :
    Ends (extendRound step) (extendFor step) :=
  (descends_extendRound hs).ends (extendFor_succ step)

/-- The steps of a chain are not cut off by the number of rounds that `extend` grants. -/
theorem settles_extendFor {step : Steps} (hs : Advances step) (node : Node) :
    Settles fun rounds => extendFor step rounds node :=
  fun _ _ hr => extendFor_agree hs _ hr (Nat.le_refl _) node

/-! ### Items -/

/-- A round of `delimitedFor`. -/
def delimitedRound (close : Token.Kind) (item : Parser α) : Round Unit (List α) := fun later _ => do
  if (← current).kind = close then
    let _ ← expect close
    return []
  if ← atEnd then failHere (.expectedToken close)
  let x ← item
  let kind := (← current).kind
  if kind = .comma then
    let _ ← advance
  else if kind ≠ close then failHere (.expectedToken .comma)
  return x :: (← later ())

/-- One more round of `delimitedFor` is `delimitedRound` with the others behind it. -/
theorem delimitedFor_succ (close : Token.Kind) (item : Parser α) (rounds : Nat) :
    (fun _ : Unit => delimitedFor close item (rounds + 1)) =
      delimitedRound close item fun _ => delimitedFor close item rounds := rfl

/-- No closing token is left at the end. -/
theorem delimitedFor_nil (close : Token.Kind) (item : Parser α) (rounds : Nat) :
    (delimitedFor close item rounds).run [] =
      .error (.malformed ⟨.expectedToken close, some .endOfInput⟩) [] := by
  have missing : (do let _ ← expect close; return [] : Parser (List α)).run [] = _ :=
    bind_of_error (expect_of_ne (by simp))
  cases rounds with
  | zero => exact missing
  | succ rounds =>
    rw [delimitedFor, bind_of_ok (current_run [])]
    dsimp only
    split
    · exact missing
    · rw [bind_of_ok (atEnd_run []), if_pos List.isEmpty_nil]
      exact bind_of_error (failHere_run _ [])

/-- A round of items goes on behind a comma, or behind an item that has led to the closing token; an
item that takes nothing cannot have done so, for the closing token was not there before it. -/
theorem descends_delimitedRound {item : Parser α} (hitem : Trims item) (close : Token.Kind) :
    Descends (delimitedRound close item) := by
  intro later later' ts h _
  rw [delimitedRound, delimitedRound, bind_of_ok (current_run ts), bind_of_ok (current_run ts)]
  split
  · rfl
  rename_i hopen
  rw [bind_of_ok (atEnd_run ts), bind_of_ok (atEnd_run ts)]
  split
  · rw [bind_of_error (failHere_run _ ts), bind_of_error (failHere_run _ ts)]
  refine bind_congr_run rfl fun x mid hx => ?_
  have hsuffix := hitem.suffix hx
  rw [bind_of_ok (current_run mid), bind_of_ok (current_run mid)]
  dsimp only
  split
  · rename_i hcomma
    obtain ⟨c, mid, rfl, -⟩ := eq_cons_of_front (by rw [hcomma]; decide)
    have hle := hsuffix.length_le
    rw [bind_of_ok (advance_cons c mid), bind_of_ok (advance_cons c mid)]
    rw [List.length_cons] at hle
    exact bind_congr_run (h () mid hle) fun _ _ _ => rfl
  split
  · rw [bind_of_error (failHere_run _ mid), bind_of_error (failHere_run _ mid)]
  · -- the closing token was not at hand before the item
    rename_i hclose
    have hlt : mid.length < ts.length := Nat.lt_of_le_of_ne hsuffix.length_le fun he => by
      rw [hsuffix.eq_of_length he] at hclose
      exact hclose hopen
    exact bind_congr_run (h () mid hlt) fun _ _ _ => rfl

theorem ends_delimitedFor {item : Parser α} (hitem : Trims item) (close : Token.Kind) :
    Ends (delimitedRound close item) fun rounds _ => delimitedFor close item rounds :=
  (descends_delimitedRound hitem close).ends (delimitedFor_succ close item)

/-- The items between brackets are not cut off by the number of rounds that `delimited` grants. -/
theorem settles_delimitedFor {item : Parser α} (hitem : Trims item) (close : Token.Kind) :
    Settles (delimitedFor close item) :=
  (ends_delimitedFor hitem close).settles (descends_delimitedRound hitem close)
    (fun _ => (delimitedFor_nil close item 1).trans (delimitedFor_nil close item 0).symm) ()

/-! ### Pieces -/

/-- A round of `piecesFor`. -/
def piecesRound (ends : List Token.Kind) (missing : Token.Kind) (item : Parser Node) :
    Round Unit (List Node) := fun later _ => do
  let left ← remaining
  if ends.any fun kind => beginsWith [.openStatement, kind] left then return []
  if ← atEnd then failHere (.expectedToken missing)
  let node ← item
  return node :: (← later ())

/-- One more round of `piecesFor` is `piecesRound` with the others behind it. -/
theorem piecesFor_succ (ends : List Token.Kind) (missing : Token.Kind) (item : Parser Node)
    (rounds : Nat) : (fun _ : Unit => piecesFor ends missing item (rounds + 1)) =
      piecesRound ends missing item fun _ => piecesFor ends missing item rounds := rfl

/-- No end tag is left at the end. -/
theorem piecesFor_nil (ends : List Token.Kind) (missing : Token.Kind) (item : Parser Node)
    (rounds : Nat) : (piecesFor ends missing item rounds).run [] =
      .error (.malformed ⟨.expectedToken missing, some .endOfInput⟩) [] := by
  cases rounds with
  | zero => exact failHere_run _ []
  | succ rounds =>
    rw [piecesFor, bind_of_ok (remaining_run []), if_neg (by simp [beginsWith]),
      bind_of_ok (atEnd_run []), if_pos List.isEmpty_nil]
    exact bind_of_error (failHere_run _ [])

/-- A piece takes a token, so the pieces behind it find fewer. -/
theorem descends_piecesRound {item : Parser Node} (hitem : Takes 1 item) (ends : List Token.Kind)
    (missing : Token.Kind) : Descends (piecesRound ends missing item) := by
  intro later later' ts h _
  rw [piecesRound, piecesRound, bind_of_ok (remaining_run ts), bind_of_ok (remaining_run ts)]
  split
  · rfl
  rw [bind_of_ok (atEnd_run ts), bind_of_ok (atEnd_run ts)]
  split
  · rw [bind_of_error (failHere_run _ ts), bind_of_error (failHere_run _ ts)]
  · refine bind_congr_run rfl fun n mid hn => ?_
    exact bind_congr_run (h () mid (hitem hn)) fun _ _ _ => rfl

theorem ends_piecesFor {item : Parser Node} (hitem : Takes 1 item) (ends : List Token.Kind)
    (missing : Token.Kind) :
    Ends (piecesRound ends missing item) fun rounds _ => piecesFor ends missing item rounds :=
  (descends_piecesRound hitem ends missing).ends (piecesFor_succ ends missing item)

/-- The pieces of a body are not cut off by the number of rounds that `pieces` grants. -/
theorem settles_piecesFor {item : Parser Node} (hitem : Takes 1 item) (ends : List Token.Kind)
    (missing : Token.Kind) : Settles (piecesFor ends missing item) :=
  (ends_piecesFor hitem ends missing).settles (descends_piecesRound hitem ends missing)
    (fun _ => (piecesFor_nil ends missing item 1).trans (piecesFor_nil ends missing item 0).symm) ()

/-- A round of `allFor`. -/
def allRound (item : Parser Node) : Round Unit (List Node) := fun later _ => do
  if ← atEnd then return []
  let node ← item
  return node :: (← later ())

theorem allFor_succ (item : Parser Node) (rounds : Nat) :
    (fun _ : Unit => allFor item (rounds + 1)) = allRound item fun _ => allFor item rounds := rfl

/-- A piece of the template takes a token, so the pieces behind it find fewer. -/
theorem descends_allRound {item : Parser Node} (hitem : Takes 1 item) :
    Descends (allRound item) := by
  intro later later' ts h _
  rw [allRound, allRound, bind_of_ok (atEnd_run ts), bind_of_ok (atEnd_run ts)]
  split
  · rfl
  · refine bind_congr_run rfl fun n mid hn => ?_
    exact bind_congr_run (h () mid (hitem hn)) fun _ _ _ => rfl

theorem ends_allFor {item : Parser Node} (hitem : Takes 1 item) :
    Ends (allRound item) fun rounds _ => allFor item rounds :=
  (descends_allRound hitem).ends (allFor_succ item)

/-- The pieces of a template are not cut off by the number of rounds that `all` grants. -/
theorem settles_allFor {item : Parser Node} (hitem : Takes 1 item) : Settles (allFor item) :=
  (ends_allFor hitem).settles (descends_allRound hitem)
    (fun _ => (allFor_nil item 1).trans (allFor_nil item 0).symm) ()

/-! ### Parts of a subscript -/

/-- A round of `subscriptFor`. -/
def subscriptRound (expression : Parser Node) : Round Unit Subscript := fun later _ => do
  let kind := (← current).kind
  if kind = .rightBracket then return ⟨[], none⟩
  if ← atEnd then failHere (.expectedToken .rightBracket)
  if kind = .colon then
    let _ ← advance
    let later ← later ()
    return { later with beforeColons := none :: later.beforeColons }
  let node ← expression
  let kind := (← current).kind
  if kind = .colon then
    let _ ← advance
    let later ← later ()
    return { later with beforeColons := some node :: later.beforeColons }
  if kind = .rightBracket then return ⟨[], some node⟩
  failHere (.expectedToken .rightBracket)

theorem subscriptFor_succ (expression : Parser Node) (rounds : Nat) :
    (fun _ : Unit => subscriptFor expression (rounds + 1)) =
      subscriptRound expression fun _ => subscriptFor expression rounds := rfl

/-- No closing bracket is left at the end. -/
theorem subscriptFor_nil (expression : Parser Node) (rounds : Nat) :
    (subscriptFor expression rounds).run [] =
      .error (.malformed ⟨.expectedToken .rightBracket, some .endOfInput⟩) [] := by
  cases rounds with
  | zero => exact failHere_run _ []
  | succ rounds =>
    rw [subscriptFor, bind_of_ok (current_run [])]
    dsimp only
    rw [if_neg (by decide), bind_of_ok (atEnd_run []), if_pos List.isEmpty_nil]
    exact bind_of_error (failHere_run _ [])

/-- A round of parts goes on behind a colon only. -/
theorem descends_subscriptRound {expression : Parser Node} (hexpression : Trims expression) :
    Descends (subscriptRound expression) := by
  intro later later' ts h _
  rw [subscriptRound, subscriptRound, bind_of_ok (current_run ts), bind_of_ok (current_run ts)]
  dsimp only
  split
  · rfl
  rw [bind_of_ok (atEnd_run ts), bind_of_ok (atEnd_run ts)]
  split
  · rw [bind_of_error (failHere_run _ ts), bind_of_error (failHere_run _ ts)]
  split
  · rename_i hcolon
    obtain ⟨c, mid, rfl, -⟩ := eq_cons_of_front (by rw [hcolon]; decide)
    rw [bind_of_ok (advance_cons c mid), bind_of_ok (advance_cons c mid)]
    exact bind_congr_run (h () mid (Nat.lt_succ_self _)) fun _ _ _ => rfl
  refine bind_congr_run rfl fun n mid hn => ?_
  have hle := (hexpression.suffix hn).length_le
  rw [bind_of_ok (current_run mid), bind_of_ok (current_run mid)]
  split
  · rename_i hcolon
    obtain ⟨c, mid, rfl, -⟩ := eq_cons_of_front (by rw [hcolon]; decide)
    rw [bind_of_ok (advance_cons c mid), bind_of_ok (advance_cons c mid)]
    rw [List.length_cons] at hle
    exact bind_congr_run (h () mid hle) fun _ _ _ => rfl
  · rfl

theorem ends_subscriptFor {expression : Parser Node} (hexpression : Trims expression) :
    Ends (subscriptRound expression) fun rounds _ => subscriptFor expression rounds :=
  (descends_subscriptRound hexpression).ends (subscriptFor_succ expression)

/-- The parts between brackets are not cut off by the number of rounds that `subscript` grants. -/
theorem settles_subscriptFor {expression : Parser Node} (hexpression : Trims expression) :
    Settles (subscriptFor expression) :=
  (ends_subscriptFor hexpression).settles (descends_subscriptRound hexpression)
    (fun _ => (subscriptFor_nil expression 1).trans (subscriptFor_nil expression 0).symm) ()

end Stencil.Parser
