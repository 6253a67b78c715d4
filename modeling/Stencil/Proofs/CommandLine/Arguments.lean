import Stencil.CommandLine.Arguments

/-!
# CommandLine — the switch for tokens

No argument is read otherwise because the tokens are asked for: what the arguments set is the same
with and without the switch, but for the switch itself (`settle_showing`).  So the switch can stand
before all other arguments (`ofArguments_tokens`).
-/

namespace Stencil.CommandLine

/-- The settings with the tokens asked for. -/
def Settings.showing (s : Settings) : Settings := { s with tokens := true }

namespace Settings

/-- A switch is set alike whatever is to be shown. -/
theorem set_showing (s : Settings) (setting : Switch × List Char) :
    s.showing.set setting = showing <$> s.set setting := by
  obtain ⟨switch, value⟩ := setting
  cases switch <;> rfl

/-- Any switches are set alike whatever is to be shown. -/
theorem setAll_showing (s : Settings) (switches : List (Switch × List Char)) :
    s.showing.setAll switches = showing <$> s.setAll switches := by
  induction switches generalizing s with
  | nil => rfl
  | cons setting switches ih =>
    calc
      s.showing.setAll (setting :: switches)
        = s.set setting >>= fun t => t.showing.setAll switches := by
          rw [setAll, List.foldlM_cons, set_showing, bind_map_left]
          rfl
      _ = s.set setting >>= fun t => showing <$> t.setAll switches := by simp only [ih]
      _ = showing <$> s.setAll (setting :: switches) := by rw [← map_bind]; rfl

end Settings

open Settings

/-- What is set behind other settings does not depend on whether the tokens are asked for. -/
theorem setAll_bind_showing (s : Settings) (switches : List (Switch × List Char))
    {rest : Settings → Except Halt Settings} (hrest : ∀ t, rest t.showing = showing <$> rest t) :
    s.showing.setAll switches >>= rest = showing <$> (s.setAll switches >>= rest) := by
  rw [setAll_showing, bind_map_left, map_bind]
  simp only [hrest]

/-- **The other settings do not depend on whether the tokens are asked for.** -/
theorem settle_showing : (∀ items s, settle items (showing s) = showing <$> settle items s) ∧
    ∀ settled switch items s, settleValue settled switch items (showing s) =
      showing <$> settleValue settled switch items s := by
  -- along the recursion of both functions: a bundle of switches may await a value
  refine settle.mutual_induct
    (fun items s => settle items s.showing = showing <$> settle items s)
    (fun settled switch items s => settleValue settled switch items s.showing =
      showing <$> settleValue settled switch items s) ?nil ?beforeSeparator ?plain ?separator
    ?unknown ?switch ?value ?noValue
  case nil => exact fun s => rfl
  case beforeSeparator =>
    intro text rest s ih
    rw [settle, settle, ← ih, apply_ite showing]
    rfl
  case plain =>
    intro text rest s hrest ih
    rw [settle, settle, ← ih, apply_ite showing]
    · rfl
    · exact hrest
    · exact hrest
  case separator =>
    intro rest s ih
    rw [settle, settle, ← ih, apply_ite showing]
    rfl
  case unknown =>
    intro text rest s ih
    rw [settle, settle, ← ih]
    rfl
  -- the last switch of a bundle decides which of the two goes on
  case switch =>
    intro reading rest s ih ihValue
    rw [settle, settle, map_bind]
    refine congrArg _ (funext fun bundle => ?_)
    cases bundle.awaiting with
    | none => exact setAll_bind_showing s bundle.settled ih
    | some switch => exact ihValue bundle switch
  case value =>
    intro settled switch value rest s ih
    rw [settleValue, settleValue]
    exact setAll_bind_showing s _ ih
  case noValue =>
    intro rest settled switch s hrest
    rw [settleValue, settleValue]
    · rfl
    · exact hrest
    · exact hrest

/-! ### The switch before other arguments -/

/-- An argument left over is wrong usage. -/
def accept (s : Settings) : Except Halt Settings :=
  if s.leftOver.isEmpty then .ok s else .error (.wrong (.unrecognized s.leftOver))

/-- Whether the settings are accepted does not depend on what is to be shown. -/
theorem accept_showing (s : Settings) : accept s.showing = showing <$> accept s := by
  rw [accept, accept, apply_ite (showing <$> ·)]
  rfl

theorem ofArguments_eq (arguments : List String) : Settings.ofArguments arguments =
    (items arguments).mapError .wrong >>= fun read => settle read .initial >>= accept := rfl

/-- The switch for the tokens is read by itself, in front of any arguments. -/
theorem items_tokens (arguments : List String) : items ("--tokens" :: arguments) =
    (.switch ⟨.tokens, false, none⟩ :: ·) <$> items arguments := by
  have hclassify : classify "--tokens" = .ok (.switch ⟨.tokens, false, none⟩) := rfl
  rw [items, if_neg (by decide), hclassify]
  rfl

/-- **With the switch before them, arguments set what they set without it**, and the tokens are
asked for. -/
theorem ofArguments_tokens (arguments : List String) :
    Settings.ofArguments ("--tokens" :: arguments) =
      showing <$> Settings.ofArguments arguments := by
  rw [ofArguments_eq, ofArguments_eq, items_tokens]
  cases items arguments with
  | error e => rfl
  | ok read =>
    calc
      settle (.switch ⟨.tokens, false, none⟩ :: read) .initial >>= accept
        = settle read Settings.initial.showing >>= accept := by rw [settle]; rfl
      _ = showing <$> (settle read .initial >>= accept) := by
        rw [settle_showing.1, bind_map_left, map_bind]
        simp only [accept_showing]

end Stencil.CommandLine
