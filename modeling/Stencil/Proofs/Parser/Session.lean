import Stencil.Parser.Session
import Stencil.Proofs.Parser.Progress

/-!
# Parser — runs in a session

What a rule does in a session is what it does to the tokens from the position on (`Mirrors`), and the
tokens that it takes there are those that the position moves over (`Within`): no rule takes a token
where none is left (`guarded_within`).  So a run in a session is a run on the tokens left
(`rules_track`, `Session.run_eq_ok`, `Session.run_eq_error`).

A list of tokens is parsed by the rule for whole templates in the session at its start
(`parse_eq_run`).
-/

namespace Stencil.Parser

variable {α β : Type} {p : ParserOn Session α} {q : Parser α} {s after : Session} {a : α} {e : Failure}
  {used rest : List Token} {kinds : List Token.Kind}

/-! ### Sessions -/

namespace Session

/-- The session some tokens on. -/
def skip (s : Session) (used : List Token) : Session :=
  { s with position := s.position + used.length }

@[simp] theorem skip_position (s : Session) (used : List Token) :
    (s.skip used).position = s.position + used.length := rfl

@[simp] theorem skip_tokens (s : Session) (used : List Token) : (s.skip used).tokens = s.tokens := rfl

@[simp] theorem skip_nil (s : Session) : s.skip [] = s := rfl

/-- Tokens are passed in a row. -/
theorem skip_append (s : Session) (used more : List Token) :
    s.skip (used ++ more) = (s.skip used).skip more := by
  simp only [skip, List.length_append, Nat.add_assoc]

/-- What is left behind tokens that were left. -/
theorem left_skip (h : s.left = used ++ rest) : (s.skip used).left = rest := by
  have hdrop : (s.skip used).left = s.left.drop used.length := by
    rw [left, left, skip, List.drop_drop]
  rw [hdrop, h, List.drop_left]

/-- One token on, the first of those left is gone. -/
theorem left_next (s : Session) : s.next.left = s.left.tail := by
  rw [left, left, next, List.tail_drop]

/-- The tokens between two positions. -/
def taken (s after : Session) : List Token := (s.tokens.take after.position).drop s.position

/-- The tokens taken are those that were passed. -/
theorem taken_skip (h : s.left = used ++ rest) : s.taken (s.skip used) = used := by
  rw [taken, skip_position, List.drop_take, Nat.add_sub_cancel_left]
  exact (congrArg (List.take used.length) h).trans List.take_left

/-- At the start all tokens are left, but for an end of the input at their end. -/
@[simp] theorem left_ofTokens (ts : List Token) : (ofTokens ts).left = dropEnd ts := rfl

/-- The tokens from the position on are of these kinds. -/
def Shows (s : Session) : List Token.Kind → Prop
  | [] => True
  | kind :: kinds => (front s.left).kind = kind ∧ s.next.Shows kinds

/-- What a test of the next kinds has found is shown. -/
theorem shows_of_beginsWith (h : beginsWith kinds s.left = true) : s.Shows kinds := by
  induction kinds generalizing s with
  | nil => exact trivial
  | cons kind kinds ih =>
    cases hleft : s.left with
    | nil =>
      rw [hleft] at h
      cases h
    | cons t ts =>
      rw [hleft, beginsWith, Bool.and_eq_true, decide_eq_true_eq] at h
      refine ⟨by rw [hleft]; exact h.1, ih ?_⟩
      rw [left_next, hleft]
      exact h.2

end Session

/-! ### What a rule does to the tokens left -/

/-- A result with the tokens left in place of the session. -/
def leaving : EStateM.Result Failure Session α → EStateM.Result Failure (List Token) α
  | .ok a s => .ok a s.left
  | .error e s => .error e s.left

/-- In every session `p` does what `q` does to the tokens left. -/
def Mirrors (p : ParserOn Session α) (q : Parser α) : Prop := ∀ s, leaving (p.run s) = q.run s.left

/-- Sequences correspond part by part. -/
theorem Mirrors.bind {f : α → ParserOn Session β} {g : α → Parser β} (h : Mirrors p q)
    (hf : ∀ a, Mirrors (f a) (g a)) : Mirrors (p >>= f) (q >>= g) := by
  intro s
  have hs := h s
  cases hp : p.run s with
  | ok a mid =>
    rw [hp] at hs
    rw [bind_of_ok hp, bind_of_ok hs.symm, hf a mid]
  | error e mid =>
    rw [hp] at hs
    rw [bind_of_error hp, bind_of_error hs.symm]
    rfl

theorem mirrors_current : Mirrors current current := fun _ => rfl

theorem mirrors_atEnd : Mirrors atEnd atEnd := fun _ => rfl

theorem mirrors_fail (cause : Cause) (t : Token) : Mirrors (α := α) (fail cause t) (fail cause t) :=
  fun _ => rfl

/-- In a session and in a list, the first of the tokens left is taken; at the end only the session
moves. -/
theorem mirrors_advance : Mirrors advance advance := fun s =>
  congrArg (EStateM.Result.ok (front s.left)) s.left_next

theorem mirrors_expect (kind : Token.Kind) : Mirrors (expect kind) (expect kind) := by
  refine mirrors_current.bind fun t => mirrors_atEnd.bind fun b => ?_
  split
  · exact mirrors_fail _ _
  · exact mirrors_advance

/-- Every combinator does in a session what it does to the tokens left. -/
theorem respects_mirrors : Respects Mirrors where
  pure _ _ := rfl
  bind := .bind
  fail := mirrors_fail
  refuse _ _ := rfl
  remaining _ := rfl
  current := mirrors_current
  advance := mirrors_advance
  atEnd := mirrors_atEnd
  sees _ _ := rfl
  expect := mirrors_expect

/-! ### How far a rule moves the position -/

/-- What a run leaves behind. -/
def behindRun {σ : Type} : EStateM.Result Failure σ α → σ
  | .ok _ s | .error _ s => s

theorem behindRun_leaving (result : EStateM.Result Failure Session α) :
    behindRun (leaving result) = (behindRun result).left := by
  cases result <;> rfl

/-- From the one session to the other, tokens that are there are passed. -/
def Session.Passes (s after : Session) : Prop :=
  ∃ used, s.left = used ++ after.left ∧ after = s.skip used

theorem Session.Passes.refl (s : Session) : s.Passes s := ⟨[], rfl, rfl⟩

/-- Tokens that are passed in a row are there in a row. -/
theorem Session.Passes.trans {mid : Session} (h : s.Passes mid) (h' : mid.Passes after) :
    s.Passes after := by
  obtain ⟨used, hleft, rfl⟩ := h
  obtain ⟨more, hmore, rfl⟩ := h'
  exact ⟨used ++ more, by rw [hleft, hmore, List.append_assoc], (s.skip_append used more).symm⟩

/-- Where a token is left, the next session is behind it. -/
theorem Session.passes_next (h : s.left ≠ []) : s.Passes s.next := by
  obtain ⟨t, ts, hleft⟩ := List.exists_cons_of_ne_nil h
  refine ⟨[t], ?_, rfl⟩
  rw [left_next, hleft]
  rfl

/-- Where tokens of these kinds come next, the rule moves the position over tokens that are there. -/
def Within (kinds : List Token.Kind) (p : ParserOn Session α) : Prop :=
  ∀ s : Session, s.Shows kinds → s.Passes (behindRun (p.run s))

/-- A rule that only looks passes nothing. -/
theorem within_of_stays (h : ∀ s, behindRun (p.run s) = s) : Within kinds p := fun s _ => by
  rw [h]
  exact .refl s

/-- The first part of a sequence moves over tokens that are there, and nothing more is known of
those that come behind. -/
theorem Within.bind {f : α → ParserOn Session β} (h : Within kinds p) (hf : ∀ a, Within [] (f a)) :
    Within kinds (p >>= f) := by
  intro s hs
  have hp := h s hs
  cases hrun : p.run s with
  | ok a mid =>
    rw [hrun] at hp
    rw [bind_of_ok hrun]
    exact hp.trans (hf a mid trivial)
  | error e mid =>
    rw [hrun] at hp
    rwa [bind_of_error hrun]

/-- A token that is taken where one is left is passed. -/
theorem passes_of_advance {f : Token → ParserOn Session α} (hs : s.left ≠ []) (hshows : s.Shows kinds)
    (hf : ∀ t, Within kinds.tail (f t)) : s.Passes (behindRun ((advance >>= f).run s)) := by
  have hadvance : advance.run s = .ok (front s.left) s.next := rfl
  rw [bind_of_ok hadvance]
  refine (Session.passes_next hs).trans (hf _ s.next ?_)
  cases kinds with
  | nil => exact trivial
  | cons kind kinds => exact hshows.2

/-- An expected token is passed where it is there, and otherwise nothing is. -/
theorem within_expect (kind : Token.Kind) : Within [] (expect kind) := by
  intro s _
  have hrun : (expect kind).run s =
      (if s.left.isEmpty = true ∨ (front s.left).kind ≠ kind then
        fail (.expectedToken kind) (front s.left) else advance : ParserOn Session Token).run s := rfl
  rw [hrun]
  split
  · exact .refl s
  · rename_i hpresent
    exact Session.passes_next fun hnil => hpresent (.inl (by rw [hnil]; rfl))

/-- Behind a test of the next kinds that has come out true, they are known to be there. -/
theorem within_sees {f : Bool → ParserOn Session α} (htrue : Within kinds (f true))
    (hfalse : Within [] (f false)) : Within [] (sees kinds >>= f) := by
  intro s _
  have hsees : (sees kinds).run s = .ok (beginsWith kinds s.left) s := rfl
  rw [bind_of_ok hsees]
  cases hb : beginsWith kinds s.left with
  | true => exact htrue s (Session.shows_of_beginsWith hb)
  | false => exact hfalse s trivial

/-- **The rules take a token only where one is left.** -/
theorem guarded_within :
    Guarded fun kinds _ (p : ParserOn Session _) (_ : Parser _) => Within kinds p where
  pure _ := within_of_stays fun _ => rfl
  bind := .bind
  anywhere h s _ := h s trivial
  fail _ _ := within_of_stays fun _ => rfl
  behindFail _ _ _ := within_of_stays fun _ => rfl
  refuse _ := within_of_stays fun _ => rfl
  remaining h s hs := h s.left s hs
  current h s _ := h (front s.left) s ⟨rfl, trivial⟩
  advance hkind h s hs := by
    refine passes_of_advance (fun hnil => hkind ?_) hs h
    rw [← hs.1, hnil]
    rfl
  atEnd h s hs := h s.left.isEmpty s hs
  sees := within_sees
  expect := within_expect

/-! ### Rules in a session -/

/-- In the session the rule `p` does what `q` does to the tokens left, and moves the position over
those that it takes. -/
structure Session.Tracks (s : Session) (p : ParserOn Session α) (q : Parser α) : Prop where
  follows : leaving (p.run s) = q.run s.left
  passes : s.Passes (behindRun (p.run s))

/-- In every session `p` does what `q` does to the tokens left; and where tokens of these kinds come
next, it moves the position over those that it takes. -/
def TracksAt (kinds : List Token.Kind) (p : ParserOn Session α) (q : Parser α) : Prop :=
  Mirrors p q ∧ Within kinds p

/-- Both are respected together: what is done to the tokens left, and the move over those that are
there. -/
theorem guarded_tracks : Guarded fun kinds _ p q => TracksAt kinds p q :=
  respects_mirrors.guarded.and guarded_within

/-- **In a session a rule does what it does to the tokens left**, and moves over those that it
takes. -/
theorem rules_track (d : Nat) : RulesRelated (fun kinds _ p q => TracksAt kinds p q) d d :=
  guarded_tracks.rules d

theorem TracksAt.tracks (h : TracksAt [] p q) (s : Session) : s.Tracks p q :=
  ⟨h.1 s, h.2 s trivial⟩

/-- A whole template is parsed in a session as it is from a list, with the position at its end or at
the failure. -/
theorem Session.tracks_program (s : Session) : s.Tracks program program :=
  guarded_tracks.program.tracks s

/-- The rule for members takes its first token unseen.  So there has to be one. -/
theorem Session.tracks_member (d : Nat) (object : Node) (hs : s.left ≠ []) :
    s.Tracks (member d object) (member d object) where
  follows := ((rules_track d).member object (by decide : Token.Kind.dot ≠ .endOfInput)).1 s
  passes := by
    cases d with
    | zero => exact .refl s
    | succ d =>
      rw [member]
      refine passes_of_advance hs (show s.Shows [] from trivial) fun t => ?_
      split
      · exact .bind (guarded_tracks.nameOf (by decide) _).2 fun _ => within_of_stays fun _ => rfl
      · exact .bind (rules_track d).index.2 fun _ => .bind (within_expect _) fun _ =>
          within_of_stays fun _ => rfl

/-- Where no token is left, the rule for members moves on as well, beyond the end, and fails there. -/
theorem Session.run_member_at_end (d : Nat) (object : Node) (hs : s.left = []) :
    ∃ e, s.run (member (d + 1) object) = (.error e, s.next) := by
  have hnext : s.next.left = [] := by rw [left_next, hs, List.tail_nil]
  obtain ⟨e, he⟩ : ∃ e, (index d).run s.next = .error e s.next := by
    obtain ⟨e, he⟩ : ∃ e, (index d).run ([] : List Token) = .error e [] := by
      cases d <;> exact ⟨_, rfl⟩
    have htracks := (rules_track d).index.tracks s.next
    have hfollows := htracks.follows
    obtain ⟨used, hleft, hskip⟩ := htracks.passes
    rw [hnext] at hfollows hleft
    rw [he] at hfollows
    obtain ⟨rfl, -⟩ := List.append_eq_nil_iff.mp hleft.symm
    cases hrun : (index d).run s.next with
    | ok n after =>
      rw [hrun] at hfollows
      cases hfollows
    | error e' after =>
      rw [hrun] at hskip
      exact ⟨e', congrArg _ hskip⟩
  have hadvance : advance.run s = .ok .endOfInput s.next := by
    rw [← show front s.left = .endOfInput by rw [hs]; rfl]
    rfl
  refine ⟨e, ?_⟩
  rw [run, member, bind_of_ok hadvance, if_neg (by decide), bind_of_error he]

namespace Session

/-- The session that a run leaves, however it ends. -/
theorem behind_run (p : ParserOn Session α) (s : Session) :
    behindRun (EStateM.run p s) = (s.run p).2 := by
  unfold run
  cases EStateM.run p s <;> rfl

/-- The position moves on by as many tokens as are gone. -/
theorem position_run (h : s.Tracks p q) :
    (s.run p).2.position + (behindRun (q.run s.left)).length = s.position + s.left.length := by
  obtain ⟨used, hleft, hskip⟩ := h.passes
  have hlength := congrArg List.length hleft
  rw [List.length_append] at hlength
  rw [← h.follows, behindRun_leaving, ← behind_run, hlength, congrArg Session.position hskip,
    skip_position, Nat.add_assoc]

/-- The result in a session is the result on the tokens left. -/
theorem tokensRun_of_ok (h : leaving (EStateM.run p s) = q.run s.left)
    (hrun : s.run p = (.ok a, after)) : q.run s.left = .ok a after.left := by
  rw [← h]
  unfold run at hrun
  cases hp : EStateM.run p s <;> rw [hp] at hrun <;> cases hrun
  rfl

theorem tokensRun_of_error (h : leaving (EStateM.run p s) = q.run s.left)
    (hrun : s.run p = (.error e, after)) : q.run s.left = .error e after.left := by
  rw [← h]
  unfold run at hrun
  cases hp : EStateM.run p s <;> rw [hp] at hrun <;> cases hrun
  rfl

/-- An error on the tokens left is the error in the session. -/
theorem run_fst_of_error (h : leaving (EStateM.run p s) = q.run s.left)
    (hrun : q.run s.left = .error e rest) : (s.run p).1 = .error e := by
  rw [← h] at hrun
  unfold run
  cases hp : EStateM.run p s <;> rw [hp] at hrun <;> cases hrun
  rfl

/-- A rule that succeeds moves over the tokens it takes. -/
theorem run_eq_ok (h : s.Tracks p q) : s.run p = (.ok a, after) ↔
    ∃ used rest, s.left = used ++ rest ∧ q.run s.left = .ok a rest ∧ after = s.skip used := by
  obtain ⟨used, hleft, hskip⟩ := behind_run p s ▸ h.passes
  constructor
  · intro hp
    rw [hp] at hleft hskip
    exact ⟨used, after.left, hleft, tokensRun_of_ok h.follows hp, hskip⟩
  · rintro ⟨used', rest, hleft', hrun, rfl⟩
    rcases hp : s.run p with ⟨e | b, mid⟩
    · cases hrun.symm.trans (tokensRun_of_error h.follows hp)
    · cases hrun.symm.trans (tokensRun_of_ok h.follows hp)
      rw [hp] at hleft hskip
      obtain rfl : mid = s.skip used := hskip
      rw [List.append_cancel_right (hleft.symm.trans hleft')]

/-- A rule that fails has moved over the tokens before the failure. -/
theorem run_eq_error (h : s.Tracks p q) : s.run p = (.error e, after) ↔
    ∃ used rest, s.left = used ++ rest ∧ q.run s.left = .error e rest ∧ after = s.skip used := by
  obtain ⟨used, hleft, hskip⟩ := behind_run p s ▸ h.passes
  constructor
  · intro hp
    rw [hp] at hleft hskip
    exact ⟨used, after.left, hleft, tokensRun_of_error h.follows hp, hskip⟩
  · rintro ⟨used', rest, hleft', hrun, rfl⟩
    rcases hp : s.run p with ⟨e' | b, mid⟩
    · cases hrun.symm.trans (tokensRun_of_error h.follows hp)
      rw [hp] at hleft hskip
      obtain rfl : mid = s.skip used := hskip
      rw [List.append_cancel_right (hleft.symm.trans hleft')]
    · cases hrun.symm.trans (tokensRun_of_ok h.follows hp)

/-- A success on the tokens left is a success in the session, behind the tokens that it has taken.
-/
theorem run_of_ok (h : s.Tracks p q) (hused : s.left = used ++ rest)
    (hrun : q.run s.left = .ok a rest) : s.run p = (.ok a, s.skip used) :=
  (run_eq_ok h).mpr ⟨used, rest, hused, hrun, rfl⟩

/-- A failure on the tokens left is a failure in the session, behind the tokens before it. -/
theorem run_of_error (h : s.Tracks p q) (hused : s.left = used ++ rest)
    (hrun : q.run s.left = .error e rest) : s.run p = (.error e, s.skip used) :=
  (run_eq_error h).mpr ⟨used, rest, hused, hrun, rfl⟩

end Session

/-- Only the last token can be dropped. -/
theorem dropEnd_append {ts : List Token} (h : ∀ t ∈ ts.getLast?, t.kind ≠ .endOfInput)
    (us : List Token) : dropEnd (ts ++ us) = ts ++ dropEnd us := by
  rcases List.eq_nil_or_concat us with rfl | ⟨us, u, rfl⟩
  · have hkeep : ts.getLast?.any (·.kind = .endOfInput) = false := by
      cases hlast : ts.getLast? with
      | none => rfl
      | some t => simpa using h t hlast
    rw [List.append_nil, dropEnd, if_neg (by rw [hkeep]; exact Bool.false_ne_true)]
    exact (List.append_nil ts).symm
  · unfold dropEnd
    rw [List.concat_eq_append, ← List.append_assoc, List.getLast?_concat, List.getLast?_concat,
      List.dropLast_concat, List.dropLast_concat]
    split
    · rfl
    · exact List.append_assoc ..

/-- Without tokens for the end nothing is dropped. -/
theorem dropEnd_eq_self {ts : List Token} (h : ∀ t ∈ ts, t.kind ≠ .endOfInput) :
    dropEnd ts = ts := by
  have := dropEnd_append (fun t ht => h t (List.mem_of_getLast? ht)) []
  rwa [List.append_nil, show dropEnd [] = [] from rfl, List.append_nil] at this

/-- A list of tokens is parsed from its start on. -/
theorem parse_eq_run (ts : List Token) : parse ts = ((Session.ofTokens ts).run program).1 := by
  have hfollows := (Session.ofTokens ts).tracks_program.follows
  rw [Session.left_ofTokens] at hfollows
  rw [parse, ← hfollows, Session.run]
  cases EStateM.run program (Session.ofTokens ts) <;> rfl

end Stencil.Parser
