import Stencil.Proofs.Grammar.Concatenation
import Stencil.Proofs.Grammar.Reports
import Stencil.Proofs.Grammar.Tokens

/-!
# Grammar — how far the position moves

Taking a token moves the position on, also where none is left.  But no rule takes a token there: each
looks at the token first, and it is not the one that stands for the end, wherever that stands.  So a
rule that succeeds moves the position on, and no rule moves it back or behind the last token
(`Moves`).  The rule for members alone does not look; called at the end, it moves beyond
(`Session.run_member_at_end`).

As a round takes a token, the repetitions come to their end (`Ending`), and a whole template is read
to its end, or up to an error, or up to a number that cannot be read (`rules_move_on`).
-/

namespace Stencil.Grammar
open Stencil.Parser

variable {α : Type} {p : ParserOn Session α} {q : Parser α} {d : Nat}

/-- The rule moves the position over so many tokens at least where it succeeds, and always over
tokens that are there. -/
structure Moves (least : Nat) (p : ParserOn Session α) : Prop where
  onwards : ∀ {s after : Session} {a : α}, s.position ≤ s.tokens.length →
    s.run p = (.ok a, after) → s.position + least ≤ after.position
  within : ∀ {s : Session}, s.position ≤ s.tokens.length →
    s.position ≤ (s.run p).2.position ∧ (s.run p).2.position ≤ s.tokens.length
  present : ∀ {s : Session} {t : Token}, s.position ≤ s.tokens.length →
    t ∈ s.taken (s.run p).2 → t.kind ≠ .endOfInput

/-! ### Tokens taken in a run -/

/-- The position stays within the tokens if tokens are passed that are there. -/
theorem position_le_of_passes {s after : Session} (hs : s.position ≤ s.tokens.length)
    (h : s.Passes after) : s.position ≤ after.position ∧ after.position ≤ s.tokens.length := by
  obtain ⟨used, hleft, rfl⟩ := h
  have hlength := congrArg List.length hleft
  rw [Session.left, List.length_drop, List.length_append] at hlength
  rw [Session.skip_position]
  omega

/-- What a rule takes can be taken, up to a number that cannot be read. -/
structure Reads (least : Nat) (q : Parser α) : Prop where
  takes : Takes least q
  accepts : Accepts q fun used _ => AllReadable used
  rejects : Rejects q fun used _ e => Orderly used e

/-- A run in a session, by the tokens it takes. -/
theorem Reads.run_cases {least : Nat} (h : Reads least q) {s : Session} (ht : s.Tracks p q) :
    (∃ used rest a, s.left = used ++ rest ∧ q.run s.left = .ok a rest ∧
      s.run p = (.ok a, s.skip used) ∧ AllReadable used) ∨
    ∃ used rest e, s.left = used ++ rest ∧ s.run p = (.error e, s.skip used) ∧ Orderly used e := by
  cases hrun : q.run s.left with
  | ok a rest =>
    obtain ⟨used, hleft, hused⟩ := h.accepts hrun
    exact .inl ⟨used, rest, a, hleft, rfl, Session.run_of_ok ht hleft hrun, hused⟩
  | error e rest =>
    obtain ⟨used, hleft, hused⟩ := h.rejects hrun
    exact .inr ⟨used, rest, e, hleft, Session.run_of_error ht hleft hrun, hused⟩

theorem Reads.moves {least : Nat} (h : Reads least q) (ht : ∀ s : Session, s.Tracks p q) :
    Moves least p where
  onwards {s after a} _ hrun := by
    obtain ⟨used, rest, b, hleft, hp, hrun', -⟩ | ⟨_, _, _, _, hrun', -⟩ := h.run_cases (ht s)
    · cases hrun.symm.trans hrun'
      have htakes := h.takes hp
      rw [hleft, List.length_append] at htakes
      rw [Session.skip_position]
      omega
    · cases hrun.symm.trans hrun'
  within {s} hs := position_le_of_passes hs (Session.behind_run p s ▸ (ht s).passes)
  present {s t} _ ht' := by
    obtain ⟨used, rest, a, hleft, -, hrun, hused⟩ | ⟨used, rest, e, hleft, hrun, hused⟩ :=
      h.run_cases (ht s)
    · rw [hrun, Session.taken_skip hleft] at ht'
      exact (hused t ht').1
    · rw [hrun, Session.taken_skip hleft] at ht'
      exact hused.not_endOfInput t ht'

/-! ### Rules -/

/-- The rules that derive no empty row of tokens. -/
def Rule.Fills : Rule → Prop
  | .part | .items _ | .body => False
  | _ => True

theorem Derives.ne_nil {r : Rule} {ts : List Token} {v : r.Tree} (h : Derives r ts v)
    (hr : r.Fills) : ts ≠ [] := by
  cases r with
  | level l => exact ne_nil_of_begins h.begins
  | applied names => exact h.begins.1
  | index =>
    cases h with
    | index h => exact ne_nil_of_begins h.begins
    | slice h => cases h <;> simp
  | slice => cases h <;> simp
  | item i => exact ne_nil_of_begins h.begins
  | enclosed i => cases h; exact List.cons_ne_nil _ _
  | assignment => exact ne_nil_of_begins h.begins
  | branches => exact ne_nil_of_begins h.begins
  | piece => exact h.begins.1
  | part | items | body => exact hr.elim

theorem reads_of_rule (r : Rule) {q : Parser r.Tree} (hs : Accepts q (Derives r))
    (hf : Rejects q (Breaks r)) (hn : r.Named) (hfills : r.Fills) : Reads 1 q where
  takes := hs.takes fun h => List.length_pos_iff.mpr (h.ne_nil hfills)
  accepts _ _ _ h := (hs h).imp fun _ h => ⟨h.1, h.2.readable hn⟩
  rejects _ _ _ h := (hf h).imp fun _ h => ⟨h.1, h.2.orderly hn⟩

/-- The tokens before a call say nothing about it. -/
theorem called_readable :
    Called (fun used _ => AllReadable used) (fun used _ e => Orderly used e) where
  callable hts hargs := allReadable_append.mpr ⟨hts, hargs.readable trivial⟩
  breaks hts h := (h.orderly trivial).append hts

theorem reads_call (d : Nat) (callee : Node) : Reads 1 (Parser.call d callee) where
  takes ts rest n h := by
    cases d with
    | zero => rw [Parser.call, tooDeep, failHere_run] at h; cases h
    | succ d =>
      rw [call_run] at h
      exact length_lt_of_arguments (fun _ => trims_again_callStep d _) h
  accepts := @Sound.call d (rules_sound d) (fun used _ => AllReadable used) [] callee
    (@Called.callable _ _ called_readable) allReadable_nil
  rejects := @Reports.call d (rules_report d) (fun used _ => AllReadable used)
    (fun used _ e => Orderly used e) [] callee called_readable allReadable_nil

theorem reads_loop (d : Nat) : Reads 1 (Parser.loop d) where
  takes := (rules_sound d).loop.takes fun {used n} h => by
    have hn := @h (token .openStatement) (token .kwFor) (token .openStatement) (token .kwEndfor)
      (token .closeStatement) rfl rfl rfl rfl rfl
    by_contra hlt
    obtain rfl : used = [] := List.length_eq_zero_iff.mp (by omega)
    generalize hts : token .openStatement :: _ = ts at hn
    cases hn with
    | text ht => cases hts
    | output ho =>
      obtain ⟨rfl, -⟩ := List.cons.inj hts
      cases ho
    | set _ hw | conditional _ hw =>
      obtain ⟨rfl, -⟩ := List.cons.inj (List.cons.inj hts).2
      cases hw
    | loop =>
      have hlength := congrArg List.length hts
      simp at hlength
      omega
  accepts ts rest n h := by
    obtain ⟨used, rfl, hn⟩ := (rules_sound d).loop h
    have hn := (@hn (token .openStatement) (token .kwFor) (token .openStatement) (token .kwEndfor)
      (token .closeStatement) rfl rfl rfl rfl rfl).readable trivial
    simp only [allReadable_cons, allReadable_append] at hn
    exact ⟨used, rfl, hn.2.2.1⟩
  rejects ts rest e h := by
    obtain ⟨used, rfl, hb⟩ := (rules_report d).loop h
    have hb := (@hb (token .openStatement) (token .kwFor) rfl rfl).orderly trivial
    exact ⟨used, rfl, .of_cons (by decide) (.of_cons (by decide) hb)⟩

/-- Where the pieces of a block break off. -/
theorem BodyBreaks.orderly {missing : Token.Kind} {used rest : List Token} {e : Failure}
    (h : BodyBreaks missing used rest e) : Orderly used e := by
  obtain ⟨ts, us, body, rfl, hbody, hb | ⟨rfl, -, rfl⟩⟩ := h
  · exact (hb.orderly trivial).append (hbody.readable trivial)
  · rw [List.append_nil]
    exact orderly_foundAt.mpr (hbody.readable trivial)

theorem reads_pieces (d : Nat) (ends : List Token.Kind) (missing : Token.Kind) :
    Reads 0 (pieces ends missing (Parser.piece d)) where
  takes := Trims.takes (local_pieces (rules_nearby d) ends missing).trims
  accepts _ _ _ h := (accepts_pieces (rules_sound d) ends missing h).imp fun _ h =>
    ⟨h.1, h.2.readable trivial⟩
  rejects _ _ _ h := (rejects_pieces (rules_report d) ends missing h).imp fun _ h =>
    ⟨h.1, h.2.orderly⟩

/-- Where a token is at hand the rule moves over it, whatever it is. -/
def MovesUnseen (p : ParserOn Session α) : Prop :=
  ∀ {s : Session}, s.position < s.tokens.length →
    (∀ {a after}, s.run p = (.ok a, after) → s.position < after.position) ∧
    s.position ≤ (s.run p).2.position ∧ (s.run p).2.position ≤ s.tokens.length

/-- A member takes the token at hand first. -/
theorem movesUnseen_member (d : Nat) (object : Node) : MovesUnseen (Parser.member d object) := by
  intro s hs
  have hleft : s.left ≠ [] := fun hnil => by
    have hlength := congrArg List.length hnil
    rw [Session.left, List.length_drop, List.length_nil] at hlength
    omega
  have htracks := s.tracks_member d object hleft
  refine ⟨fun {n after} h => ?_,
    position_le_of_passes (Nat.le_of_lt hs) (Session.behind_run _ s ▸ htracks.passes)⟩
  obtain ⟨used, rest, hleft, hrun, rfl⟩ := (Session.run_eq_ok htracks).mp h
  have hlt := length_lt_of_member hrun
  rw [hleft, List.length_append] at hlt
  rw [Session.skip_position]
  omega

/-- How far each rule moves the position.  The rule for members alone takes its first token unseen;
it is entered at a dot or a bracket. -/
structure Moving (d : Nat) : Prop where
  level : ∀ l : Level, Moves 1 (l.parser d)
  member : ∀ object, MovesUnseen (Parser.member d object)
  index : Moves 1 (Parser.index d)
  call : ∀ callee, Moves 1 (Parser.call d callee)
  arguments : Moves 1 (Parser.arguments d)
  argument : Moves 1 (Parser.argument d)
  entry : Moves 1 (Parser.entry d)
  piece : Moves 1 (Parser.piece d)
  output : Moves 1 (Parser.output d)
  statement : Moves 1 (Parser.statement d)
  assignment : Moves 1 (Parser.assignment d)
  branches : Moves 1 (Parser.branches d)
  loop : Moves 1 (Parser.loop d)
  pieces : ∀ ends missing, Moves 0 (pieces ends missing (Parser.piece d))

theorem moving (d : Nat) : Moving d :=
  have hs := rules_sound d
  have hr := rules_report d
  have ht := rules_track d
  have moves {r : Rule} {p : ParserOn Session r.Tree} {q : Parser r.Tree} (h : TracksAt [] p q)
      (ha : Accepts q (Derives r)) (hb : Rejects q (Breaks r)) (hn : r.Named)
      (hfills : r.Fills) : Moves 1 p := (reads_of_rule r ha hb hn hfills).moves h.tracks
  { level := fun l => moves (r := .level l) (l.related ht) (hs.level l) (hr.level l) trivial trivial
    member := movesUnseen_member d
    index := moves (r := .index) ht.index hs.index hr.index trivial trivial
    call := fun callee => (reads_call d callee).moves (ht.call callee).tracks
    arguments := moves (r := .enclosed .argument) ht.arguments hs.arguments hr.arguments trivial
      trivial
    argument := moves (r := .item .argument) ht.argument hs.argument hr.argument trivial trivial
    entry := moves (r := .item .entry) ht.entry hs.entry hr.entry trivial trivial
    piece := moves (r := .piece) ht.piece hs.piece hr.piece trivial trivial
    output := moves (r := .piece) ht.output hs.output hr.output trivial trivial
    statement := moves (r := .piece) ht.statement hs.statement hr.statement trivial trivial
    assignment := moves (r := .assignment) ht.assignment hs.assignment hr.assignment trivial trivial
    branches := moves (r := .branches) ht.branches hs.branches hr.branches trivial trivial
    loop := (reads_loop d).moves ht.loop.tracks
    pieces := fun ends missing =>
      (reads_pieces d ends missing).moves (guarded_tracks.pieces ends missing ht.piece).tracks }

/-! ### Repetitions -/

/-- The repetitions of the rules, each of which ends. -/
structure Ending (d : Nat) : Prop where
  steps : ∀ l : Level, Ends (extendRound (l.step d)) (extendFor (l.step d))
  calls : Ends (extendRound (callStep d)) (extendFor (callStep d))
  elements : Ends (delimitedRound .rightBracket (Parser.expression d))
    fun rounds _ => delimitedFor .rightBracket (Parser.expression d) rounds
  arguments : Ends (delimitedRound .rightParen (Parser.argument d))
    fun rounds _ => delimitedFor .rightParen (Parser.argument d) rounds
  entries : Ends (delimitedRound .rightBrace (Parser.entry d))
    fun rounds _ => delimitedFor .rightBrace (Parser.entry d) rounds
  parts : Ends (subscriptRound (Parser.expression d))
    fun rounds _ => subscriptFor (Parser.expression d) rounds
  pieces : ∀ ends missing, Ends (piecesRound ends missing (Parser.piece d))
    fun rounds _ => piecesFor ends missing (Parser.piece d) rounds
  all : Ends (allRound (Parser.piece d)) fun rounds _ => allFor (Parser.piece d) rounds

theorem ending (d : Nat) : Ending d :=
  have hn := rules_nearby d
  { steps := fun l => ends_extendFor (l.advances_step d)
    calls := ends_extendFor (advances_callStep d)
    elements := ends_delimitedFor (hn.level .expression).trims _
    arguments := ends_delimitedFor hn.argument.trims _
    entries := ends_delimitedFor hn.entry.trims _
    parts := ends_subscriptFor (hn.level .expression).trims
    pieces := ends_piecesFor (takes_piece d)
    all := ends_allFor (takes_piece d) }

/-! ### Whole templates -/

theorem reads_program : Reads 0 program where
  takes := Trims.takes local_program.trims
  accepts ts rest n h := by
    unfold program at h
    rw [bind_eq_ok] at h
    obtain ⟨body, mid, hbody, h⟩ := h
    obtain ⟨-, rfl⟩ := pure_eq_ok.mp h
    obtain ⟨used, rfl, hused⟩ := accepts_allFor (rules_sound depthLimit).piece _ hbody
    exact ⟨used, rfl, hused.readable trivial⟩
  rejects ts rest e h := by
    rw [program_eq_error, all, bind_of_ok (remaining_run ts)] at h
    obtain ⟨used, rfl, hb⟩ := rejects_allFor (rules_sound _).piece (rules_report _).piece _ h
    exact ⟨used, rfl, hb.orderly trivial⟩

/-- A whole template that is parsed is read to its end. -/
theorem position_of_program {s after : Session} {n : Node} (hs : s.position ≤ s.tokens.length)
    (h : s.run program = (.ok n, after)) : after.position = s.tokens.length := by
  obtain ⟨used, rest, hleft, hrun, rfl⟩ := (Session.run_eq_ok s.tracks_program).mp h
  obtain ⟨body, mid, hbody, hrun⟩ := bind_eq_ok.mp hrun
  obtain ⟨-, rfl⟩ := pure_eq_ok.mp hrun
  obtain rfl := eq_nil_of_allFor (Nat.le_refl _) hbody
  have hlength := congrArg List.length hleft
  rw [Session.left, List.length_drop, List.append_nil] at hlength
  rw [Session.skip_position]
  omega

/-- The number that a whole template fails at is the last token taken. -/
theorem numeral_iff_refused (s : Session) :
    (∃ e, (s.run program).1 = .error (.numeral e)) ↔
      ∃ t ∈ (s.taken (s.run program).2).getLast?, Refused t := by
  have readable {used : List Token} (h : AllReadable used) : ¬ ∃ t ∈ used.getLast?, Refused t :=
    fun ⟨t, ht, hr⟩ => (h t (List.mem_of_getLast? ht)).2 hr
  obtain ⟨used, rest, n, hleft, -, hrun, hused⟩ | ⟨used, rest, e, hleft, hrun, hused⟩ :=
    reads_program.run_cases s.tracks_program <;> rw [hrun, Session.taken_skip hleft]
  · exact iff_of_false (fun ⟨_, h⟩ => nomatch h) (readable hused)
  · cases e with
    | malformed error => exact iff_of_false (fun ⟨_, h⟩ => nomatch h) (readable hused)
    | numeral error =>
      obtain ⟨init, t, rfl, -, ht, hread⟩ := hused
      refine iff_of_true ⟨error, rfl⟩ ⟨t, ?_, ht, error, hread⟩
      rw [List.getLast?_append]
      rfl

/-- **Every rule moves on, within the tokens**, and every repetition ends.  So a whole template is
read to its end, or there is an error in its structure, or a number cannot be read; and this last
exactly where the token before the position is such a number. -/
theorem rules_move_on (d : Nat) :
    Moving d ∧ Ending d ∧ Moves 0 program ∧
    ∀ s : Session, s.position ≤ s.tokens.length →
      (∀ n after, s.run program = (.ok n, after) → after.position = s.tokens.length) ∧
      ((∃ e, (s.run program).1 = .error (.numeral e)) ↔
        ∃ t ∈ (s.taken (s.run program).2).getLast?, Refused t) :=
  ⟨moving d, ending d, reads_program.moves Session.tracks_program, fun s hs =>
    ⟨fun _ _ => position_of_program hs, numeral_iff_refused s⟩⟩

/-- The token of a number with two points. -/
def sampleNumber : Token := ⟨.number, "1.2.3", 1, 4⟩

/-- The tokens of `{{ 1.2.3 }}`. -/
def sampleRefused : Session :=
  ⟨[⟨.openExpression, "\x7b\x7b", 1, 1⟩, sampleNumber, ⟨.closeExpression, "\x7d\x7d", 1, 10⟩], 0⟩

/-- In `{{ 1.2.3 }}` the number cannot be read, and the position is behind it. -/
theorem rules_move_on_sample :
    sampleRefused.position ≤ sampleRefused.tokens.length ∧
      (sampleRefused.run program).2.position = 2 ∧
      ∃ e, (sampleRefused.run program).1 = .error (.numeral e) :=
  have hread : ∃ e, Numeral.read sampleNumber.value = .error e := ⟨_, rfl⟩
  have hmoves := (rules_move_on depthLimit).2.2.2 sampleRefused (Nat.zero_le _)
  ⟨Nat.zero_le _, rfl, hmoves.2.mpr ⟨sampleNumber, rfl, rfl, hread⟩⟩

end Stencil.Grammar
