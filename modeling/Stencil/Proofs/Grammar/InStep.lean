import Stencil.Proofs.Grammar.Inside
import Stencil.Proofs.Grammar.Prefix

/-!
# Grammar — in step with the tags

Where the tokens are texts and whole tags, as those of every text are, the parser stays in step with
them.  A piece is looked for only where a text or a tag begins; an error stands inside a tag, or
else the tokens ran out where a block was open (`fault_of_parse`, `stays_in_step`).

A rule for what stands inside a tag never leaves it (`Inside`), so that the mark behind it is the
one that closes the tag, and behind the mark no tag is open.  That carries the induction over the
rules for pieces (`InStep`).  Two of them are entered behind the word that begins a block: where the
tokens run out there, what was taken is all of the block but the tag that ends it.
-/

namespace Stencil.Grammar
open Stencil.Parser Stencil.Lexer

/-- The two kinds of blocks. -/
inductive Block
  | conditional
  | loop
  deriving DecidableEq

namespace Block

/-- The word that begins a block. -/
def word : Block → Token.Kind
  | conditional => .kwIf
  | loop => .kwFor

/-- The word that ends a block. -/
def ending : Block → Token.Kind
  | conditional => .kwEndif
  | loop => .kwEndfor

theorem ending_inj {b b' : Block} (h : b.ending = b'.ending) : b = b' := by
  cases b <;> cases b' <;> first | rfl | cases h

end Block

/-- At the end of the tokens a block is open, and it lacks only the tag that ends it. -/
def Unended (ts : List Token) (b : Block) : Prop :=
  ∃ (before inside : List Token) (o w : Token) (n : Node), ts = before ++ o :: w :: inside ∧
    o.kind = .openStatement ∧ w.kind = b.word ∧
    Derives .piece (o :: w :: (inside ++ endOf b.ending)) n

/-- What can be wrong with texts and whole tags. -/
inductive Fault (ts : List Token) : Failure → Prop
  | tooDeep (token : Option Token) : Fault ts (.malformed ⟨.nestingTooDeep, token⟩)
  | numeral (e : Numeral.Error) : Fault ts (.numeral e)
  | inside {cause : Cause} {t : Token} : cause.Inside → t ∈ ts → Within t.kind →
      Fault ts (.malformed ⟨cause, some t⟩)
  | unended {b : Block} : Unended ts b → Fault ts (foundAt (.expectedToken b.ending) [])

variable {tag : Tag} {d : Nat} {r : Rule} {ts us rest : List Token} {o w c : Token} {e : Failure}
  {n : Node} {body : List Node}

/-- A block that lacks its end tag lacks it whatever stands in front. -/
theorem Unended.append {b : Block} (h : Unended us b) (ts : List Token) : Unended (ts ++ us) b := by
  obtain ⟨before, inside, o, w, n, rfl, hblock⟩ := h
  exact ⟨ts ++ before, inside, o, w, n, (List.append_assoc ..).symm, hblock⟩

/-- What is wrong with some tokens is wrong with more in front of them. -/
theorem Fault.append (h : Fault us e) (ts : List Token) : Fault (ts ++ us) e := by
  cases h with
  | tooDeep token => exact .tooDeep token
  | numeral e => exact .numeral e
  | inside hcause hmem ht => exact .inside hcause (List.mem_append_right ts hmem) ht
  | unended hblock => exact .unended (hblock.append ts)

theorem Fault.of_suffix (h : Fault us e) (hus : us <:+ ts) : Fault ts e := by
  obtain ⟨before, rfl⟩ := hus
  exact h.append before

theorem Fault.cons (h : Fault us e) (t : Token) : Fault (t :: us) e := h.append [t]

/-! ### Where a tag is open -/

/-- An error at the token at hand is one inside the tag. -/
theorem fault_foundAt {cause : Cause} (h : Tagged (some tag) ts) (hcause : cause.Inside) :
    Fault ts (foundAt cause ts) := by
  obtain ⟨t, us, rfl, ht⟩ := h.cases_some
  exact .inside hcause (.head us) (ht.imp_right fun ht => ⟨tag, ht⟩)

/-- A token that is missed while a tag is open is missed inside the tag. -/
theorem fault_of_expect (kind : Token.Kind) (h : Tagged (some tag) ts)
    (hkind : kind ≠ .endOfInput) (hcause : (Cause.expectedToken kind).Inside)
    (hrun : (expect kind).run ts = .error e rest) : Fault ts e := by
  obtain ⟨-, -, rfl⟩ := expect_eq_error hkind hrun
  exact fault_foundAt h hcause

theorem fault_of_closeStatement (h : Tagged (some tag) ts)
    (hrun : (expect .closeStatement).run ts = .error e rest) : Fault ts e :=
  fault_of_expect .closeStatement h (by decide) ⟨by decide, by decide⟩ hrun

/-- A rule for what stands inside a tag fails inside the tag. -/
theorem fault_of_rejects {p : Parser Node} (hp : Rejects p (Breaks r)) (hr : r.Inside)
    (h : Tagged (some tag) ts) (hrun : p.run ts = .error e rest) : Fault ts e := by
  obtain ⟨used, rfl, hb⟩ := hp hrun
  have hinner := hb.allInner hr
  cases hb.noticed hr with
  | numeral e => exact .numeral e
  | here hcause => exact (fault_foundAt (h.behind_inner hinner) hcause).append used
  | before hcause ht => exact .inside hcause (List.mem_append_left rest ht) (.inl (hinner _ ht))

/-- Where a statement with the word begins, its tag is open behind the word. -/
theorem tagged_behind_word {state : Option Tag} {word : Token.Kind} (h : Tagged state (us ++ ts))
    (hbegins : beginsWith [.openStatement, word] ts = true) (hword : word.isInner = true) :
    ∃ o w mid, ts = o :: w :: mid ∧ o.kind = .openStatement ∧ w.kind = word ∧
      Tagged (some .statement) mid := by
  obtain ⟨o, w, mid, rfl, ho, hw⟩ := beginsWith_pair hbegins
  refine ⟨o, w, mid, rfl, ho, hw, ?_⟩
  have hopen : o.kind = Tag.statement.openKind := ho
  obtain ⟨state, h⟩ := h.behind
  rcases (h.before_opener hopen).cases_none with ⟨htext, -⟩ | ⟨tag, hopen', hmid⟩
  · cases ho.symm.trans htext
  · obtain rfl : tag = .statement := openKind_inj (hopen'.symm.trans ho)
    exact hmid.of_inner (hw ▸ hword)

/-- The tag that ends a block is there, but something else stands before the mark that closes it. -/
theorem fault_of_endTag {state : Option Tag} {word : Token.Kind} (h : Tagged state (us ++ ts))
    (hbegins : beginsWith [.openStatement, word] ts = true) (hword : word.isInner = true)
    (hrun : (endTag word).run ts = .error e rest) : Fault ts e := by
  obtain ⟨o, w, mid, rfl, ho, hw, hmid⟩ := tagged_behind_word h hbegins hword
  rw [endTag, bind_of_ok (expect_cons ho _), bind_of_ok (expect_cons hw _), bind_eq_error] at hrun
  rcases hrun with hrun | ⟨_, _, _, hrun⟩
  · exact (fault_of_closeStatement hmid hrun).append [o, w]
  · cases hrun

/-! ### Where no tag is open -/

/-- A piece ends with a text, or with a mark that closes a tag. -/
theorem Derives.piece_ends (h : Derives .piece ts n) :
    ∃ init t, ts = init ++ [t] ∧ Completes t.kind := by
  cases h with
  | text ht => exact ⟨[], _, rfl, .inl ht⟩
  | @output o _ ts _ _ _ hc => exact ⟨o :: ts, _, rfl, .inr ⟨.expression, hc⟩⟩
  | @set o w _ ts _ _ _ _ hc => exact ⟨o :: w :: ts, _, rfl, .inr ⟨.statement, hc⟩⟩
  | @conditional o w o' w' c ts _ _ _ _ _ _ hc =>
    exact ⟨o :: w :: (ts ++ [o', w']), c, by simp, .inr ⟨.statement, hc⟩⟩
  | @loop o w i c o' w' c' ts us vs _ _ _ _ _ _ _ _ _ _ _ _ hc =>
    exact ⟨o :: w :: (ts ++ i :: (us ++ c :: (vs ++ [o', w']))), c', by simp, .inr ⟨.statement, hc⟩⟩

/-- Behind a piece no tag is open. -/
theorem tagged_behind_piece (h : Tagged none (ts ++ rest)) (hn : Derives .piece ts n) :
    Tagged none rest := by
  obtain ⟨init, t, rfl, ht⟩ := hn.piece_ends
  rw [List.append_assoc] at h
  obtain ⟨state, h⟩ := h.behind
  exact h.of_completes ht

/-- Pieces fail in one of them, or where the tokens run out. -/
theorem fault_of_piecesFor {p : Parser Node} (hp : Accepts p (Derives .piece))
    (hf : ∀ {ts rest e}, Tagged none ts → ts ≠ [] → p.run ts = .error e rest → Fault ts e)
    (ends : List Token.Kind) (missing : Token.Kind) (rounds : Nat) :
    ∀ {ts rest : List Token} {e : Failure}, ts.length ≤ rounds → Tagged none ts →
      (piecesFor ends missing p rounds).run ts = .error e rest →
        Fault ts e ∨ e = foundAt (.expectedToken missing) [] ∧ ∃ body, Derives .body ts body := by
  induction rounds with
  | zero =>
    intro ts rest e hr _ h
    obtain rfl := List.length_eq_zero_iff.mp (Nat.le_zero.mp hr)
    obtain ⟨-, rfl⟩ := failHere_eq_error h
    exact .inr ⟨rfl, [], .bodyNil⟩
  | succ rounds ih =>
    intro ts rest e hr htag h
    rw [piecesFor, bind_of_ok (remaining_run ts)] at h
    split at h
    · cases h
    rw [bind_of_ok (atEnd_run ts)] at h
    split at h
    · rename_i hnil
      obtain rfl := List.isEmpty_iff.mp hnil
      rw [bind_of_error (failHere_run _ [])] at h
      cases h
      exact .inr ⟨rfl, [], .bodyNil⟩
    rename_i hne
    rw [bind_eq_error] at h
    rcases h with h | ⟨n, mid, hrun, h⟩
    · exact .inl (hf htag (by simpa using hne) h)
    rw [bind_pure_eq_error] at h
    obtain ⟨us, rfl, hn⟩ := hp hrun
    have hpos := List.length_pos_iff.mpr hn.begins.1
    rw [List.length_append] at hr
    -- a piece that was read leaves no tag open, so what follows is outside tags again
    rcases ih (by omega) (tagged_behind_piece htag hn) h with hfault | ⟨he, body, hbody⟩
    · exact .inl (hfault.append us)
    · exact .inr ⟨he, n :: body, .bodyMore hn hbody⟩

/-- Pieces end before a tag that begins with one of the words. -/
theorem begins_of_piecesFor {p : Parser Node} {ends : List Token.Kind} {missing : Token.Kind}
    {rounds : Nat} (h : (piecesFor ends missing p rounds).run ts = .ok body rest) :
    ∃ kind ∈ ends, beginsWith [.openStatement, kind] rest = true := by
  induction rounds generalizing ts body with
  | zero =>
    rw [piecesFor, failHere_run] at h
    cases h
  | succ rounds ih =>
    rw [piecesFor, bind_of_ok (remaining_run ts)] at h
    split at h
    · rename_i hends
      obtain ⟨-, rfl⟩ := pure_eq_ok.mp h
      exact List.any_eq_true.mp hends
    rw [bind_of_ok (atEnd_run ts)] at h
    split at h
    · rw [bind_of_error (failHere_run _ ts)] at h
      cases h
    simp only [bind_eq_ok] at h
    obtain ⟨n, mid, -, body, mid', hmore, h⟩ := h
    obtain ⟨-, rfl⟩ := pure_eq_ok.mp h
    exact ih hmore

/-- Rows of pieces up to the end fail in one of them. -/
theorem fault_of_allFor {p : Parser Node} (hp : Accepts p (Derives .piece))
    (hf : ∀ {ts rest e}, Tagged none ts → ts ≠ [] → p.run ts = .error e rest → Fault ts e)
    (rounds : Nat) : ∀ {ts rest : List Token} {e : Failure}, Tagged none ts →
      (allFor p rounds).run ts = .error e rest → Fault ts e := by
  induction rounds with
  | zero =>
    intro ts rest e _ h
    cases h
  | succ rounds ih =>
    intro ts rest e htag h
    rw [allFor, bind_of_ok (atEnd_run ts)] at h
    split at h
    · cases h
    rename_i hne
    rw [bind_eq_error] at h
    rcases h with h | ⟨n, mid, hrun, h⟩
    · exact hf htag (by simpa using hne) h
    rw [bind_pure_eq_error] at h
    obtain ⟨us, rfl, hn⟩ := hp hrun
    exact (ih (tagged_behind_piece htag hn) h).append us

/-! ### Rules -/

/-- The rules for pieces fail over faults of texts and whole tags.  Those behind the word that
begins a block may also run out of tokens, with the block derived but for its end. -/
structure InStep (d : Nat) : Prop where
  piece : ∀ {ts rest e}, Tagged none ts → ts ≠ [] → (Parser.piece d).run ts = .error e rest →
    Fault ts e
  output : ∀ {o ts rest e}, o.kind = .openExpression → Tagged (some .expression) ts →
    (Parser.output d).run (o :: ts) = .error e rest → Fault (o :: ts) e
  statement : ∀ {o ts rest e}, o.kind = .openStatement → Tagged (some .statement) ts →
    (Parser.statement d).run (o :: ts) = .error e rest → Fault (o :: ts) e
  branches : ∀ {ts rest e}, Tagged (some .statement) ts →
    (Parser.branches d).run ts = .error e rest →
    Fault ts e ∨ e = foundAt (.expectedToken .kwEndif) [] ∧ ∃ n, Derives .branches ts n
  loop : ∀ {ts rest e}, Tagged (some .statement) ts → (Parser.loop d).run ts = .error e rest →
    Fault ts e ∨ e = foundAt (.expectedToken .kwEndfor) [] ∧ ∀ o w : Token,
      o.kind = .openStatement → w.kind = .kwFor →
        ∃ n, Derives .piece (o :: w :: (ts ++ endOf .kwEndfor)) n

/-- Of whole tags, a body breaks off in a piece, or all of it has been read. -/
theorem fault_of_pieces (hi : InStep d) (ends : List Token.Kind) (missing : Token.Kind)
    (htag : Tagged none ts)
    (h : (pieces ends missing (Parser.piece d)).run ts = .error e rest) :
    Fault ts e ∨ e = foundAt (.expectedToken missing) [] ∧ ∃ body, Derives .body ts body := by
  rw [pieces, bind_of_ok (remaining_run ts)] at h
  exact fault_of_piecesFor (rules_sound d).piece hi.piece _ _ _ (Nat.le_refl _) htag h

/-- A body ends in front of a tag that ends it. -/
theorem begins_of_pieces {ends : List Token.Kind} {missing : Token.Kind}
    (h : (pieces ends missing (Parser.piece d)).run ts = .ok body rest) :
    ∃ kind ∈ ends, beginsWith [.openStatement, kind] rest = true := by
  rw [pieces, bind_of_ok (remaining_run ts)] at h
  exact begins_of_piecesFor h

/-- Branches end before the tag that ends their block. -/
theorem begins_of_branches (d : Nat) : ∀ {ts rest : List Token} {n : Node},
    (Parser.branches d).run ts = .ok n rest →
      beginsWith [.openStatement, .kwEndif] rest = true := by
  induction d with
  | zero =>
    intro ts rest n h
    rw [Parser.branches, tooDeep, failHere_run] at h
    cases h
  | succ d ih =>
    intro ts rest n h
    rw [Parser.branches] at h
    simp only [bind_eq_ok] at h
    obtain ⟨test, mid, -, c, mid', -, body, mid, hbody, b, mid', hsees, h⟩ := h
    rw [sees_run] at hsees
    cases hsees
    -- the body has ended before one of three words; the first two lead on to the last
    split at h
    · simp only [bind_eq_ok] at h
      obtain ⟨_, _, _, _, _, _, other, mid', hother, h⟩ := h
      obtain ⟨-, rfl⟩ := pure_eq_ok.mp h
      exact ih hother
    rename_i helif
    rw [bind_of_ok (sees_run _ mid)] at h
    split at h
    · simp only [bind_eq_ok] at h
      obtain ⟨_, _, _, _, _, _, _, _, _, other, mid', hother, h⟩ := h
      obtain ⟨-, rfl⟩ := pure_eq_ok.mp h
      simpa using begins_of_pieces hother
    · obtain ⟨-, rfl⟩ := pure_eq_ok.mp h
      simpa [*] using begins_of_pieces hbody

/-- A loop ends before the tag that ends its block. -/
theorem begins_of_loop (d : Nat) {ts rest : List Token} {n : Node}
    (h : (Parser.loop d).run ts = .ok n rest) :
    beginsWith [.openStatement, .kwEndfor] rest = true := by
  cases d with
  | zero =>
    rw [Parser.loop, tooDeep, failHere_run] at h
    cases h
  | succ d =>
    rw [Parser.loop, bind_of_ok (current_run ts)] at h
    obtain ⟨target, mid, -, h⟩ := bind_eq_ok.mp h
    split at h
    · simp only [bind_eq_ok] at h
      obtain ⟨_, _, _, _, _, _, _, _, _, body, mid', hbody, h⟩ := h
      obtain ⟨-, rfl⟩ := pure_eq_ok.mp h
      simpa using begins_of_pieces hbody
    · cases h

/-- A piece of whole tags is begun by a text or an opener, so it is not refused as such. -/
theorem piece_inStep (hi : InStep d) (htag : Tagged none ts) (hne : ts ≠ [])
    (h : (Parser.piece (d + 1)).run ts = .error e rest) : Fault ts e := by
  obtain ⟨t, us, rfl⟩ := List.exists_cons_of_ne_nil hne
  rw [Parser.piece, bind_of_ok (current_run _), front_cons] at h
  rcases htag.cases_none with ⟨htext, -⟩ | ⟨tag, hopen, htag⟩
  · rw [htext] at h
    cases h
  · rw [hopen] at h
    cases tag with
    | statement => exact hi.statement hopen htag h
    | expression => exact hi.output hopen htag h

/-- An output of a whole tag is wrong inside the tag only. -/
theorem output_inStep (ho : o.kind = .openExpression) (htag : Tagged (some .expression) ts)
    (h : (Parser.output (d + 1)).run (o :: ts) = .error e rest) : Fault (o :: ts) e := by
  rw [Parser.output, bind_of_ok (expect_cons ho ts)] at h
  simp only [bind_eq_error] at h
  rcases h with h | ⟨n, mid, hn, h | ⟨_, _, _, h⟩⟩
  · exact (fault_of_rejects ((rules_report d).level .expression) trivial htag h).cons o
  · obtain ⟨us, rfl, hus⟩ := (rules_sound d).level .expression hn
    have hmid := htag.behind_inner (hus.allInner trivial)
    have hfault := fault_of_expect .closeExpression hmid (by decide) ⟨by decide, by decide⟩ h
    exact hfault.append (o :: us)
  · cases h

/-- A statement is wrong inside its own tag, inside those of its block, or in lacking the tag that
ends it. -/
theorem statement_inStep (hi : InStep d) (ho : o.kind = .openStatement)
    (htag : Tagged (some .statement) ts)
    (h : (Parser.statement (d + 1)).run (o :: ts) = .error e rest) : Fault (o :: ts) e := by
  have hs := rules_sound d
  rw [Parser.statement, bind_of_ok (expect_cons ho ts), bind_of_ok (current_run ts)] at h
  obtain ⟨w, mid, rfl, hw⟩ := htag.cases_some
  -- a word of a statement leaves the tag open
  have hword (hk : w.kind.isInner = true) : Tagged (some .statement) mid :=
    htag.of_inner hk
  rw [front_cons] at h
  cases hk : w.kind <;> rw [hk] at h hword
  case kwSet =>
    rw [bind_of_ok (advance_cons w mid)] at h
    simp only [bind_eq_error] at h
    rcases h with h | ⟨n, mid', hn, h | ⟨_, _, _, h⟩⟩
    · exact (fault_of_rejects (rules_report d).assignment trivial (hword rfl) h).append [o, w]
    · obtain ⟨us, rfl, hus⟩ := hs.assignment hn
      have hmid := (hword rfl).behind_inner (hus.allInner trivial)
      exact (fault_of_closeStatement hmid h).append (o :: w :: us)
    · cases h
  case kwIf =>
    rw [bind_of_ok (advance_cons w mid)] at h
    simp only [bind_eq_error] at h
    rcases h with h | ⟨n, mid', hn, h | ⟨_, _, _, h⟩⟩
    · rcases hi.branches (hword rfl) h with hfault | ⟨rfl, n, hn⟩
      · exact hfault.append [o, w]
      · have hblock := Derives.conditional ho hk hn (token_kind .openStatement)
          (token_kind .kwEndif) (token_kind .closeStatement)
        exact .unended (b := .conditional) ⟨[], mid, o, w, n, rfl, ho, hk, hblock⟩
    -- behind the branches a tag of the block is at hand, so the failure is within it
    · obtain ⟨us, rfl, -⟩ := hs.branches hn
      exact (fault_of_endTag (hword rfl) (begins_of_branches d hn) rfl h).append (o :: w :: us)
    · cases h
  case kwFor =>
    rw [bind_of_ok (advance_cons w mid)] at h
    simp only [bind_eq_error] at h
    rcases h with h | ⟨n, mid', hn, h | ⟨_, _, _, h⟩⟩
    · rcases hi.loop (hword rfl) h with hfault | ⟨rfl, hblock⟩
      · exact hfault.append [o, w]
      · obtain ⟨n, hblock⟩ := hblock o w ho hk
        exact .unended (b := .loop) ⟨[], mid, o, w, n, rfl, ho, hk, hblock⟩
    · obtain ⟨us, rfl, -⟩ := hs.loop hn
      exact (fault_of_endTag (hword rfl) (begins_of_loop d hn) rfl h).append (o :: w :: us)
    · cases h
  -- no other token begins a statement, and it stands inside the tag
  all_goals
    obtain ⟨-, rfl⟩ := fail_eq_error h
    have hcause : (Cause.unexpectedToken "statement").Inside :=
      show "statement" ≠ "" by decide
    exact .inside hcause (.tail _ (.head _)) (hw.imp_right fun hw => ⟨.statement, hw⟩)

/-- Branches of whole tags are wrong inside them, or lack the tag that ends them. -/
theorem branches_inStep (hi : InStep d) (htag : Tagged (some .statement) ts)
    (h : (Parser.branches (d + 1)).run ts = .error e rest) :
    Fault ts e ∨ e = foundAt (.expectedToken .kwEndif) [] ∧ ∃ n, Derives .branches ts n := by
  have hs := rules_sound d
  rw [Parser.branches, bind_eq_error] at h
  rcases h with h | ⟨test, mid, hrun, h⟩
  · exact .inl (fault_of_rejects ((rules_report d).level .expression) trivial htag h)
  obtain ⟨us, rfl, htest⟩ := hs.level .expression hrun
  have hmid := htag.behind_inner (htest.allInner trivial)
  rw [bind_eq_error] at h
  rcases h with h | ⟨c, mid', hclose, h⟩
  · exact .inl ((fault_of_closeStatement hmid h).append us)
  obtain ⟨rfl, hc⟩ := expect_eq_ok.mp hclose
  have hmid := hmid.of_completes (.inr ⟨.statement, hc⟩)
  rw [bind_eq_error] at h
  rcases h with h | ⟨body, mid, hbody, h⟩
  · rcases fault_of_pieces hi _ _ hmid h with hfault | ⟨rfl, body, hbody⟩
    · exact .inl ((hfault.cons c).append us)
    · exact .inr ⟨rfl, _, .noElse htest hc hbody⟩
  obtain ⟨vs, rfl, hvs⟩ := accepts_pieces hs _ _ hbody
  rw [bind_of_ok (sees_run _ mid)] at h
  -- an elif and an else open tags of their own, whose failures lie further on
  split at h
  · rename_i helif
    obtain ⟨o, w, mid, rfl, ho, hw, hmid⟩ := tagged_behind_word hmid helif rfl
    rw [bind_of_ok (advance_cons o _), bind_of_ok (advance_cons w mid), bind_pure_eq_error] at h
    rcases hi.branches hmid h with hfault | ⟨rfl, n, hn⟩
    · exact .inl (hfault.of_suffix ⟨us ++ c :: (vs ++ [o, w]), by simp⟩)
    · exact .inr ⟨rfl, _, .elseIf htest hc hvs ho hw hn⟩
  rw [bind_of_ok (sees_run _ mid)] at h
  split at h
  · rename_i helse
    obtain ⟨o, w, mid, rfl, ho, hw, hmid⟩ := tagged_behind_word hmid helse rfl
    rw [bind_of_ok (advance_cons o _), bind_of_ok (advance_cons w mid)] at h
    simp only [bind_eq_error, expect_eq_ok] at h
    rcases h with h | ⟨c', mid', ⟨rfl, hc'⟩, h | ⟨_, _, _, h⟩⟩
    · have hfault := fault_of_closeStatement hmid h
      exact .inl (hfault.of_suffix ⟨us ++ c :: (vs ++ [o, w]), by simp⟩)
    · have hmid' := hmid.of_completes (.inr ⟨.statement, hc'⟩)
      rcases fault_of_pieces hi _ _ hmid' h with hfault | ⟨rfl, other, hother⟩
      · exact .inl (hfault.of_suffix ⟨us ++ c :: (vs ++ [o, w, c']), by simp⟩)
      · exact .inr ⟨rfl, _, .elseBody htest hc hvs ho hw hc' hother⟩
    · cases h
  · cases h

/-- A loop of whole tags is wrong inside them, or lacks the tag that ends it. -/
theorem loop_inStep (hi : InStep d) (htag : Tagged (some .statement) ts)
    (h : (Parser.loop (d + 1)).run ts = .error e rest) :
    Fault ts e ∨ e = foundAt (.expectedToken .kwEndfor) [] ∧ ∀ o w : Token,
      o.kind = .openStatement → w.kind = .kwFor →
        ∃ n, Derives .piece (o :: w :: (ts ++ endOf .kwEndfor)) n := by
  have hs := rules_sound d
  rw [Parser.loop, bind_of_ok (current_run ts), bind_eq_error] at h
  rcases h with h | ⟨target, mid, hrun, h⟩
  · exact .inl (fault_of_rejects ((rules_report d).level .chained) trivial htag h)
  obtain ⟨us, rfl, htarget⟩ := hs.level .chained hrun
  have hinner := htarget.allInner trivial
  have hmid := htag.behind_inner hinner
  split at h
  · rename_i hname
    simp only [bind_eq_error, expect_eq_ok] at h
    rcases h with h | ⟨i, mid', ⟨rfl, hi'⟩, h | ⟨iterable, mid, hiter, h⟩⟩
    · have hfault := fault_of_expect .kwIn hmid (by decide) ⟨by decide, by decide⟩ h
      exact .inl (hfault.append us)
    · have hmid := hmid.of_inner (hi' ▸ rfl)
      have hfault := fault_of_rejects ((rules_report d).level .expression) trivial hmid h
      exact .inl ((hfault.cons i).append us)
    obtain ⟨vs, rfl, hvs⟩ := hs.level .expression hiter
    have hmid := (hmid.of_inner (hi' ▸ rfl)).behind_inner (hvs.allInner trivial)
    rcases h with h | ⟨c, mid', ⟨rfl, hc⟩, h | ⟨_, _, _, h⟩⟩
    · exact .inl ((fault_of_closeStatement hmid h).of_suffix ⟨us ++ i :: vs, by simp⟩)
    · have hmid' := hmid.of_completes (.inr ⟨.statement, hc⟩)
      rcases fault_of_pieces hi _ _ hmid' h with hfault | ⟨rfl, body, hbody⟩
      · exact .inl (hfault.of_suffix ⟨us ++ i :: (vs ++ [c]), by simp⟩)
      -- only the end tag is missing: with it the loop would be derived
      · refine .inr ⟨rfl, fun o w ho hw => ?_⟩
        cases target with
        | identifier v =>
          have hloop := derives_loop ho hw htarget hi' hvs hc hbody
          exact ⟨_, by simpa using hloop⟩
        | _ => cases hname
    · cases h
  · obtain ⟨-, rfl⟩ := fail_eq_error h
    have hne := ne_nil_of_begins htarget.begins
    have hmem := front_mem hne
    rw [front_append hne]
    exact .inl (.inside trivial (List.mem_append_left mid hmem) (.inl (hinner _ hmem)))

theorem fault_of_tooDeep (h : tooDeep.run ts = .error e rest) : Fault ts e := by
  obtain ⟨-, rfl⟩ := failHere_eq_error h
  exact .tooDeep _

theorem inStep_zero : InStep 0 where
  piece := fun _ _ h => fault_of_tooDeep h
  output := fun _ _ h => fault_of_tooDeep h
  statement := fun _ _ h => fault_of_tooDeep h
  branches := fun _ h => .inl (fault_of_tooDeep h)
  loop := fun _ h => .inl (fault_of_tooDeep h)

/-- One more level of nesting: what holds within a statement holds of it. -/
theorem inStep_succ (hi : InStep d) : InStep (d + 1) where
  piece := piece_inStep hi
  output := output_inStep
  statement := statement_inStep hi
  branches := branches_inStep hi
  loop := loop_inStep hi

/-- **The rules for pieces stay in step with the tags**, at every depth. -/
theorem rules_inStep : ∀ d, InStep d
  | 0 => inStep_zero
  | d + 1 => inStep_succ (rules_inStep d)

/-! ### Whole templates -/

/-- Texts and whole tags are parsed, or one of their faults is found. -/
theorem fault_of_parse (htag : Tagged none ts) (hend : ∀ t ∈ ts, t.kind ≠ .endOfInput)
    (h : parse ts = .error e) : Fault ts e := by
  unfold parse program at h
  rw [dropEnd_eq_self hend] at h
  split at h
  · cases h
  · rename_i rest hrun
    cases h
    rw [bind_pure_eq_error, all, bind_of_ok (remaining_run ts)] at hrun
    exact fault_of_allFor (rules_sound depthLimit).piece (rules_inStep depthLimit).piece _ htag hrun

/-- **The parser stays in step with the tags of a text.**  Where the tokens of a text cannot be
parsed, and not because of the nesting, a piece was looked for only where one begins.  The error is
at the end of the tokens if the end of a block is missing, and only then; the block is open there,
and lacks nothing but its end.  Any other error is at a token of the text, inside a tag. -/
theorem stays_in_step {source : String} {ts : List Token} {cause : Cause} {token : Option Token}
    (htokens : tokenize source = .ok ts) (h : parse ts = .error (.malformed ⟨cause, token⟩))
    (hdeep : cause ≠ .nestingTooDeep) :
    cause ≠ .unexpectedToken "" ∧
    (token = some .endOfInput ↔ ∃ b : Block, cause = .expectedToken b.ending) ∧
    (∀ b : Block, cause = .expectedToken b.ending → Unended ts b) ∧
    (token ≠ some .endOfInput → ∃ t, token = some t ∧ InsideTag ts t ∧ 1 ≤ t.line) := by
  have hend := kind_ne_of_tokenize htokens
  have htag := tagged_of_tokenize htokens
  cases fault_of_parse htag hend h with
  | tooDeep => exact absurd rfl hdeep
  | @inside _ t hcause hmem ht =>
    have hne : some t ≠ some .endOfInput := by
      rintro ⟨⟩
      exact hend _ hmem rfl
    have hblock (b : Block) : cause ≠ .expectedToken b.ending := by
      rintro rfl
      cases b
      -- a missing end tag is no failure inside a tag
      · exact hcause.1 rfl
      · exact hcause.2 rfl
    refine ⟨?_, iff_of_false hne fun ⟨b, hb⟩ => hblock b hb, fun b hb => absurd hb (hblock b),
      fun _ => ⟨t, rfl, htag.insideTag hmem ht, line_of_tokenize htokens hmem⟩⟩
    rintro rfl
    exact hcause rfl
  | @unended b hblock =>
    refine ⟨nofun, iff_of_true rfl ⟨b, rfl⟩, fun b' hb => ?_, fun hne => absurd rfl hne⟩
    obtain rfl : b = b' := Block.ending_inj (Cause.expectedToken.inj hb)
    exact hblock

/-- The tokens of `{% for x in y %}{% if x %}a`. -/
def sampleUnended : List Token :=
  [⟨.openStatement, "\x7b%", 1, 1⟩, ⟨.kwFor, "for", 1, 4⟩, ⟨.identifier, "x", 1, 8⟩,
    ⟨.kwIn, "in", 1, 10⟩, ⟨.identifier, "y", 1, 13⟩, ⟨.closeStatement, "%\x7d", 1, 15⟩,
    ⟨.openStatement, "\x7b%", 1, 17⟩, ⟨.kwIf, "if", 1, 20⟩, ⟨.identifier, "x", 1, 23⟩,
    ⟨.closeStatement, "%\x7d", 1, 25⟩, ⟨.text, "a", 1, 27⟩]

/-- In `{% for x in y %}{% if x %}a` the tokens run out in the inner block. -/
theorem stays_in_step_sample :
    tokenize "\x7b% for x in y %\x7d\x7b% if x %\x7da" = .ok sampleUnended ∧
    parse sampleUnended =
      .error (.malformed ⟨.expectedToken .kwEndif, some .endOfInput⟩) ∧
    Unended sampleUnended .conditional := by
  have htokens : tokenize "\x7b% for x in y %\x7d\x7b% if x %\x7da" = .ok sampleUnended := by
    decide +kernel
  have hparse : parse sampleUnended =
      .error (.malformed ⟨.expectedToken .kwEndif, some .endOfInput⟩) := rfl
  have hblock := (stays_in_step htokens hparse nofun).2.2.1 .conditional rfl
  exact ⟨htokens, hparse, hblock⟩

end Stencil.Grammar
