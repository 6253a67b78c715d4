import Stencil.Proofs.Grammar.Adjacency
import Stencil.Proofs.Lexer.Cutting
import Stencil.Template

/-!
# Template — the readings of a text

In two places the lexer chooses between two readings of a text.  A minus sign before a digit belongs
to the number or stands apart, and `not in` is one token or two.  `Reading` leaves the choice open,
in each place on its own: what the lexer makes of a text is one of its readings
(`reading_of_drain`).

The grammar would choose alike.  In what the parser accepts, the token before a number awaits an
operand and the one before a minus sign does not, and no `in` stands behind a `not`; so of all the
readings of a text it accepts at most the one that the lexer takes (`choices_agree`).

The proof keeps pace with the lexer: as long as a reading takes the tokens of the lexer, the kind
that the lexer remembers is the kind of the token before (`lastKind_of_reads`).
-/

namespace Stencil.Lexer

variable {lexer lexer' : Lexer} {token : Token} {tag : Tag} {ts : List Token}

/-! ### Readings -/

/-- A minus sign and a digit come next, inside a tag. -/
def AtSign (lexer : Lexer) : Prop :=
  lexer.openTag.isSome = true ∧
    ∃ c cs, lexer.atToken.cursor.rest = '-' :: c :: cs ∧ Text.isDigit c = true

/-- The words `not` and `in` come next, inside a tag; `after` is what follows the first. -/
def AtNotIn (lexer : Lexer) (after : List Char) : Prop :=
  lexer.openTag.isSome = true ∧
    lexer.atToken.cursor.rest.takeWhile Text.isWord = ['n', 'o', 't'] ∧
    lexer.atToken.cursor.rest.dropWhile Text.isWord = after ∧
    (Lexeme.memberWord? after).isSome = true

/-- Takes the word `not` as a token of its own. -/
def readNot (start : Place) : Lexing Token := do
  pass ['n', 'o', 't']
  emit .kwNot ['n', 'o', 't'] start.line start.column

/-- A token that may be read next: the one that the lexer takes, or that of the other choice. -/
inductive Reads (lexer : Lexer) (token : Token) (lexer' : Lexer) : Prop
  | lexed : next.run lexer = .ok token lexer' → token.kind ≠ .endOfInput → Reads lexer token lexer'
  | folded : AtSign lexer →
      (readSigned lexer.atToken.cursor.place).run lexer.atToken = .ok token lexer' →
      Reads lexer token lexer'
  | apart : AtSign lexer →
      (readOperator '-' lexer.atToken.cursor.place).run lexer.atToken = .ok token lexer' →
      Reads lexer token lexer'
  | alone {after : List Char} : AtNotIn lexer after →
      (readNot lexer.atToken.cursor.place).run lexer.atToken = .ok token lexer' →
      Reads lexer token lexer'

/-- Tokens as which the rest of a text may be read, to its end. -/
inductive Reading : Lexer → List Token → Prop
  | nil {lexer lexer' : Lexer} {token : Token} : next.run lexer = .ok token lexer' →
      token.kind = .endOfInput → Reading lexer []
  | cons {lexer lexer' : Lexer} {token : Token} {ts : List Token} : Reads lexer token lexer' →
      Reading lexer' ts → Reading lexer (token :: ts)

/-! ### The kind that the lexer remembers -/

/-- The operation makes a token and remembers its kind. -/
def Emits (p : Lexing Token) : Prop :=
  ∀ ⦃lexer lexer' : Lexer⦄ ⦃token : Token⦄, p.run lexer = .ok token lexer' →
    lexer'.lastKind = some token.kind

theorem emits_emit (kind : Token.Kind) (value : List Char) (line column : Int) :
    Emits (emit kind value line column) := by
  intro lexer lexer' token h
  cases h
  rfl

/-- The last operation of a sequence is the one whose kind is remembered. -/
theorem Emits.bind {α : Type} {p : Lexing α} {f : α → Lexing Token} (h : ∀ a, Emits (f a)) :
    Emits (p >>= f) := by
  intro lexer lexer' token hrun
  obtain ⟨a, mid, -, hrun⟩ := bind_eq_ok.mp hrun
  exact h a hrun

theorem emits_throw (e : Error) : Emits (throw e) := by
  intro lexer lexer' token h
  cases h

theorem emits_readNumber (line column : Int) (taken : List Char) :
    Emits (readNumber line column taken) := .bind fun _ => .bind fun _ => emits_emit _ _ _ _

theorem emits_readSigned (start : Place) : Emits (readSigned start) :=
  .bind fun _ => emits_readNumber _ _ _

theorem emits_readWord (line column : Int) : Emits (readWord line column) := by
  refine .bind fun cs => .bind fun _ => ?_
  split
  · exact .bind fun _ => emits_emit _ _ _ _
  · exact emits_emit _ _ _ _

theorem emits_readString (line column : Int) : Emits (readString line column) := by
  refine .bind fun quote => .bind fun cs => ?_
  split
  · exact .bind fun _ => emits_emit _ _ _ _
  · exact .bind fun _ => emits_throw _

/-- An operator is remembered as the operation that matches it has put it down. -/
theorem emits_readOperator (c : Char) (start : Place) : Emits (readOperator c start) := by
  intro lexer lexer' token h
  obtain ⟨found, mid, hmatch, h⟩ := bind_eq_ok.mp h
  rw [matchOperator_run] at hmatch
  split at hmatch
  · cases hmatch
    cases h
    rfl
  · cases hmatch
    cases h

/-- Whatever branch reads the next token inside a tag, its kind is remembered. -/
theorem emits_nextInside (tag : Tag) : Emits (nextInside tag) := by
  refine .bind fun _ => .bind fun lexer => ?_
  split
  · exact emits_throw _
  split
  · exact .bind fun _ => .bind fun _ => emits_emit _ _ _ _
  split_ifs
  · exact emits_readWord _ _
  · exact emits_readNumber _ _ _
  · exact emits_readSigned _
  · exact emits_readString _ _
  · exact emits_readOperator _ _

theorem lastKind_of_nextOutside (h : nextOutside.run lexer = .ok token lexer')
    (hend : token.kind ≠ .endOfInput) : lexer'.lastKind = some token.kind := by
  obtain ⟨cs, mid, -, h⟩ := bind_eq_ok.mp h
  obtain ⟨_, mid', -, h⟩ := bind_eq_ok.mp h
  rw [bind_of_ok (place_run _), bind_of_ok (remaining_run _)] at h
  have enters (tag : Tag) (start : Place) : Emits (enter tag start) :=
    .bind fun _ => .bind fun _ => emits_emit _ _ _ _
  split at h
  · cases h
    exact absurd rfl hend
  · exact enters _ _ h
  · exact enters _ _ h
  · have hreads : Emits readText :=
      .bind fun _ => .bind fun _ => .bind fun _ => emits_emit _ _ _ _
    exact hreads h

/-- After every token but the end, its kind is remembered. -/
theorem lastKind_of_next (h : next.run lexer = .ok token lexer') (hend : token.kind ≠ .endOfInput) :
    lexer'.lastKind = some token.kind := by
  rw [next, bind_of_ok (get_run _)] at h
  split at h
  · exact lastKind_of_nextOutside h hend
  · exact emits_nextInside _ h

theorem lastKind_of_reads (h : Reads lexer token lexer') : lexer'.lastKind = some token.kind := by
  cases h with
  | lexed h hend => exact lastKind_of_next h hend
  | folded _ h => exact emits_readSigned _ h
  | apart _ h => exact emits_readOperator _ _ h
  | alone _ h => exact (show Emits (readNot _) from .bind fun _ => emits_emit _ _ _ _) h

/-! ### The choices of the lexer -/

/-- At a minus sign and a digit the lexer chooses by the token before. -/
theorem AtSign.next_run (h : AtSign lexer) : next.run lexer =
    (if lexer.lastKind.any Token.Kind.awaitsOperand then readSigned lexer.atToken.cursor.place
      else readOperator '-' lexer.atToken.cursor.place).run lexer.atToken := by
  obtain ⟨htag, c, cs, hrest, hc⟩ := h
  obtain ⟨tag, htag⟩ := Option.isSome_iff_exists.mp htag
  have hword : Text.startsWord '-' = false := by decide +kernel
  have hdigit : Text.isDigit '-' = false := by decide +kernel
  rw [Lexer.next_run htag hrest rfl]
  simp [hword, hdigit, startsNegative, hc]

/-- The operator at a minus sign and a digit is the minus sign. -/
theorem AtSign.kind_of_apart (h : AtSign lexer)
    (hrun : (readOperator '-' lexer.atToken.cursor.place).run lexer.atToken = .ok token lexer') :
    token.kind = .additive := by
  obtain ⟨-, c, cs, hrest, -⟩ := h
  have hoperator : Lexeme.operator? ('-' :: c :: cs) = some (.additive, ['-'], c :: cs) := by
    simp [Lexeme.operator?, Vocabulary.operators, List.lookup_cons]
  obtain ⟨found, mid, hmatch, hrun⟩ := bind_eq_ok.mp hrun
  rw [matchOperator_run, hrest, hoperator] at hmatch
  cases hmatch
  cases hrun
  rfl

/-- A minus sign and digits are read as a number. -/
theorem kind_of_readSigned {start : Place} (h : (readSigned start).run lexer = .ok token lexer') :
    token.kind = .number := by
  obtain ⟨c, mid, -, h⟩ := bind_eq_ok.mp h
  rw [readNumber_run] at h
  cases h
  rfl

/-- Behind the word `not` alone the lexer is in front of the word `in`. -/
theorem AtNotIn.behind {after : List Char} (h : AtNotIn lexer after)
    (hrun : (readNot lexer.atToken.cursor.place).run lexer.atToken = .ok token lexer') :
    token.kind = .kwNot ∧ lexer'.openTag.isSome = true ∧ ∃ cs,
      lexer'.atToken.cursor.rest = 'i' :: 'n' :: cs ∧ cs.head?.any Text.isWord = false := by
  obtain ⟨htag, hnot, hafter, hmember⟩ := h
  have hsplit := List.takeWhile_append_dropWhile (p := Text.isWord)
    (l := lexer.atToken.cursor.rest)
  rw [hnot, hafter] at hsplit
  rw [readNot, take_run hsplit.symm] at hrun
  cases hrun
  refine ⟨rfl, htag, ?_⟩
  show ∃ cs, after.dropWhile Text.isSpacing = 'i' :: 'n' :: cs ∧ _
  unfold Lexeme.memberWord? at hmember
  split at hmember
  · rename_i cs hcs
    split at hmember
    · cases hmember
    · rename_i hword
      exact ⟨cs, hcs, Bool.eq_false_iff.mpr hword⟩
  · cases hmember

/-- The lexer takes the word `in`, where it comes next. -/
theorem next_of_in {cs : List Char} (htag : lexer.openTag.isSome = true)
    (hrest : lexer.atToken.cursor.rest = 'i' :: 'n' :: cs)
    (hcs : cs.head?.any Text.isWord = false) (h : next.run lexer = .ok token lexer') :
    token.kind = .kwIn := by
  obtain ⟨tag, htag⟩ := Option.isSome_iff_exists.mp htag
  have hstarts : Text.startsWord 'i' = true := by decide +kernel
  rw [next_run htag hrest rfl] at h
  dsimp only at h
  rw [if_pos hstarts, readWord, bind_of_ok (remaining_run _), hrest, takeWhile_in hcs] at h
  dsimp only at h
  have hin : lexer.atToken.cursor.rest = ['i', 'n'] ++ cs := hrest
  rw [bind_of_ok (pass_run hin)] at h
  cases h
  rfl

/-- In every reading the word `in` is a token of its own, where it comes next. -/
theorem Reads.of_in {cs : List Char} (htag : lexer.openTag.isSome = true)
    (hrest : lexer.atToken.cursor.rest = 'i' :: 'n' :: cs)
    (hcs : cs.head?.any Text.isWord = false) (h : Reads lexer token lexer') :
    token.kind = .kwIn := by
  cases h with
  | lexed h => exact next_of_in htag hrest hcs h
  | folded h | apart h =>
    obtain ⟨-, c, cs', hrest', -⟩ := h
    cases hrest.symm.trans hrest'
  | alone h =>
    obtain ⟨-, hword, -⟩ := h
    rw [hrest, List.takeWhile_cons] at hword
    split at hword <;> cases hword

/-- Where the grammar allows the token that is read, it is the one that the lexer takes, unless it
is a `not` with the word `in` behind it. -/
theorem Reads.next_or_not (h : Reads lexer token lexer')
    (hf : Grammar.Follows lexer.lastKind token.kind) :
    next.run lexer = .ok token lexer' ∧ token.kind ≠ .endOfInput ∨
      token.kind = .kwNot ∧ (∀ t l, next.run lexer' = .ok t l → t.kind = .kwIn) ∧
        ∀ t l, Reads lexer' t l → t.kind = .kwIn := by
  cases h with
  | lexed h hend => exact .inl ⟨h, hend⟩
  | folded h hrun =>
    have hkind := kind_of_readSigned hrun
    refine .inl ⟨?_, by rw [hkind]; nofun⟩
    rw [h.next_run, if_pos (hf.number hkind), hrun]
  | apart h hrun =>
    have hkind := h.kind_of_apart hrun
    have hawaits : ¬ lexer.lastKind.any Token.Kind.awaitsOperand = true := by
      have hadditive := hf.additive hkind
      cases hlast : lexer.lastKind with
      | none => simp
      | some kind => simpa [hlast] using hadditive
    refine .inl ⟨?_, by rw [hkind]; nofun⟩
    rw [h.next_run, if_neg hawaits, hrun]
  | alone h hrun =>
    obtain ⟨hkind, htag, cs, hrest, hcs⟩ := h.behind hrun
    exact .inr ⟨hkind, fun _ _ => next_of_in htag hrest hcs,
      fun _ _ => Reads.of_in htag hrest hcs⟩

/-! ### Whole texts -/

/-- What the lexer makes of the rest of a text is a reading of it. -/
theorem reading_of_drain (rounds : Nat) : ∀ {lexer lexer' : Lexer} {ts : List Token},
    lexer.cursor.rest.length < rounds → (drain rounds).run lexer = .ok ts lexer' →
    Reading lexer ts := by
  induction rounds with
  | zero => exact fun h => absurd h (Nat.not_lt_zero _)
  | succ rounds ih =>
    intro lexer lexer' ts hrounds h
    obtain ⟨token, mid, hnext, h⟩ := bind_eq_ok.mp h
    by_cases hend : token.kind = .endOfInput
    · rw [if_pos hend] at h
      cases h
      exact .nil hnext hend
    · rw [if_neg hend] at h
      obtain ⟨more, mid', hmore, h⟩ := bind_eq_ok.mp h
      cases h
      rcases answers_next hnext with hpasses | ⟨hkind, -⟩
      · have hshorter := hpasses.length_lt (List.cons_ne_nil _ _)
        exact .cons (.lexed hnext hend) (ih (by omega) hmore)
      · exact absurd hkind hend

/-- **Where the grammar allows the tokens of a reading, they are those of the lexer.** -/
theorem Reading.drain (h : Reading lexer ts) (hlinked : Grammar.Linked lexer.lastKind ts) :
    ∀ {rounds : Nat}, lexer.cursor.rest.length < rounds →
      ∃ lexer', (drain rounds).run lexer = .ok ts lexer' := by
  induction h with
  | nil hnext hend =>
    intro rounds hrounds
    obtain ⟨rounds, rfl⟩ := Nat.exists_eq_succ_of_ne_zero (Nat.ne_zero_of_lt hrounds)
    exact ⟨_, by rw [Lexer.drain, bind_of_ok hnext, if_pos hend, pure_run]⟩
  | @cons lexer mid token ts hreads hmore ih =>
    intro rounds hrounds
    obtain ⟨rounds, rfl⟩ := Nat.exists_eq_succ_of_ne_zero (Nat.ne_zero_of_lt hrounds)
    obtain ⟨hf, hlinked⟩ := Grammar.linked_cons.mp hlinked
    obtain ⟨hnext, hend⟩ | ⟨hkind, hin, hin'⟩ := hreads.next_or_not hf
    · rcases answers_next hnext with hpasses | ⟨hkind, -⟩
      · have hshorter := hpasses.length_lt (List.cons_ne_nil _ _)
        have henough : mid.cursor.rest.length < rounds := by omega
        obtain ⟨last, hlast⟩ := ih (lastKind_of_reads hreads ▸ hlinked) henough
        exact ⟨last, by rw [Lexer.drain, bind_of_ok hnext, if_neg hend, bind_of_ok hlast, pure_run]⟩
      · exact absurd hkind hend
    · -- the grammar knows no `in` behind a `not`
      cases hmore with
      | nil hnext hend =>
        rw [hin _ _ hnext] at hend
        cases hend
      | cons hreads' _ =>
        have hf' := (Grammar.linked_cons.mp hlinked).1
        exact absurd (congrArg some hkind) (hf'.kwIn (hin' _ _ hreads'))

end Stencil.Lexer

namespace Stencil.Template
open Lexer

/-- **The choices of the lexer agree with the grammar.**  In what is parsed, a number stands behind
a token that awaits an operand, an additive operator behind one that does not, and no `in` behind a
`not`.  So what the lexer makes of a text is the only one of its readings that can be parsed. -/
theorem choices_agree :
    (∀ {ts before after : List Token} {t : Token} {n : Node}, parse ts = .ok n →
      ts = before ++ t :: after →
        (t.kind = .number → ∃ p ∈ before.getLast?, p.kind.awaitsOperand = true) ∧
        (t.kind = .additive → ∃ p ∈ before.getLast?, p.kind.awaitsOperand = false) ∧
        (t.kind = .kwIn → ∀ p ∈ before.getLast?, p.kind ≠ .kwNot)) ∧
    ∀ {source : String} {ts : List Token},
      (tokenize source = .ok ts → Reading (ofText source) ts) ∧
      ∀ {n : Node}, Reading (ofText source) ts → parse ts = .ok n → tokenize source = .ok ts := by
  refine ⟨fun {ts before after t n} h hts => ?_, fun {source ts} => ⟨fun h => ?_, fun hr h => ?_⟩⟩
  · have hlinked := Grammar.linked_of_parse h
    rw [hts, Grammar.linked_append, Grammar.linked_cons, Grammar.kindBehind_none] at hlinked
    obtain ⟨-, ⟨hnumber, hadditive, hin⟩, -⟩ := hlinked
    cases hlast : before.getLast? with
    | none => simp_all
    | some p => simp_all
  · obtain ⟨lexer', hrun⟩ := tokenize_eq_ok.mp h
    exact reading_of_drain _ (Nat.lt_succ_self _) hrun
  · exact tokenize_eq_ok.mpr (hr.drain (Grammar.linked_of_parse h) (Nat.lt_succ_self _))

/-- The tokens of `{{ 1 -2 }}`. -/
def sampleDifference : List Token :=
  [⟨.openExpression, "\x7b\x7b", 1, 1⟩, ⟨.number, "1", 1, 4⟩, ⟨.additive, "-", 1, 6⟩,
    ⟨.number, "2", 1, 7⟩, ⟨.closeExpression, "\x7d\x7d", 1, 9⟩]

/-- In `{{ 1 -2 }}` the minus sign stands apart, since a number stands before it. -/
theorem choices_agree_sample :
    parse sampleDifference =
      .ok (.program [.binary "-" (.number (.integer 1)) (.number (.integer 2))]) ∧
    Reading (ofText "\x7b\x7b 1 -2 \x7d\x7d") sampleDifference ∧
    (∃ p ∈ (sampleDifference.take 2).getLast?, p.kind.awaitsOperand = false) ∧
    tokenize "\x7b\x7b 1 -2 \x7d\x7d" = .ok sampleDifference := by
  have hparse : parse sampleDifference =
      .ok (.program [.binary "-" (.number (.integer 1)) (.number (.integer 2))]) := rfl
  have htokens : tokenize "\x7b\x7b 1 -2 \x7d\x7d" = .ok sampleDifference := by decide +kernel
  have hreading := choices_agree.2.1 htokens
  exact ⟨hparse, hreading, (choices_agree.1 hparse rfl).2.1 rfl, choices_agree.2.2 hreading hparse⟩

end Stencil.Template
