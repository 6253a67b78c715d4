import Stencil.Proofs.Grammar.ListSpot
import Stencil.Proofs.Grammar.Steady

/-!
# Grammar — the lists of a template

At a bracket that begins a list, and at a comma, the parser is at work on that list.  Behind the
tokens before it, at every depth, it goes on with the items of a list, or it has found the nesting
too deep before that (`Derives.lists`).  What it does with the whole afterwards depends on the items
alone, and not on the tokens that they were read from; so these may be others.

The proof goes along the derivation, down to the part that the token stands in.  The parts before it
are read as at any depth (`Derives.steady`), and that part is read by its own rule.
-/

namespace Stencil.Grammar
open Stencil.Parser

variable {before : Option Token.Kind} {kind : Token.Kind} {o t : Token}
  {ts us pre rest : List Token} {n : Node} {d : Nat}

/-! ### Work on a list -/

/-- Work on a list, at the token `t`.  Either that is its opening bracket, or it is a comma behind
an item, for which there was depth enough.  What is done with the items comes afterwards. -/
inductive Listing (t : Token) {α : Type} : Parser α → Prop
  | opening {i : Item} {d : Nat} {f : List i.Tree → Parser α} : t.kind = i.opening →
      Listing t (advance >>= fun _ => delimited i.closing (i.parser d) >>= f)
  | comma {i : Item} {d : Nat} {x : i.Tree} {f : List i.Tree → Parser α}
      {used left : List Token} : t.kind = .comma → (i.parser d).run used = .ok x left →
      Listing t (behindItem i.closing (i.parser d) x >>= f)

variable {α β : Type} {p : Parser α} {f : α → Parser β}

/-- Work on a list is work on a list whatever is done with the result. -/
theorem Listing.bind (h : Listing t p) : Listing t (p >>= f) := by
  cases h with
  | opening ht =>
    simp only [bind_assoc]
    exact .opening ht
  | comma ht hx =>
    rw [bind_assoc]
    exact .comma ht hx

/-- Behind the tokens, and wherever `t` is in place, the parser is at work on a list, or it has
found the nesting too deep. -/
abbrev Lists (t : Token) (p : Parser α) (pre : List Token) : Prop :=
  Reaches (InPlace t) (Listing t) p pre

theorem Lists.bind (h : Lists t p pre) : Lists t (p >>= f) pre :=
  Reaches.bind h fun _ hq => hq.bind

/-- The parser of each rule is at work on a list, at every depth. -/
abbrev Rule.Lists (t : Token) : Rule → List Token → Prop
  | .level l, pre => ∀ d, Grammar.Lists t (l.parser d) pre
  | .applied names, pre => ∀ d cause,
      Grammar.Lists t (nameOf names cause >>= Parser.applied (d + 2)) pre
  | .index, pre => ∀ d, Grammar.Lists t (Parser.index d) pre
  | .part, pre | .slice, pre => ∀ d, Grammar.Lists t (subscriptParts (Parser.expression d)) pre
  | .item i, pre => ∀ d, Grammar.Lists t (i.parser d) pre
  | .items i, pre => ∀ d, Grammar.Lists t (delimited i.closing (i.parser d)) pre
  | .enclosed i, pre => ∀ d,
      Grammar.Lists t (advance >>= fun _ => delimited i.closing (i.parser d)) pre
  | .assignment, pre => ∀ d, Grammar.Lists t (Parser.assignment d) pre
  | .branches, pre => ∀ d, Grammar.Lists t (Parser.branches d) pre
  | .piece, pre => ∀ d, Grammar.Lists t (Parser.piece d) pre
  | .body, pre => ∀ d, Grammar.Lists t (all (Parser.piece d)) pre ∧
      ∀ ends missing, ends ⊆ blockEnds →
        Grammar.Lists t (pieces ends missing (Parser.piece d)) pre

/-- The rules that begin where an operand may begin. -/
def Rule.Awaits : Rule → Prop
  | .applied _ | .enclosed _ | .piece | .body => False
  | _ => True

/-! ### Levels and steps -/

variable {l m : Level} {i : Item}

/-- No expression begins with a comma. -/
theorem ne_comma_of_begins (h : l.begins kind = true) : kind ≠ .comma := by
  rintro rfl
  cases l <;> cases h

/-- A level hands its first tokens to the next tighter one, with no prefix of its own before them.
-/
theorem lists_tighter (hm : l.tighter? = some m) (hbegins : m.begins (front ts).kind = true)
    (hat : ListSpot before ts pre t) (h : ∀ d, Lists t (m.parser d) pre) :
    ∀ d, Lists t (l.parser d) pre
  | 0 => .of_tooDeep (Level.tooDeep_of_le (Nat.zero_le _))
  | d + 1 => by
    by_cases hl : l.repeats = true
    · rw [Level.parser_succ hl hm]
      exact (h d).bind.congr fun rest _ => extend_run _ _ _
    cases l with
    | expression =>
      cases hm
      show Lists t (Parser.expression (d + 1)) pre
      rw [Parser.expression]
      exact (h d).bind
    | negation =>
      cases hm
      show Lists t (Parser.negation (d + 1)) pre
      refine (h d).congr fun rest hrest => ?_
      have hnot : (front (pre ++ rest)).kind ≠ .kwNot := fun he => by
        rw [hat.kind_front hrest] at he
        rw [he, Level.begins_kwNot (by decide)] at hbegins
        cases hbegins
      rw [Parser.negation, bind_of_ok (current_run _), if_neg hnot]
      rfl
    | primary => cases hm
    | _ => exact absurd rfl hl

/-- An expected token that is known to be at hand is taken without a test. -/
theorem expect_of_front (hkind : kind ≠ .endOfInput) (h : (front ts).kind = kind) :
    (expect kind).run ts = advance.run ts := by
  obtain ⟨o, ts, rfl, -⟩ := eq_cons_of_front (h ▸ hkind)
  exact expect_cons h ts

/-- The parenthesis of a list of arguments opens a list. -/
theorem lists_arguments (hopens : (front ts).kind = .leftParen) (hat : ListSpot before ts pre t)
    (h : (Rule.enclosed .argument).Lists t pre) : ∀ d, Lists t (Parser.arguments d) pre
  | 0 => .of_tooDeep fun ts => tooDeep_bind (tooDeep_run ts)
  | d + 1 => by
    rw [Parser.arguments]
    refine (h d).congr fun rest hrest => bind_congr_run ?_ fun _ _ _ => rfl
    exact expect_of_front (by decide) ((hat.kind_front hrest).trans hopens)

/-- A primary that is a list is at work on it from its bracket on. -/
theorem lists_primary {f : List i.Tree → Parser Node} (hbegins : (front ts).kind = i.opening)
    (hat : ListSpot before ts pre t) (hprimary : ∀ d o rest, o.kind = i.opening →
      (Parser.primary (d + 1)).run (o :: rest) =
        (delimited i.closing (i.parser d) >>= f).run rest)
    (h : (Rule.enclosed i).Lists t pre) : ∀ d, Lists t (Parser.primary d) pre
  | 0 => .of_tooDeep tooDeep_run
  | d + 1 => by
    refine ((h d).bind (f := f)).congr fun rest hrest => ?_
    have hkind := (hat.kind_front hrest).trans hbegins
    obtain ⟨o, left, hleft, -⟩ := eq_cons_of_front (by rw [hkind]; cases i <;> decide)
    rw [hleft] at hkind ⊢
    rw [hprimary d o left hkind, bind_assoc_run, bind_of_ok (advance_cons o left)]

/-- A list within parentheses. -/
theorem lists_parenthesis (ho : o.kind = .leftParen) (h : ∀ d, Lists t (Parser.expression d) pre) :
    ∀ d, Lists t (Parser.primary d) (o :: pre)
  | 0 => .of_tooDeep tooDeep_run
  | d + 1 => by
    refine Reaches.congr ?_ fun rest _ => primary_cons (by rw [ho]; rfl) d (pre ++ rest)
    rw [primaryBehind, ho]
    exact (h d).bind

/-- A list in the right operand of a level, behind the operand and the operator that have been read.
-/
theorem lists_operand {a : Node} (hm : l.tighter? = some m) (ha : Steady (.level l) ts a)
    (ho : l.joins o.kind = true) (h : ∀ d, Lists t (m.parser d) pre) :
    ∀ d, Lists t (l.parser d) (ts ++ o :: pre)
  | 0 => .of_tooDeep (Level.tooDeep_of_le (Nat.zero_le _))
  | d + 1 => by
    refine (ha d).trans ?_ fun _ _ => stops_of_joins ho _
    refine Reaches.congr ?_ fun rest _ => again_operator hm ho d a (pre ++ rest)
    exact (h d).bind

theorem lists_not (ho : o.kind = .kwNot) (h : ∀ d, Lists t (Parser.negation d) pre) :
    ∀ d, Lists t (Parser.negation d) (o :: pre)
  | 0 => .of_tooDeep tooDeep_run
  | d + 1 => by
    rw [Parser.negation]
    refine .current ?_
    rw [if_pos ho]
    exact .take (h d).bind

theorem lists_value (h : ∀ d, Lists t (Parser.disjunction d) pre) :
    ∀ d, Lists t (Parser.expression d) pre
  | 0 => .of_tooDeep tooDeep_run
  | d + 1 => by
    rw [Parser.expression]
    exact (h d).bind

/-- A list in the condition, behind the value and its `if`. -/
theorem lists_condition (hn : Steady (.level .disjunction) ts n) (ho : o.kind = .kwIf)
    (h : ∀ d, Lists t (Parser.disjunction d) pre) :
    ∀ d, Lists t (Parser.expression d) (ts ++ o :: pre)
  | 0 => .of_tooDeep tooDeep_run
  | d + 1 => by
    rw [Parser.expression]
    refine .after (hn.disjunction d) (.current ?_) fun _ _ => stops_cons ho (by decide) _
    rw [if_pos ho]
    exact .take (h d).bind

/-- A list in the alternative, behind the value, the condition and their keywords. -/
theorem lists_alternative {e : Token} {test : Node} (hn : Steady (.level .disjunction) ts n)
    (ho : o.kind = .kwIf) (htest : Steady (.level .disjunction) us test) (he : e.kind = .kwElse)
    (h : ∀ d, Lists t (Parser.disjunction d) pre) :
    ∀ d, Lists t (Parser.expression d) (ts ++ o :: (us ++ e :: pre))
  | 0 => .of_tooDeep tooDeep_run
  | d + 1 => by
    rw [Parser.expression]
    refine .after (hn.disjunction d) (.current ?_) fun _ _ => stops_cons ho (by decide) _
    rw [if_pos ho]
    exact .take (.after (htest.disjunction d) (.expect he (h d).bind) fun _ _ =>
      stops_cons he (by decide) _)

/-- A list in the arguments of a test. -/
theorem lists_test (hn : Steady (.level .tested) ts n) (ho : o.kind = .kwIs)
    (hbegins : (Rule.applied [.identifier, .boolean]).Begins us) (hat : ListSpot before us pre t)
    (h : (Rule.applied [.identifier, .boolean]).Lists t pre) :
    (Rule.level .tested).Lists t (ts ++ o :: pre)
  | 0 | 1 | 2 => .of_tooDeep (Level.tooDeep_of_le (by decide))
  | d + 3 => by
    refine (hn _).trans ?_ fun _ _ => stops_cons ho (by decide) _
    have hnot {rest : List Token} (hrest : InPlace t rest) : (front (pre ++ rest)).kind ≠ .kwNot :=
      fun he => by
        have hkind := hbegins.2
        rw [← hat.kind_front hrest, he] at hkind
        exact absurd hkind (by decide)
    exact (h d _).bind.congr fun rest hrest => again_test ho (hnot hrest)

/-- A list in the arguments of a negated test. -/
theorem lists_testNot {w : Token} (hn : Steady (.level .tested) ts n) (ho : o.kind = .kwIs)
    (hw : w.kind = .kwNot) (h : (Rule.applied [.identifier, .boolean]).Lists t pre) :
    (Rule.level .tested).Lists t (ts ++ o :: w :: pre)
  | 0 | 1 | 2 => .of_tooDeep (Level.tooDeep_of_le (by decide))
  | d + 3 => by
    refine (hn _).trans ?_ fun _ _ => stops_cons ho (by decide) _
    exact (h d _).bind.congr fun rest _ => again_testNot ho hw

/-- A list in the arguments of a filter. -/
theorem lists_filter (hn : Steady (.level .filtered) ts n) (ho : o.kind = .pipe)
    (h : (Rule.applied [.identifier]).Lists t pre) :
    (Rule.level .filtered).Lists t (ts ++ o :: pre)
  | 0 | 1 | 2 => .of_tooDeep (Level.tooDeep_of_le (by decide))
  | d + 3 => by
    refine (hn _).trans ?_ fun _ _ => stops_cons ho (by decide) _
    exact (h d _).bind.congr fun rest _ => again_filter ho

/-- A list in an index, behind the object and its bracket. -/
theorem lists_subscript (hn : Steady (.level .chained) ts n) (ho : o.kind = .leftBracket)
    (h : ∀ d, Lists t (Parser.index d) pre) : (Rule.level .chained).Lists t (ts ++ o :: pre)
  | 0 | 1 => .of_tooDeep (Level.tooDeep_of_le (by decide))
  | d + 2 => by
    refine (hn _).trans ?_ fun _ _ => stops_cons ho (by decide) _
    exact (h d).bind.congr fun rest _ => again_subscript ho

/-- A list in arguments, behind what is called. -/
theorem lists_call (hn : Steady (.level .chained) ts n) (hopens : (front us).kind = .leftParen)
    (hat : ListSpot before us pre t) (h : (Rule.enclosed .argument).Lists t pre) :
    (Rule.level .chained).Lists t (ts ++ pre)
  | 0 | 1 => .of_tooDeep (Level.tooDeep_of_le (by decide))
  | d + 2 => by
    have hparen {rest : List Token} (hrest : InPlace t rest) :
        (front (pre ++ rest)).kind = .leftParen := (hat.kind_front hrest).trans hopens
    refine (hn _).trans ?_ fun rest hrest => ?_
    · refine Reaches.congr ?_ fun rest hrest => again_chain_call (hparen hrest)
      exact (lists_arguments hopens hat h d).bind
    · rw [Stops, hparen hrest]
      decide

/-- A list in the arguments of a name, which is read at once. -/
theorem lists_applied {names : List Token.Kind} {f : Node} (hf : Steady (.applied names) ts f)
    (hopens : (front us).kind = .leftParen) (hat : ListSpot before us pre t)
    (h : (Rule.enclosed .argument).Lists t pre) :
    (Rule.applied names).Lists t (ts ++ pre) := fun d cause => by
  refine (hf d cause).trans ?_ fun _ _ => trivial
  refine Reaches.congr ?_ fun rest hrest => again_call ((hat.kind_front hrest).trans hopens)
  exact (lists_arguments hopens hat h d).bind

/-! ### Between brackets -/

/-- A list in the first of the parts; no colon and no bracket stands before it. -/
theorem lists_subscriptParts (hbegins : Level.expression.begins (front ts).kind = true)
    (hat : ListSpot before ts pre t) (h : ∀ d, Lists t (Parser.expression d) pre) (d : Nat) :
    Lists t (subscriptParts (Parser.expression d)) pre := by
  have hround {rest : List Token} (hrest : InPlace t rest) :=
    front_ne_of_begins (hat.kind_front hrest ▸ hbegins) []
  simp only [List.append_nil] at hround
  exact Reaches.congr (h d).bind fun rest hrest => subscriptParts_round (rules_trim d).expression
    (hround hrest).1 (hround hrest).2.1 (hround hrest).2.2

theorem lists_index (h : ∀ d, Lists t (subscriptParts (Parser.expression d)) pre) :
    ∀ d, Lists t (Parser.index d) pre
  | 0 => .of_tooDeep tooDeep_run
  | d + 1 => by
    rw [Parser.index, Parser.subscript]
    exact (h d).bind.congr fun rest _ => (bind_assoc_run _ _ _ _).symm

/-- A part of a slice with its colon. -/
theorem Derives.reaches_part {p : Option Node} (h : Derives .part ts p) (ho : o.kind = .colon)
    (d : Nat) : Reaches (fun _ => True)
      (· = withPart p (subscriptParts (Parser.expression d)))
      (subscriptParts (Parser.expression d)) (ts ++ [o]) := by
  cases h with
  | absent => exact .of_run rfl fun rest _ => subscriptParts_absent ho rest
  | @present _ n hn =>
    have hbehind : Reaches (fun _ => True) (· = withPart (some n) (subscriptParts
        (Parser.expression d))) (behindPart (Parser.expression d) n) [o] := by
      rw [behindPart]
      refine .current ?_
      rw [if_pos ho]
      exact .take (.here rfl)
    refine (Reaches.after (hn.steady.expression d) hbehind fun rest _ =>
      stops_cons ho (by decide) rest).congr fun rest _ => ?_
    rw [List.append_assoc]
    obtain ⟨hne, hclose, hcolon⟩ := front_ne_of_begins hn.begins ([o] ++ rest)
    exact subscriptParts_round (rules_trim d).expression hne hclose hcolon

/-- A list in a later part, behind a part and its colon. -/
theorem lists_slice {p : Option Node} (hp : Derives .part ts p) (ho : o.kind = .colon)
    (h : ∀ d, Lists t (subscriptParts (Parser.expression d)) pre) (d : Nat) :
    Lists t (subscriptParts (Parser.expression d)) (ts ++ o :: pre) := by
  rw [← List.singleton_append, ← List.append_assoc]
  exact (hp.reaches_part ho d).trans (h d).bind fun _ _ => trivial

/-- A list in the first item of another one. -/
theorem lists_item (hbegins : Level.expression.begins (front ts).kind = true)
    (hat : ListSpot before ts pre t) (h : ∀ d, Lists t (i.parser d) pre) (d : Nat) :
    Lists t (delimited i.closing (i.parser d)) pre := by
  refine Reaches.congr (h d).bind fun rest hrest =>
    delimited_round (trims_item i d) (hat.ne_nil hrest) ?_
  rw [hat.kind_front hrest]
  have hclose := front_ne_closing hbegins i []
  rwa [List.append_nil] at hclose

/-- The comma behind the first item of a list. -/
theorem lists_comma {x : i.Tree} (hbegins : Level.expression.begins (front ts).kind = true)
    (hx : Steady (.item i) ts x) (ht : t.kind = .comma) (d : Nat) :
    Lists t (delimited i.closing (i.parser d)) ts := by
  have hfound : Reaches (InPlace t) (· = pure x) (i.parser d) ts :=
    (hx d).mono fun rest hrest => by
      rw [Stops, hrest.kind_front, ht]
      decide
  have hround {rest : List Token} : (delimited i.closing (i.parser d)).run (ts ++ rest) =
      (i.parser d >>= behindItem i.closing (i.parser d)).run (ts ++ rest) :=
    delimited_round (trims_item i d) (ne_nil_of_begins (begins_append hbegins rest))
      (front_ne_closing hbegins i rest)
  rcases hfound with hdeep | ⟨_, rfl, hrun⟩
  · refine .inl fun rest hrest => ?_
    rw [hround]
    exact tooDeep_bind (hdeep rest hrest)
  · refine .of_run (q := behindItem i.closing (i.parser d) x >>= pure)
      (.comma ht (hrun [t] (.inl rfl))) fun rest hrest => ?_
    rw [hround, bind_of_ok (hrun rest hrest), bind_pure]

/-- A list in a later item of another one, or a later comma of the list itself. -/
theorem lists_later {x : i.Tree} (hbegins : Level.expression.begins (front ts).kind = true)
    (hx : Steady (.item i) ts x) (ho : o.kind = .comma)
    (h : ∀ d, Lists t (delimited i.closing (i.parser d)) pre) (d : Nat) :
    Lists t (delimited i.closing (i.parser d)) (ts ++ o :: pre) := by
  have hbehind : Lists t (behindItem i.closing (i.parser d) x) (o :: pre) :=
    (h d).bind.congr fun rest _ => behindItem_comma ho _ x _
  refine (Reaches.after (hx d) hbehind fun _ _ => stops_cons ho (by decide) _).congr fun rest _ =>
    delimited_round (trims_item i d) (by simp) ?_
  rw [List.append_assoc]
  exact front_ne_closing hbegins i _

theorem lists_argument (hbegins : Level.expression.begins (front ts).kind = true)
    (hat : ListSpot before ts pre t) (h : ∀ d, Lists t (Parser.expression d) pre) :
    ∀ d, Lists t (Parser.argument d) pre
  | 0 => .of_tooDeep tooDeep_run
  | d + 1 => by
    rw [Parser.argument]
    refine .look (v := front ts) (fun rest hrest => ?_) (h d).bind
    rw [current_run, hat.front_eq hrest (ne_comma_of_begins hbegins)]

/-- A list in the value of a keyword argument. -/
theorem lists_keyword {k : String} (hbegins : Level.expression.begins (front ts).kind = true)
    (hk : Steady (.level .expression) ts (Node.identifier k)) (ho : o.kind = .equals)
    (h : ∀ d, Lists t (Parser.expression d) pre) : ∀ d, Lists t (Parser.argument d) (ts ++ o :: pre)
  | 0 => .of_tooDeep tooDeep_run
  | d + 1 => by
    rw [Parser.argument]
    refine .look (v := front ts) (fun rest _ => ?_) ?_
    · rw [current_run, List.append_assoc, front_append (ne_nil_of_begins hbegins)]
    · refine .after (hk.expression d) (.current ?_) fun _ _ => stops_cons ho (by decide) _
      rw [if_pos ho]
      refine .take ?_
      rw [if_pos (by rfl)]
      exact (h d).bind

theorem lists_key (h : ∀ d, Lists t (Parser.expression d) pre) : ∀ d, Lists t (Parser.entry d) pre
  | 0 => .of_tooDeep fun ts => tooDeep_bind (tooDeep_run ts)
  | d + 1 => by
    rw [Parser.entry]
    exact (h d).bind

/-- A list in the value of a pair, behind its key. -/
theorem lists_entry {k : Node} (hk : Steady (.level .expression) ts k) (ho : o.kind = .colon)
    (h : ∀ d, Lists t (Parser.expression d) pre) : ∀ d, Lists t (Parser.entry d) (ts ++ o :: pre)
  | 0 => .of_tooDeep fun ts => tooDeep_bind (tooDeep_run ts)
  | d + 1 => by
    rw [Parser.entry]
    exact .after (hk.expression d) (.expect ho (h d).bind) fun _ _ => stops_cons ho (by decide) _

/-! ### Statements -/

theorem lists_target (h : ∀ d, Lists t (Parser.expression d) pre) :
    ∀ d, Lists t (Parser.assignment d) pre
  | 0 => .of_tooDeep tooDeep_run
  | d + 1 => by
    rw [Parser.assignment]
    exact (h d).bind

/-- A list in the value that is assigned. -/
theorem lists_assign (hn : Steady (.level .expression) ts n) (ho : o.kind = .equals)
    (h : ∀ d, Lists t (Parser.assignment d) pre) :
    ∀ d, Lists t (Parser.assignment d) (ts ++ o :: pre)
  | 0 => .of_tooDeep tooDeep_run
  | d + 1 => by
    rw [Parser.assignment]
    refine .after (hn.expression d) (.current ?_) fun _ _ => stops_cons ho (by decide) _
    rw [if_pos ho]
    exact .take (h d).bind

/-- A list in the condition of a statement. -/
theorem lists_branches (h : ∀ d, Lists t (Parser.expression d) pre) :
    ∀ d, Lists t (Parser.branches d) pre
  | 0 => .of_tooDeep tooDeep_run
  | d + 1 => by
    rw [Parser.branches]
    exact (h d).bind

/-- The pieces of a block, in front of the tag that ends it. -/
theorem Derives.reaches_pieces {ns : List Node} {w : Token} {ends : List Token.Kind}
    (h : Derives .body us ns) (ho : o.kind = .openStatement) (hw : w.kind ∈ ends)
    (hends : ends ⊆ blockEnds) (missing : Token.Kind) (d : Nat) :
    Reaches ([o, w] <+: ·) (· = pure ns) (pieces ends missing (Parser.piece d)) us := by
  refine reaches_known (p := fun d => pieces ends missing (Parser.piece d))
    (fun hde => respects_shallower.guarded.pieces _ _ (rules_shallower hde).piece)
    (fun d => local_pieces (rules_nearby d) ends missing)
    (show ((2 : Fin 3) : Nat) ≤ [o, w].length from Nat.le_refl 2) ?_ d
  filter_upwards [h.found.pieces] with d hd rest
  refine hd _ ends missing hends (List.any_eq_true.mpr ⟨w.kind, hw, ?_⟩)
  simp [beginsWith, ho]

/-- A piece, whatever follows. -/
theorem Derives.reaches_piece (h : Derives .piece ts n) (d : Nat) :
    Reaches (fun _ => True) (· = pure n) (Parser.piece d) ts := by
  refine (reaches_known (fun hde => (rules_shallower hde).piece) (fun d => (rules_nearby d).piece)
    (Nat.zero_le ([] : List Token).length) ?_ d).mono fun _ _ => List.nil_prefix
  filter_upwards [h.found] with d hd rest
  exact hd _

/-- A list in the body behind a condition. -/
theorem lists_block {c : Token} (hn : Steady (.level .expression) ts n)
    (hc : c.kind = .closeStatement) (h : Rule.body.Lists t pre) :
    ∀ d, Lists t (Parser.branches d) (ts ++ c :: pre)
  | 0 => .of_tooDeep tooDeep_run
  | d + 1 => by
    rw [Parser.branches]
    exact .after (hn.expression d) (.expect hc ((h d).2 _ _ (by decide)).bind) fun _ _ =>
      stops_cons hc (by decide) _

/-- A list in a further condition or behind it, after a body that has been read. -/
theorem lists_elseIf {c w : Token} {body : List Node} (hn : Steady (.level .expression) ts n)
    (hc : c.kind = .closeStatement) (hbody : Derives .body us body) (ho : o.kind = .openStatement)
    (hw : w.kind = .kwElif) (h : ∀ d, Lists t (Parser.branches d) pre) :
    ∀ d, Lists t (Parser.branches d) (ts ++ c :: (us ++ o :: w :: pre))
  | 0 => .of_tooDeep tooDeep_run
  | d + 1 => by
    rw [Parser.branches]
    refine .after (hn.expression d) (.expect hc (.after (hbody.reaches_pieces ho (w := w)
      (by rw [hw]; decide) (by decide) _ d) (.look (v := true) ?_ ?_) ?_)) fun _ _ =>
        stops_cons hc (by decide) _
    · exact fun rest _ => (sees_run _ _).trans (by simp [beginsWith, ho, hw])
    · exact .take (.take (h d).bind)
    · exact fun rest _ => List.prefix_append [o, w] (pre ++ rest)

/-- A list in the body behind an `else`. -/
theorem lists_else {c w c' : Token} {body : List Node} (hn : Steady (.level .expression) ts n)
    (hc : c.kind = .closeStatement) (hbody : Derives .body us body) (ho : o.kind = .openStatement)
    (hw : w.kind = .kwElse) (hc' : c'.kind = .closeStatement) (h : Rule.body.Lists t pre) :
    ∀ d, Lists t (Parser.branches d) (ts ++ c :: (us ++ o :: w :: c' :: pre))
  | 0 => .of_tooDeep tooDeep_run
  | d + 1 => by
    rw [Parser.branches]
    refine .after (hn.expression d) (.expect hc (.after (hbody.reaches_pieces ho (w := w)
      (by rw [hw]; decide) (by decide) _ d) (.look (v := false) ?_ (.look (v := true) ?_ ?_)) ?_))
        fun _ _ => stops_cons hc (by decide) _
    · exact fun rest _ => (sees_run _ _).trans (by simp [beginsWith, hw])
    · exact fun rest _ => (sees_run _ _).trans (by simp [beginsWith, ho, hw])
    · exact .take (.take (.expect hc' ((h d).2 _ _ (by decide)).bind))
    · exact fun rest _ => List.prefix_append [o, w] (c' :: pre ++ rest)

/-- A list in what stands for the variable of a loop. -/
theorem lists_variable (hbegins : Level.chained.begins (front ts).kind = true)
    (hat : ListSpot before ts pre t) (h : ∀ d, Lists t (Parser.chained d) pre) :
    ∀ d, Lists t (Parser.loop d) pre
  | 0 => .of_tooDeep tooDeep_run
  | d + 1 => by
    rw [Parser.loop]
    refine .look (v := front ts) (fun rest hrest => ?_) (h d).bind
    rw [current_run, hat.front_eq hrest (ne_comma_of_begins hbegins)]

/-- A list in what a loop runs over. -/
theorem lists_iterable {name : String} (hbegins : Level.chained.begins (front ts).kind = true)
    (hn : Steady (.level .chained) ts (Node.identifier name)) (ho : o.kind = .kwIn)
    (h : ∀ d, Lists t (Parser.expression d) pre) : ∀ d, Lists t (Parser.loop d) (ts ++ o :: pre)
  | 0 => .of_tooDeep tooDeep_run
  | d + 1 => by
    rw [Parser.loop]
    refine .look (v := front ts) (fun rest _ => ?_) ?_
    · rw [current_run, List.append_assoc, front_append (ne_nil_of_begins hbegins)]
    · refine .after (Steady.complete (l := .filtered) hn rfl d) ?_ fun _ _ =>
        stops_cons ho (by decide) _
      rw [if_pos (by rfl)]
      exact .expect ho (h d).bind

/-- A list in the body of a loop. -/
theorem lists_loop {name : String} {iterable : Node} {c : Token}
    (hbegins : Level.chained.begins (front ts).kind = true)
    (hn : Steady (.level .chained) ts (Node.identifier name)) (ho : o.kind = .kwIn)
    (hiterable : Steady (.level .expression) us iterable) (hc : c.kind = .closeStatement)
    (h : Rule.body.Lists t pre) : ∀ d, Lists t (Parser.loop d) (ts ++ o :: (us ++ c :: pre))
  | 0 => .of_tooDeep tooDeep_run
  | d + 1 => by
    rw [Parser.loop]
    refine .look (v := front ts) (fun rest _ => ?_) ?_
    · rw [current_run, List.append_assoc, front_append (ne_nil_of_begins hbegins)]
    · refine .after (Steady.complete (l := .filtered) hn rfl d) ?_ fun _ _ =>
        stops_cons ho (by decide) _
      rw [if_pos (by rfl)]
      exact .expect ho (.after (hiterable.expression d)
        (.expect hc ((h d).2 _ _ (by decide)).bind) fun _ _ => stops_cons hc (by decide) _)

/-! ### Pieces -/

theorem lists_output (ho : o.kind = .openExpression) (h : ∀ d, Lists t (Parser.expression d) pre) :
    ∀ d, Lists t (Parser.piece d) (o :: pre)
  | 0 => .of_tooDeep tooDeep_run
  | d + 1 => by
    rw [Parser.piece]
    refine .current ?_
    rw [ho]
    cases d with
    | zero => exact .of_tooDeep tooDeep_run
    | succ d =>
      dsimp only
      rw [Parser.output]
      exact .expect ho (h d).bind

/-- A statement goes on with the rule that its word is for. -/
theorem lists_statement {w : Token} {p : Nat → Parser Node} {f : Node → Parser Node}
    (ho : o.kind = .openStatement) (hw : ∀ d rest,
      (Parser.statement (d + 1)).run (o :: w :: rest) = (p d >>= f).run rest)
    (h : ∀ d, Lists t (p d) pre) : ∀ d, Lists t (Parser.piece d) (o :: w :: pre)
  | 0 => .of_tooDeep tooDeep_run
  | d + 1 => by
    have hstatement : Lists t (Parser.statement d) (o :: w :: pre) := by
      cases d with
      | zero => exact .of_tooDeep tooDeep_run
      | succ d => exact Reaches.congr (h d).bind fun rest _ => hw d (pre ++ rest)
    exact hstatement.congr fun rest _ => piece_statement ho d _

/-- The rule for the rest of a tag, by its word, and the tag that ends its block. -/
theorem statement_word {w : Token} {p : Nat → Parser Node} {f : Node → Parser Node}
    (ho : o.kind = .openStatement)
    (hw : (w.kind = .kwSet ∧ p = Parser.assignment ∧
        f = fun n => expect .closeStatement >>= fun _ => pure n) ∨
      (w.kind = .kwIf ∧ p = Parser.branches ∧ f = fun n => endTag .kwEndif >>= fun _ => pure n) ∨
      (w.kind = .kwFor ∧ p = Parser.loop ∧ f = fun n => endTag .kwEndfor >>= fun _ => pure n))
    (d : Nat) (rest : List Token) :
    (Parser.statement (d + 1)).run (o :: w :: rest) = (p d >>= f).run rest := by
  rw [Parser.statement, bind_of_ok (expect_cons ho _), bind_of_ok (current_run _), front_cons]
  rcases hw with ⟨hw, rfl, rfl⟩ | ⟨hw, rfl, rfl⟩ | ⟨hw, rfl, rfl⟩ <;> rw [hw] <;>
    exact bind_of_ok (advance_cons w rest)

/-- A list in the first piece of a body, however the body is to end. -/
theorem lists_body (hpiece : Rule.piece.Begins ts) (hat : ListSpot before ts pre t)
    (h : Rule.piece.Lists t pre) : Rule.body.Lists t pre := fun d =>
  ⟨Reaches.congr (h d).bind fun _ hrest => all_round (takes_piece d) (hat.ne_nil hrest),
    fun _ missing hends => Reaches.congr (h d).bind fun _ hrest =>
      pieces_round (takes_piece d) (hat.not_beginsWith hrest hpiece hends) (hat.ne_nil hrest)
        missing⟩

/-- A list in a later piece of a body. -/
theorem lists_more (hn : Derives .piece ts n) (h : Rule.body.Lists t pre) :
    Rule.body.Lists t (ts ++ pre) := fun d => by
  obtain ⟨hne, hbegins⟩ := hn.begins
  have hne (rest : List Token) : ts ++ pre ++ rest ≠ [] := by simp [hne]
  have hpiece := hn.reaches_piece d
  refine ⟨?_, fun ends missing hends => ?_⟩
  · refine Reaches.congr (Reaches.after hpiece (h d).1.bind fun _ _ => trivial) fun rest _ =>
      all_round (takes_piece d) (hne rest)
  · refine Reaches.congr (Reaches.after hpiece ((h d).2 ends missing hends).bind fun _ _ => trivial)
      fun rest _ => pieces_round (takes_piece d) ?_ (hne rest) missing
    refine List.any_eq_false.mpr fun kind hkind => ?_
    rw [List.append_assoc, hbegins kind (hends hkind)]
    exact Bool.false_ne_true

/-! ### All rules -/

/-- **At each bracket that begins a list, and at each comma, the parser is at work on a list.** -/
theorem Derives.lists {r : Rule} {v : r.Tree} (h : Derives r ts v) (hr : r.Named)
    (hbefore : r.Awaits → before.any endsOperand = false) (hat : ListSpot before ts pre t) :
    r.Lists t pre := by
  induction h generalizing before pre with
  -- expressions
  | tighter hm h ih => exact lists_tighter hm h.begins hat (ih trivial hbefore hat)
  | inline hvalue hi htest he _ ih ih' ih'' =>
    refine hat.apart hi ⟨rfl, nofun⟩ (fun hat => ?_) fun _ hat => ?_
    · exact lists_value (ih trivial hbefore hat)
    refine hat.apart he ⟨rfl, nofun⟩ (fun hat => ?_) fun _ hat => ?_
    · exact lists_condition hvalue.steady hi (ih' trivial (fun _ => rfl) hat)
    · exact lists_alternative hvalue.steady hi htest.steady he (ih'' trivial (fun _ => rfl) hat)
  | operator hm ha ho _ ih ih' =>
    refine hat.apart rfl (plain_of_joins ho) (fun hat => ?_) fun _ hat => ?_
    · exact ih trivial hbefore hat
    · exact lists_operand hm ha.steady ho (ih' trivial
        (fun _ => by simp [endsOperand_of_joins ho]) hat)
  | not ho _ ih =>
    refine hat.skip ho ⟨rfl, nofun⟩ fun _ hat => ?_
    exact lists_not ho (ih trivial (fun _ => rfl) hat)
  | test hn hi hf ih ih' =>
    refine hat.apart hi ⟨rfl, nofun⟩ (fun hat => ?_) fun _ hat => ?_
    · exact ih trivial hbefore hat
    · exact lists_test hn.steady hi hf.begins hat (ih' (List.Subset.refl _) nofun hat)
  | testNot hn hi ho _ ih ih' =>
    refine hat.apart hi ⟨rfl, nofun⟩ (fun hat => ?_) fun _ hat => ?_
    · exact ih trivial hbefore hat
    refine hat.skip ho ⟨rfl, nofun⟩ fun _ hat => ?_
    exact lists_testNot hn.steady hi ho (ih' (List.Subset.refl _) nofun hat)
  | filter hn hp _ ih ih' =>
    refine hat.apart hp ⟨rfl, nofun⟩ (fun hat => ?_) fun _ hat => ?_
    · exact ih trivial hbefore hat
    · exact lists_filter hn.steady hp (ih' (List.subset_append_left [_] [_]) nofun hat)
  | property _ ho ht ih =>
    refine hat.apart ho ⟨rfl, nofun⟩ (fun hat => ?_) fun _ hat => ?_
    · exact ih trivial hbefore hat
    · exact (hat.single ht ⟨rfl, nofun⟩).elim
  | subscript hn ho _ hc ih ih' =>
    -- behind an operand the bracket begins no array
    have hends := hn.ends trivial trivial before
    refine hat.apart ho ⟨by rw [opensList, hends]; rfl, nofun⟩ (fun hat => ?_) fun _ hat => ?_
    · exact ih trivial hbefore hat
    · exact lists_subscript hn.steady ho
        (ih' trivial (fun _ => rfl) (hat.closed hc ⟨rfl, nofun⟩))
  | call hf hargs ih ih' =>
    refine hat.append (fun hat => ?_) fun _ hat => ?_
    · exact ih trivial hbefore hat
    · exact lists_call hf.steady hargs.begins hat (ih' trivial nofun hat)
  -- primaries and names
  | number ht | string ht | boolean ht | identifier ht =>
    exact (hat.single ht ⟨rfl, nofun⟩).elim
  | parenthesis ho _ hc ih =>
    refine hat.skip ho ⟨hbefore trivial, nofun⟩ fun _ hat => ?_
    exact lists_parenthesis ho (ih trivial (fun _ => rfl) (hat.closed hc ⟨rfl, nofun⟩))
  | array h ih =>
    exact lists_primary (i := .element) h.begins hat primary_array (ih trivial nofun hat)
  | object h ih =>
    exact lists_primary (i := .entry) h.begins hat primary_object (ih trivial nofun hat)
  | name ht =>
    rcases kind_of_named hr ht with hk | hk <;> exact (hat.single hk ⟨rfl, nofun⟩).elim
  | applied hf hargs ih ih' =>
    refine hat.append (fun hat => ?_) fun _ hat => ?_
    · exact ih hr nofun hat
    · exact lists_applied hf.steady hargs.begins hat (ih' trivial nofun hat)
  -- between brackets
  | index h ih =>
    exact lists_index (lists_subscriptParts h.begins hat (ih trivial hbefore hat))
  | slice _ _ ih => exact lists_index (ih trivial hbefore hat)
  | absent | itemsNil | bodyNil => exact hat.nil.elim
  | present h ih => exact lists_subscriptParts h.begins hat (ih trivial hbefore hat)
  | sliceEnd _ hc ih => exact ih trivial hbefore (hat.closed hc ⟨rfl, nofun⟩)
  | sliceLast hp hc hn ih ih' =>
    refine hat.apart hc ⟨rfl, nofun⟩ (fun hat => ?_) fun _ hat => ?_
    · exact ih trivial hbefore hat
    · exact lists_slice hp hc (lists_subscriptParts hn.begins hat (ih' trivial (fun _ => rfl) hat))
  | sliceMore hp hc _ ih ih' =>
    refine hat.apart hc ⟨rfl, nofun⟩ (fun hat => ?_) fun _ hat => ?_
    · exact ih trivial hbefore hat
    · exact lists_slice hp hc (ih' trivial (fun _ => rfl) hat)
  | element _ ih => exact ih trivial hbefore hat
  | positional h ih => exact lists_argument h.begins hat (ih trivial hbefore hat)
  | keyword hk he _ ih ih' =>
    refine hat.apart he ⟨rfl, nofun⟩ (fun hat => ?_) fun _ hat => ?_
    · exact lists_argument hk.begins hat (ih trivial hbefore hat)
    · exact lists_keyword hk.begins hk.steady he (ih' trivial (fun _ => rfl) hat)
  | entry hk hc _ ih ih' =>
    refine hat.apart hc ⟨rfl, nofun⟩ (fun hat => ?_) fun _ hat => ?_
    · exact lists_key (ih trivial hbefore hat)
    · exact lists_entry hk.steady hc (ih' trivial (fun _ => rfl) hat)
  | itemsLast h ih => exact lists_item h.begins hat (ih trivial hbefore hat)
  | itemsMore hx hc _ ih ih' =>
    refine hat.append (fun hat => ?_) fun _ hat => ?_
    · exact lists_item hx.begins hat (ih trivial hbefore hat)
    refine hat.cons ?_ fun _ hat => ?_
    · rintro rfl -
      rw [List.append_nil]
      exact lists_comma hx.begins hx.steady hc
    · rw [hc] at hat
      exact lists_later hx.begins hx.steady hc (ih' trivial (fun _ => rfl) hat)
  | @enclosed i _ _ _ _ ho _ hc ih =>
    refine hat.cons ?_ fun _ hat => ?_
    · rintro rfl - d
      refine .here ?_
      have hopening := Listing.opening (d := d) (f := pure) ho
      simpa only [bind_pure] using hopening
    · refine fun d => .take (ih trivial (fun _ => ?_) (hat.closed hc (plain_closing i)) d)
      rw [ho]
      cases i <;> rfl
  -- statements
  | plain _ ih => exact lists_target (ih trivial hbefore hat)
  | assign hn he _ ih ih' =>
    refine hat.apart he ⟨rfl, nofun⟩ (fun hat => ?_) fun _ hat => ?_
    · exact lists_target (ih trivial hbefore hat)
    · exact lists_assign hn.steady he (ih' trivial (fun _ => rfl) hat)
  | noElse htest hc _ ih ih' =>
    refine hat.apart hc ⟨rfl, nofun⟩ (fun hat => ?_) fun _ hat => ?_
    · exact lists_branches (ih trivial hbefore hat)
    · exact lists_block htest.steady hc (ih' trivial nofun hat)
  | elseIf htest hc hbody ho hw _ ih ih' ih'' =>
    refine hat.apart hc ⟨rfl, nofun⟩ (fun hat => ?_) fun _ hat => ?_
    · exact lists_branches (ih trivial hbefore hat)
    refine hat.apart ho ⟨rfl, nofun⟩ (fun hat => ?_) fun _ hat => ?_
    · exact lists_block htest.steady hc (ih' trivial nofun hat)
    refine hat.skip hw ⟨rfl, nofun⟩ fun _ hat => ?_
    exact lists_elseIf htest.steady hc hbody ho hw (ih'' trivial (fun _ => rfl) hat)
  | elseBody htest hc hbody ho hw hc' _ ih ih' ih'' =>
    refine hat.apart hc ⟨rfl, nofun⟩ (fun hat => ?_) fun _ hat => ?_
    · exact lists_branches (ih trivial hbefore hat)
    refine hat.apart ho ⟨rfl, nofun⟩ (fun hat => ?_) fun _ hat => ?_
    · exact lists_block htest.steady hc (ih' trivial nofun hat)
    refine hat.skip hw ⟨rfl, nofun⟩ fun _ hat => ?_
    refine hat.skip hc' ⟨rfl, nofun⟩ fun _ hat => ?_
    exact lists_else htest.steady hc hbody ho hw hc' (ih'' trivial nofun hat)
  -- pieces
  | text ht => exact (hat.single ht ⟨rfl, nofun⟩).elim
  | output ho _ hc ih =>
    refine hat.skip ho ⟨rfl, nofun⟩ fun _ hat => ?_
    exact lists_output ho (ih trivial (fun _ => rfl) (hat.closed hc ⟨rfl, nofun⟩))
  | set ho hw _ hc ih =>
    refine hat.skip ho ⟨rfl, nofun⟩ fun _ hat => ?_
    refine hat.skip hw ⟨rfl, nofun⟩ fun _ hat => ?_
    exact lists_statement ho (statement_word ho (.inl ⟨hw, rfl, rfl⟩))
      (ih trivial (fun _ => rfl) (hat.closed hc ⟨rfl, nofun⟩))
  | conditional ho hw _ ho' hw' hc ih =>
    refine hat.skip ho ⟨rfl, nofun⟩ fun _ hat => ?_
    refine hat.skip hw ⟨rfl, nofun⟩ fun _ hat => ?_
    refine hat.apart ho' ⟨rfl, nofun⟩ (fun hat => ?_) fun _ hat => ?_
    · exact lists_statement ho (statement_word ho (.inr (.inl ⟨hw, rfl, rfl⟩)))
        (ih trivial (fun _ => rfl) hat)
    · refine hat.skip hw' ⟨rfl, nofun⟩ fun _ hat => ?_
      exact (hat.single hc ⟨rfl, nofun⟩).elim
  | loop ho hw hv hi hiterable hc _ ho' hw' hc' ih ih' ih'' =>
    refine hat.skip ho ⟨rfl, nofun⟩ fun _ hat => ?_
    refine hat.skip hw ⟨rfl, nofun⟩ fun _ hat => ?_
    refine lists_statement ho (statement_word ho (.inr (.inr ⟨hw, rfl, rfl⟩))) ?_
    refine hat.apart hi ⟨rfl, nofun⟩ (fun hat => ?_) fun _ hat => ?_
    · exact lists_variable hv.begins hat (ih trivial (fun _ => rfl) hat)
    refine hat.apart hc ⟨rfl, nofun⟩ (fun hat => ?_) fun _ hat => ?_
    · exact lists_iterable hv.begins hv.steady hi (ih' trivial (fun _ => rfl) hat)
    refine hat.apart ho' ⟨rfl, nofun⟩ (fun hat => ?_) fun _ hat => ?_
    · exact lists_loop hv.begins hv.steady hi hiterable.steady hc (ih'' trivial nofun hat)
    · refine hat.skip hw' ⟨rfl, nofun⟩ fun _ hat => ?_
      exact (hat.single hc' ⟨rfl, nofun⟩).elim
  | bodyMore hn _ ih ih' =>
    refine hat.append (fun hat => ?_) fun _ hat => ?_
    · exact lists_body hn.begins hat (ih trivial nofun hat)
    · exact lists_more hn (ih' trivial nofun hat)

end Stencil.Grammar
