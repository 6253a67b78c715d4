import Mathlib.Data.List.Forall2
import Stencil.Parser.Grammar
import Stencil.Proofs.Parser.Run

/-!
# Parser — two rows of tokens that are alike

The parser goes by the kinds of the tokens.  Their values only get into the leaves of the tree, or
into its operators, and their places nowhere but into errors.  So on two rows of tokens of the same
kinds it does the same: it takes as many tokens and makes trees of one form, or fails at the same
place for the same cause.

What two tokens and two nodes have in common is a `Likeness`: nodes are alike that are made in the
same way of tokens and nodes that are alike.  `Like` says of two parsers that they respect it.  There
is a lemma for each combinator, and by induction on the depth the rules respect every likeness
(`rules_like`), which gives the theorem about whole templates (`parse_like`).

A congruence of the rules does not serve here: it relates two parsers that go on with the same result,
and these two go on with results that are only alike.
-/

namespace Stencil.Parser

/-- The value of a token of the kind is the operator of a node. -/
def isOperator : Token.Kind → Bool
  | .kwOr | .kwAnd | .kwNot | .additive | .multiplicative => true
  | kind => isComparison kind

/-- Numbers are read that are related, or none is read from either text. -/
inductive ReadAlike (V : Number → Number → Prop) :
    Except Numeral.Error Number → Except Numeral.Error Number → Prop
  | ok {v v' : Number} : V v v' → ReadAlike V (.ok v) (.ok v')
  | error (e e' : Numeral.Error) : ReadAlike V (.error e) (.error e')

/-- What two tokens have in common, and what two nodes have in common that are made of them. -/
structure Likeness where
  token : Token → Token → Prop
  node : Node → Node → Prop
  kind_eq : ∀ {t t'}, token t t' → t.kind = t'.kind
  endOfInput : token .endOfInput .endOfInput
  nodeKind_eq : ∀ {n n'}, node n n' → n.kind = n'.kind
  program_like : ∀ {b b'}, List.Forall₂ node b b' → node (.program b) (.program b')
  number_like : ∀ {t t'}, token t t' → t.kind = .number →
    ReadAlike (fun v v' => node (.number v) (.number v')) (Numeral.read t.value) (Numeral.read t'.value)
  string_like : ∀ {t t'}, token t t' → t.kind = .string ∨ t.kind = .text →
    node (.string t.value) (.string t'.value)
  boolean_like : ∀ {t t'}, token t t' → t.kind = .boolean →
    node (.boolean (truthValue t.value)) (.boolean (truthValue t'.value))
  array_like : ∀ {ns ns'}, List.Forall₂ node ns ns' → node (.array ns) (.array ns')
  object_like : ∀ {es es'}, List.Forall₂ (fun e e' => node e.1 e'.1 ∧ node e.2 e'.2) es es' →
    node (.object es) (.object es')
  identifier_like : ∀ {t t'}, token t t' → t.kind = .identifier ∨ t.kind = .boolean →
    node (.identifier t.value) (.identifier t'.value)
  member_like : ∀ {o o' p p'} (computed : Bool), node o o' → node p p' →
    node (.member o p computed) (.member o' p' computed)
  call_like : ∀ {f f' ns ns'}, node f f' → List.Forall₂ node ns ns' → node (.call f ns) (.call f' ns')
  binary_like : ∀ {t t' l l' r r'}, token t t' → isOperator t.kind = true → node l l' → node r r' →
    node (.binary t.value l r) (.binary t'.value l' r')
  unary_like : ∀ {t t' n n'}, token t t' → isOperator t.kind = true → node n n' →
    node (.unary t.value n) (.unary t'.value n')
  conditional_like : ∀ {c c' b b' a a'}, node c c' → List.Forall₂ node b b' → List.Forall₂ node a a' →
    node (.conditional c b a) (.conditional c' b' a')
  loop_like : ∀ {v v' i i' b b'}, node v v' → node i i' → List.Forall₂ node b b' →
    node (.loop v i b) (.loop v' i' b')
  assignment_like : ∀ {v v' n n'}, node v v' → node n n' → node (.assignment v n) (.assignment v' n')
  filter_like : ∀ {n n' f f'}, node n n' → node f f' → node (.filter n f) (.filter n' f')
  test_like : ∀ {n n' c c'} (negated : Bool), node n n' → node c c' →
    node (.test n negated c) (.test n' negated c')
  slice_like : ∀ {a a' b b' c c'}, Option.Rel node a a' → Option.Rel node b b' → Option.Rel node c c' →
    node (.slice a b c) (.slice a' b' c')
  keyword_like : ∀ {k k' n n'}, node k k' → node n n' → node (.keyword k n) (.keyword k' n')

/-- A cause without the description of a token, which tells its value and its place. -/
def Cause.unnamed : Cause → Cause
  | testName _ => testName ""
  | filterName _ => filterName ""
  | propertyName _ => propertyName ""
  | cause => cause

/-- What is left out of a cause is no part of its class. -/
theorem Cause.name_unnamed (cause : Cause) : cause.unnamed.name = cause.name := by
  cases cause <;> rfl

namespace Likeness

variable {α β : Type} {L : Likeness} {V : α → α → Prop} {W : β → β → Prop} {kind : Token.Kind}
  {p q : Parser α} {f g : α → Parser β} {item item' : Parser Node}

/-! ### Results -/

/-- Failures for the same cause, at tokens that are alike. -/
inductive Fails (L : Likeness) : Failure → Failure → Prop
  | malformed {c c' : Cause} {t t' : Token} : c.unnamed = c'.unnamed → L.token t t' →
      Fails L (.malformed ⟨c, some t⟩) (.malformed ⟨c', some t'⟩)
  | numeral (e e' : Numeral.Error) : Fails L (.numeral e) (.numeral e')

/-- Results that are related or failures that are alike, in front of tokens that are alike. -/
inductive Agree (L : Likeness) (V : α → α → Prop) : EStateM.Result Failure (List Token) α →
    EStateM.Result Failure (List Token) α → Prop
  | ok {a a' : α} {ts ts' : List Token} : V a a' → List.Forall₂ L.token ts ts' →
      Agree L V (.ok a ts) (.ok a' ts')
  | error {e e' : Failure} {ts ts' : List Token} : Fails L e e' → List.Forall₂ L.token ts ts' →
      Agree L V (.error e ts) (.error e' ts')

/-- On tokens that are alike, the first of which has the kind, the parsers agree. -/
def LikeAt (L : Likeness) (kind : Token.Kind) (V : α → α → Prop) (p q : Parser α) : Prop :=
  ∀ ⦃ts ts' : List Token⦄, List.Forall₂ L.token ts ts' → (front ts).kind = kind →
    Agree L V (p.run ts) (q.run ts')

/-- On tokens that are alike the parsers agree. -/
def Like (L : Likeness) (V : α → α → Prop) (p q : Parser α) : Prop :=
  ∀ ⦃ts ts' : List Token⦄, List.Forall₂ L.token ts ts' → Agree L V (p.run ts) (q.run ts')

/-- Parsers that agree on all tokens agree on those that begin with the kind. -/
theorem Like.at (h : L.Like V p q) (kind : Token.Kind) : L.LikeAt kind V p q := fun _ _ hts _ => h hts

/-- The tokens at hand are alike, the end of the input included. -/
theorem front_alike {ts ts' : List Token} (h : List.Forall₂ L.token ts ts') :
    L.token (front ts) (front ts') := by
  cases h with
  | nil => exact L.endOfInput
  | cons h _ => exact h

/-- Nodes that are alike are names or are not, alike. -/
theorem isIdentifier_eq {n n' : Node} (h : L.node n n') : n.isIdentifier = n'.isIdentifier := by
  have hkind := L.nodeKind_eq h
  cases n <;> cases n' <;> first | rfl | simp [Node.kind] at hkind

/-! ### Sequences and operations on tokens -/

/-- On two results that agree, parsers that respect the likeness go on in agreement. -/
theorem Agree.bind {ts ts' : List Token} (h : Agree L V (p.run ts) (q.run ts'))
    (hf : ∀ a a', V a a' → L.Like W (f a) (g a')) :
    Agree L W ((p >>= f).run ts) ((q >>= g).run ts') := by
  rw [EStateM.run_bind, EStateM.run_bind]
  generalize p.run ts = r at h ⊢
  generalize q.run ts' = r' at h ⊢
  cases h with
  | ok ha hts => exact hf _ _ ha hts
  | error he hts => exact .error he hts

/-- A sequence respects the likeness if both of its parts do. -/
theorem Like.bind (h : L.Like V p q) (hf : ∀ a a', V a a' → L.Like W (f a) (g a')) :
    L.Like W (p >>= f) (q >>= g) := fun _ _ hts => (h hts).bind hf

theorem LikeAt.bind (h : L.LikeAt kind V p q) (hf : ∀ a a', V a a' → L.Like W (f a) (g a')) :
    L.LikeAt kind W (p >>= f) (q >>= g) := fun _ _ hts hkind => (h hts hkind).bind hf

theorem like_pure {a a' : α} (h : V a a') : L.Like V (pure a) (pure a') := fun _ _ hts => .ok h hts

/-- Related results are made of related ones. -/
theorem Like.map {m n : α → β} (h : L.Like V p q) (hm : ∀ a a', V a a' → W (m a) (n a')) :
    L.Like W (do return m (← p)) (do return n (← q)) :=
  h.bind fun a a' ha => like_pure (hm a a' ha)

/-- Failures for one cause at tokens that are alike; the descriptions of the tokens may differ. -/
theorem like_fail {c c' : Cause} {t t' : Token} (hc : c.unnamed = c'.unnamed) (ht : L.token t t') :
    L.Like V (fail c t) (fail c' t') := fun _ _ hts => .error (.malformed hc ht) hts

/-- What looks at the token at hand may go by its kind. -/
theorem like_current {h k : Token → Parser α}
    (hf : ∀ t t', L.token t t' → L.LikeAt t.kind V (h t) (k t')) :
    L.Like V (current >>= h) (current >>= k) := by
  intro ts ts' hts
  rw [bind_of_ok (current_run ts), bind_of_ok (current_run ts')]
  exact hf _ _ (front_alike hts) hts rfl

theorem like_failHere (cause : Cause) : L.Like V (failHere cause) (failHere cause) :=
  like_current fun _ _ ht => (like_fail rfl ht).at _

/-- What takes the token at hand knows its kind. -/
theorem likeAt_advance {h k : Token → Parser α}
    (hf : ∀ t t', L.token t t' → t.kind = kind → L.Like V (h t) (k t')) :
    L.LikeAt kind V (advance >>= h) (advance >>= k) := by
  intro ts ts' hts hkind
  cases hts with
  | nil => exact hf _ _ L.endOfInput hkind .nil
  | cons ht hts => exact hf _ _ ht hkind hts

/-- The tokens that are taken are alike. -/
theorem like_advance {h k : Token → Parser α} (hf : ∀ t t', L.token t t' → L.Like V (h t) (k t')) :
    L.Like V (advance >>= h) (advance >>= k) :=
  fun _ _ hts => likeAt_advance (fun t t' ht _ => hf t t' ht) hts rfl

/-- Where no token is left, none is left in the other row. -/
theorem like_atEnd {h k : Bool → Parser α} (hf : ∀ b, L.Like V (h b) (k b)) :
    L.Like V (atEnd >>= h) (atEnd >>= k) := by
  intro ts ts' hts
  have hempty : ts.isEmpty = ts'.isEmpty := by cases hts <;> rfl
  rw [bind_of_ok (atEnd_run ts), bind_of_ok (atEnd_run ts'), ← hempty]
  exact hf _ hts

/-- A test of the next kinds comes out the same. -/
theorem beginsWith_eq (kinds : List Token.Kind) : ∀ {ts ts' : List Token},
    List.Forall₂ L.token ts ts' → beginsWith kinds ts = beginsWith kinds ts' := by
  induction kinds with
  | nil => exact fun _ => rfl
  | cons kind kinds ih =>
    intro ts ts' hts
    cases hts with
    | nil => rfl
    | cons ht hts => rw [beginsWith, beginsWith, ih hts, L.kind_eq ht]

theorem like_sees (kinds : List Token.Kind) {h k : Bool → Parser α}
    (hf : ∀ b, L.Like V (h b) (k b)) : L.Like V (sees kinds >>= h) (sees kinds >>= k) := by
  intro ts ts' hts
  rw [bind_of_ok (sees_run kinds ts), bind_of_ok (sees_run kinds ts'), ← beginsWith_eq kinds hts]
  exact hf _ hts

/-- An expected token is there in both rows, or in neither. -/
theorem like_expect (kind : Token.Kind) : L.Like L.token (expect kind) (expect kind) := by
  intro ts ts' hts
  cases hts with
  | nil => exact like_failHere (.expectedToken kind) .nil
  | @cons t t' ts ts' ht hts =>
    by_cases hkind : t.kind = kind
    · rw [expect_cons hkind, expect_cons ((L.kind_eq ht) ▸ hkind)]
      exact .ok ht hts
    · rw [expect_of_ne (by rintro _ _ ⟨⟩; exact hkind),
        expect_of_ne (by rintro _ _ ⟨⟩; exact (L.kind_eq ht) ▸ hkind)]
      exact .error (.malformed rfl ht) (.cons ht hts)

/-- The rows are as long as each other. -/
theorem like_length {h k : Nat → Parser α} (hf : ∀ n, L.Like V (h n) (k n)) :
    L.Like V (do h (← remaining).length) (do k (← remaining).length) := by
  intro ts ts' hts
  rw [bind_of_ok (remaining_run ts), bind_of_ok (remaining_run ts'), ← hts.length_eq]
  exact hf _ hts

/-- A rule behind a test that ends it with an error. -/
theorem like_guarded (b : Bool) {r s : Parser Unit} (hr : L.Like (· = ·) r s) (h : L.Like V p q) :
    L.Like V (if b = true then do r; p else p) (if b = true then do s; q else q) := by
  split
  · exact hr.bind fun _ _ _ => h
  · exact h

/-- A name is taken of tokens that may be one. -/
theorem like_nameOf {kinds : List Token.Kind} {cause : String → Cause}
    (hkinds : ∀ kind ∈ kinds, kind = .identifier ∨ kind = .boolean)
    (hcause : ∀ found found', (cause found).unnamed = (cause found').unnamed) :
    L.Like L.node (nameOf kinds cause) (nameOf kinds cause) := by
  refine like_current fun t t' ht => Like.at ?_ _
  rw [← L.kind_eq ht]
  split
  · rename_i hmem
    exact like_advance fun _ _ _ => like_pure (L.identifier_like ht (hkinds _ hmem))
  · exact like_fail (hcause _ _) ht

theorem like_endTag (keyword : Token.Kind) :
    L.Like (· = ·) (endTag keyword) (endTag keyword) :=
  (like_expect _).bind fun _ _ _ => (like_expect _).bind fun _ _ _ =>
    (like_expect _).map fun _ _ _ => rfl

/-! ### Repetition -/

/-- Steps from nodes that are alike are alike, at tokens of the same kind. -/
def StepsLike (L : Likeness) (step step' : Steps) : Prop := ∀ ⦃n n' : Node⦄, L.node n n' →
  ∀ kind, Option.Rel (L.LikeAt kind L.node) (step n kind) (step' n' kind)

/-- A repetition of steps that are alike goes through as many of them. -/
theorem like_extendFor {step step' : Steps} (hs : L.StepsLike step step') (rounds : Nat) :
    ∀ {n n' : Node}, L.node n n' →
      L.Like L.node (extendFor step rounds n) (extendFor step' rounds n') := by
  induction rounds with
  | zero => exact fun hn => like_pure hn
  | succ rounds ih =>
    intro n n' hn
    rw [extendFor, extendFor]
    refine like_current fun t t' ht => ?_
    have hstep := hs hn t.kind
    rw [← L.kind_eq ht]
    generalize step n t.kind = next at hstep ⊢
    generalize step' n' t.kind = next' at hstep ⊢
    cases hstep with
    | some h => exact h.bind fun _ _ hnext => ih hnext
    | none => exact (like_pure hn).at _

theorem like_extend {step step' : Steps} {first first' : Parser Node} (hs : L.StepsLike step step')
    (h : L.Like L.node first first') : L.Like L.node (extend step first) (extend step' first') :=
  h.bind fun _ _ hn => like_length fun rounds => like_extendFor hs rounds hn

/-- A level of operators whose values only get into the operators of nodes. -/
theorem like_infixed {operators : Token.Kind → Bool}
    (hoperators : ∀ kind, operators kind = true → isOperator kind = true)
    (h : L.Like L.node item item') :
    L.Like L.node (infixed operators item) (infixed operators item') := by
  refine like_extend (fun left left' hleft kind => ?_) h
  split
  · rename_i hkind
    exact .some (likeAt_advance fun t t' ht htkind =>
      h.map fun _ _ hright => L.binary_like ht (hoperators _ (htkind ▸ hkind)) hleft hright)
  · exact .none

/-- As many items are read from the two rows, and they are alike one by one. -/
theorem like_delimitedFor (close : Token.Kind) (h : L.Like V p q) (rounds : Nat) :
    L.Like (List.Forall₂ V) (delimitedFor close p rounds) (delimitedFor close q rounds) := by
  have closed : L.Like (List.Forall₂ V) (do let _ ← expect close; return [])
      (do let _ ← expect close; return []) := (like_expect close).map fun _ _ _ => .nil
  induction rounds with
  | zero => exact closed
  | succ rounds ih =>
    rw [delimitedFor, delimitedFor]
    refine like_current fun t t' ht => Like.at ?_ _
    rw [← L.kind_eq ht]
    split
    · exact closed
    refine like_atEnd fun b => like_guarded b (like_failHere _) (h.bind fun x x' hx => ?_)
    refine like_current fun t t' ht => Like.at ?_ _
    have later := ih.map fun _ _ hxs => List.Forall₂.cons hx hxs
    dsimp only
    rw [← L.kind_eq ht]
    split
    · exact like_advance fun _ _ _ => later
    split
    · exact (like_failHere _).bind fun (_ _ : Unit) (_ : True) => later
    · exact later

theorem like_delimited (close : Token.Kind) (h : L.Like V p q) :
    L.Like (List.Forall₂ V) (delimited close p) (delimited close q) :=
  like_length fun rounds => like_delimitedFor close h rounds

/-- As many pieces of a body are read from the two rows. -/
theorem like_piecesFor (ends : List Token.Kind) (missing : Token.Kind)
    (h : L.Like L.node item item') (rounds : Nat) :
    L.Like (List.Forall₂ L.node) (piecesFor ends missing item rounds)
      (piecesFor ends missing item' rounds) := by
  induction rounds with
  | zero => exact like_failHere _
  | succ rounds ih =>
    intro ts ts' hts
    rw [piecesFor, piecesFor, bind_of_ok (remaining_run ts), bind_of_ok (remaining_run ts')]
    simp only [← beginsWith_eq _ hts]
    split
    · exact .ok .nil hts
    · refine like_atEnd (fun b => like_guarded b (like_failHere _) ?_) hts
      exact h.bind fun _ _ hn => ih.map fun _ _ hns => .cons hn hns

theorem like_pieces (ends : List Token.Kind) (missing : Token.Kind) (h : L.Like L.node item item') :
    L.Like (List.Forall₂ L.node) (pieces ends missing item) (pieces ends missing item') :=
  like_length fun rounds => like_piecesFor ends missing h rounds

/-- As many pieces of a template are read from the two rows. -/
theorem like_allFor (h : L.Like L.node item item') (rounds : Nat) :
    L.Like (List.Forall₂ L.node) (allFor item rounds) (allFor item' rounds) := by
  induction rounds with
  | zero => exact like_pure .nil
  | succ rounds ih =>
    rw [allFor, allFor]
    refine like_atEnd fun b => ?_
    split
    · exact like_pure .nil
    · exact h.bind fun _ _ hn => ih.map fun _ _ hns => .cons hn hns

theorem like_all (h : L.Like L.node item item') :
    L.Like (List.Forall₂ L.node) (all item) (all item') :=
  like_length fun rounds => like_allFor h rounds

/-! ### Subscripts -/

/-- Subscripts of the same parts. -/
def SubscriptsLike (L : Likeness) (s s' : Subscript) : Prop :=
  List.Forall₂ (Option.Rel L.node) s.beforeColons s'.beforeColons ∧ Option.Rel L.node s.last s'.last

/-- As many parts are read from the two rows, absent at the same places. -/
theorem like_subscriptFor (h : L.Like L.node item item') (rounds : Nat) :
    L.Like L.SubscriptsLike (subscriptFor item rounds) (subscriptFor item' rounds) := by
  induction rounds with
  | zero => exact like_failHere _
  | succ rounds ih =>
    rw [subscriptFor, subscriptFor]
    refine like_current fun t t' ht => Like.at ?_ _
    have later {part part' : Option Node} (hpart : Option.Rel L.node part part') :=
      ih.map (W := L.SubscriptsLike)
        (m := fun later => { later with beforeColons := part :: later.beforeColons })
        (n := fun later => { later with beforeColons := part' :: later.beforeColons })
        fun _ _ hs => ⟨.cons hpart hs.1, hs.2⟩
    dsimp only
    rw [← L.kind_eq ht]
    split
    · exact like_pure ⟨.nil, .none⟩
    refine like_atEnd fun b => like_guarded b (like_failHere _) ?_
    split
    · exact like_advance fun _ _ _ => later .none
    refine h.bind fun n n' hn => like_current fun t t' ht => Like.at ?_ _
    rw [← L.kind_eq ht]
    split
    · exact like_advance fun _ _ _ => later (.some hn)
    split
    · exact like_pure ⟨.nil, .some hn⟩
    · exact like_failHere _

/-- The parts make an index, a slice, or the same failure. -/
theorem like_subscript (h : L.Like L.node item item') :
    L.Like L.node (subscript item) (subscript item') := by
  refine like_length fun rounds => (like_subscriptFor h rounds).bind ?_
  rintro ⟨before, last⟩ ⟨before', last'⟩ ⟨hbefore, hlast⟩
  have hparts : List.Forall₂ (Option.Rel L.node) (before ++ (last.map some).toList)
      (before' ++ (last'.map some).toList) := by
    refine List.rel_append hbefore ?_
    cases hlast with
    | some hn => exact .cons (.some hn) .nil
    | none => exact .nil
  cases hbefore with
  | nil =>
    cases hlast with
    | some hn => exact like_pure hn
    | none => exact like_failHere _
  | cons =>
    dsimp only
    -- a colon was there, so this is a slice of all the parts
    generalize _ ++ (last.map some).toList = parts at hparts ⊢
    generalize _ ++ (last'.map some).toList = parts' at hparts ⊢
    match hparts with
    | .nil => exact like_failHere _
    | .cons ha .nil => exact like_pure (L.slice_like ha .none .none)
    | .cons ha (.cons hb .nil) => exact like_pure (L.slice_like ha hb .none)
    | .cons ha (.cons hb (.cons hc .nil)) => exact like_pure (L.slice_like ha hb hc)
    | .cons ha (.cons hb (.cons hc (.cons hd hmore))) =>
      have hlength := (List.Forall₂.cons ha (.cons hb (.cons hc (.cons hd hmore)))).length_eq
      dsimp only
      rw [hlength]
      exact like_failHere _

/-! ### Rules -/

/-- Keys and values that are alike. -/
def EntriesLike (L : Likeness) (e e' : Node × Node) : Prop := L.node e.1 e'.1 ∧ L.node e.2 e'.2

/-- The rules of a depth respect the likeness. -/
structure RulesLike (L : Likeness) (d : Nat) : Prop where
  expression : L.Like L.node (expression d) (expression d)
  disjunction : L.Like L.node (disjunction d) (disjunction d)
  conjunction : L.Like L.node (conjunction d) (conjunction d)
  negation : L.Like L.node (negation d) (negation d)
  comparison : L.Like L.node (comparison d) (comparison d)
  sum : L.Like L.node (sum d) (sum d)
  product : L.Like L.node (product d) (product d)
  tested : L.Like L.node (tested d) (tested d)
  filtered : L.Like L.node (filtered d) (filtered d)
  applied : ∀ {n n'}, L.node n n' → L.Like L.node (applied d n) (applied d n')
  chained : L.Like L.node (chained d) (chained d)
  member : ∀ {n n'}, L.node n n' → L.Like L.node (member d n) (member d n')
  index : L.Like L.node (index d) (index d)
  call : ∀ {n n'}, L.node n n' → L.Like L.node (call d n) (call d n')
  arguments : L.Like (List.Forall₂ L.node) (arguments d) (arguments d)
  argument : L.Like L.node (argument d) (argument d)
  primary : L.Like L.node (primary d) (primary d)
  entry : L.Like L.EntriesLike (entry d) (entry d)
  piece : L.Like L.node (piece d) (piece d)
  output : L.Like L.node (output d) (output d)
  statement : L.Like L.node (statement d) (statement d)
  assignment : L.Like L.node (assignment d) (assignment d)
  branches : L.Like L.node (branches d) (branches d)
  loop : L.Like L.node (loop d) (loop d)

variable {d : Nat}

/-- A conditional expression is made of parts that are alike; so is each rule below of what it has
read, once the rules within it respect the likeness. -/
theorem expression_succ (h : L.RulesLike d) :
    L.Like L.node (expression (d + 1)) (expression (d + 1)) := by
  rw [expression]
  refine h.disjunction.bind fun v v' hv => like_current fun t t' ht => Like.at ?_ _
  rw [← L.kind_eq ht]
  split
  · exact like_advance fun _ _ _ => h.disjunction.bind fun _ _ htest =>
      (like_expect _).bind fun _ _ _ => h.disjunction.map fun _ _ ha =>
        L.conditional_like htest (.cons hv .nil) (.cons ha .nil)
  · exact like_pure hv

theorem negation_succ (h : L.RulesLike d) :
    L.Like L.node (negation (d + 1)) (negation (d + 1)) := by
  rw [negation]
  refine like_current fun t t' ht => ?_
  rw [← L.kind_eq ht]
  split
  · rename_i hkind
    rw [hkind]
    exact likeAt_advance fun o o' ho hokind =>
      h.negation.map fun _ _ hn => L.unary_like ho (hokind ▸ rfl) hn
  · exact h.comparison.at _

/-- The name of a test is a word, whose value gets into a leaf. -/
theorem tested_succ (h : L.RulesLike d) : L.Like L.node (tested (d + 1)) (tested (d + 1)) := by
  rw [tested]
  refine like_extend (fun n n' hn kind => ?_) h.filtered
  split
  · refine .some (Like.at (like_advance fun _ _ _ => like_current fun t t' ht => Like.at ?_ _) _)
    have name (negated : Bool) : L.Like L.node
        (do return .test n negated (← applied d (← nameOf [.identifier, .boolean] .testName)))
        (do return .test n' negated (← applied d (← nameOf [.identifier, .boolean] .testName))) :=
      (like_nameOf (by simp) fun _ _ => rfl).bind fun _ _ hname =>
        (h.applied hname).map fun _ _ htest => L.test_like negated hn htest
    simp only [decide_eq_true_eq, ← L.kind_eq ht]
    split
    · exact like_advance fun _ _ _ => name _
    · exact name _
  · exact .none

theorem filtered_succ (h : L.RulesLike d) :
    L.Like L.node (filtered (d + 1)) (filtered (d + 1)) := by
  rw [filtered]
  refine like_extend (fun n n' hn kind => ?_) h.chained
  split
  · exact .some (Like.at (like_advance fun _ _ _ => (like_nameOf (by simp) fun _ _ => rfl).bind
      fun _ _ hname => (h.applied hname).map fun _ _ hfilter => L.filter_like hn hfilter) _)
  · exact .none

theorem applied_succ (h : L.RulesLike d) {n n' : Node} (hn : L.node n n') :
    L.Like L.node (applied (d + 1) n) (applied (d + 1) n') := by
  rw [applied, applied]
  refine like_current fun t t' ht => Like.at ?_ _
  rw [← L.kind_eq ht]
  split
  · exact h.call hn
  · exact like_pure hn

theorem chained_succ (h : L.RulesLike d) : L.Like L.node (chained (d + 1)) (chained (d + 1)) := by
  rw [chained]
  refine like_extend (fun n n' hn kind => ?_) h.primary
  cases kind with
  | dot | leftBracket => exact .some ((h.member hn).at _)
  | leftParen => exact .some ((h.call hn).at _)
  | _ => exact .none

theorem member_succ (h : L.RulesLike d) {n n' : Node} (hn : L.node n n') :
    L.Like L.node (member (d + 1) n) (member (d + 1) n') := by
  rw [member, member]
  refine like_advance fun t t' ht => ?_
  rw [← L.kind_eq ht]
  split
  · exact (like_nameOf (by simp) fun _ _ => rfl).map fun _ _ hname => L.member_like false hn hname
  · exact h.index.bind fun _ _ hindex => (like_expect _).map fun _ _ _ => L.member_like true hn hindex

theorem call_succ (h : L.RulesLike d) {n n' : Node} (hn : L.node n n') :
    L.Like L.node (call (d + 1) n) (call (d + 1) n') := by
  rw [call, call]
  refine like_extend (fun n n' hn kind => ?_) (h.arguments.map fun _ _ hargs => L.call_like hn hargs)
  split
  · exact .some ((h.arguments.map fun _ _ hargs => L.call_like hn hargs).at _)
  · exact .none

/-- An argument is a keyword argument in both rows, or a plain one in both, and blames the tokens
that it began with. -/
theorem argument_succ (h : L.RulesLike d) :
    L.Like L.node (argument (d + 1)) (argument (d + 1)) := by
  rw [argument]
  refine like_current fun start start' hstart => Like.at ?_ _
  refine h.expression.bind fun n n' hn => like_current fun t t' ht => Like.at ?_ _
  rw [← L.kind_eq ht]
  split
  · refine like_advance fun _ _ _ => ?_
    rw [← isIdentifier_eq hn, ← L.nodeKind_eq hn]
    split
    · exact h.expression.map fun _ _ hv => L.keyword_like hn hv
    · exact like_fail rfl hstart
  · exact like_pure hn

/-- The literals are read from the values of tokens that are alike; this is where a likeness says
what it keeps of a value. -/
theorem primary_succ (h : L.RulesLike d) : L.Like L.node (primary (d + 1)) (primary (d + 1)) := by
  rw [primary]
  refine like_current fun t t' ht => Like.at ?_ _
  refine like_atEnd fun b => like_guarded b (like_fail rfl ht) ?_
  rw [← L.kind_eq ht]
  cases hkind : t.kind with
  | number =>
    refine like_advance fun _ _ _ => ?_
    have hread := L.number_like ht hkind
    generalize Numeral.read t.value = read at hread ⊢
    generalize Numeral.read t'.value = read' at hread ⊢
    cases hread with
    | ok hv => exact like_pure hv
    | error e e' => exact fun _ _ hts => .error (.numeral e e') hts
  | string => exact like_advance fun _ _ _ => like_pure (L.string_like ht (.inl hkind))
  | boolean => exact like_advance fun _ _ _ => like_pure (L.boolean_like ht hkind)
  | identifier => exact like_advance fun _ _ _ => like_pure (L.identifier_like ht (.inl hkind))
  | leftParen =>
    exact like_advance fun _ _ _ => h.expression.bind fun _ _ hn =>
      (like_expect _).map fun _ _ _ => hn
  | leftBracket =>
    exact like_advance fun _ _ _ =>
      (like_delimited _ h.expression).map fun _ _ hns => L.array_like hns
  | leftBrace =>
    exact like_advance fun _ _ _ => (like_delimited _ h.entry).map fun _ _ hes => L.object_like hes
  | _ => exact like_fail rfl ht

theorem entry_succ (h : L.RulesLike d) : L.Like L.EntriesLike (entry (d + 1)) (entry (d + 1)) := by
  rw [entry]
  exact h.expression.bind fun _ _ hkey => (like_expect _).bind fun _ _ _ =>
    h.expression.map fun _ _ hvalue => ⟨hkey, hvalue⟩

theorem piece_succ (h : L.RulesLike d) : L.Like L.node (piece (d + 1)) (piece (d + 1)) := by
  rw [piece]
  refine like_current fun t t' ht => Like.at ?_ _
  rw [← L.kind_eq ht]
  cases hkind : t.kind with
  | text => exact like_advance fun _ _ _ => like_pure (L.string_like ht (.inr hkind))
  | openStatement => exact h.statement
  | openExpression => exact h.output
  | _ => exact like_fail rfl ht

theorem output_succ (h : L.RulesLike d) : L.Like L.node (output (d + 1)) (output (d + 1)) := by
  rw [output]
  exact (like_expect _).bind fun _ _ _ => h.expression.bind fun _ _ hn =>
    (like_expect _).map fun _ _ _ => hn

/-- A statement is chosen by the kind of its keyword. -/
theorem statement_succ (h : L.RulesLike d) :
    L.Like L.node (statement (d + 1)) (statement (d + 1)) := by
  rw [statement]
  refine (like_expect _).bind fun _ _ _ => like_current fun t t' ht => Like.at ?_ _
  rw [← L.kind_eq ht]
  cases t.kind with
  | kwSet =>
    exact like_advance fun _ _ _ => h.assignment.bind fun _ _ hn =>
      (like_expect _).map fun _ _ _ => hn
  | kwIf =>
    exact like_advance fun _ _ _ => h.branches.bind fun _ _ hn =>
      (like_endTag _).map fun _ _ _ => hn
  | kwFor =>
    exact like_advance fun _ _ _ => h.loop.bind fun _ _ hn => (like_endTag _).map fun _ _ _ => hn
  | _ => exact like_fail rfl ht

theorem assignment_succ (h : L.RulesLike d) :
    L.Like L.node (assignment (d + 1)) (assignment (d + 1)) := by
  rw [assignment]
  refine h.expression.bind fun n n' hn => like_current fun t t' ht => Like.at ?_ _
  rw [← L.kind_eq ht]
  split
  · exact like_advance fun _ _ _ => h.assignment.map fun _ _ hv => L.assignment_like hn hv
  · exact like_pure hn

/-- The tags of a conditional are found by their kinds. -/
theorem branches_succ (h : L.RulesLike d) :
    L.Like L.node (branches (d + 1)) (branches (d + 1)) := by
  rw [branches]
  refine h.expression.bind fun test test' htest => (like_expect _).bind fun _ _ _ =>
    (like_pieces _ _ h.piece).bind fun body body' hbody => like_sees _ fun b => ?_
  split
  · exact like_advance fun _ _ _ => like_advance fun _ _ _ => h.branches.map fun _ _ hn =>
      L.conditional_like htest hbody (.cons hn .nil)
  · refine like_sees _ fun b => ?_
    split
    · exact like_advance fun _ _ _ => like_advance fun _ _ _ => (like_expect _).bind fun _ _ _ =>
        (like_pieces _ _ h.piece).map fun _ _ halternate => L.conditional_like htest hbody halternate
    · exact like_pure (L.conditional_like htest hbody .nil)

/-- The variable of a loop is a name in both rows, or in neither. -/
theorem loop_succ (h : L.RulesLike d) : L.Like L.node (loop (d + 1)) (loop (d + 1)) := by
  rw [loop]
  refine like_current fun start start' hstart => Like.at ?_ _
  refine h.chained.bind fun v v' hv => ?_
  rw [← isIdentifier_eq hv, ← L.nodeKind_eq hv]
  split
  · exact (like_expect _).bind fun _ _ _ => h.expression.bind fun _ _ hi =>
      (like_expect _).bind fun _ _ _ => (like_pieces _ _ h.piece).map fun _ _ hbody =>
        L.loop_like hv hi hbody
  · exact like_fail rfl hstart

/-- Without depth every rule fails at once, for the same cause. -/
theorem rules_like_zero (L : Likeness) : L.RulesLike 0 := by
  have tooDeep : L.Like L.node tooDeep tooDeep := like_failHere _
  have arguments : L.Like (List.Forall₂ L.node) (arguments 0) (arguments 0) :=
    tooDeep.map fun _ _ hn => .cons hn .nil
  have entry : L.Like L.EntriesLike (entry 0) (entry 0) :=
    Like.map (V := fun _ _ => False) (like_failHere _) fun _ _ h => h.elim
  constructor <;> first | exact tooDeep | exact fun _ => tooDeep | exact arguments | exact entry

/-- **The rules respect every likeness.** -/
theorem rules_like (L : Likeness) : ∀ d, L.RulesLike d
  | 0 => L.rules_like_zero
  | d + 1 =>
    have h := L.rules_like d
    { expression := expression_succ h
      disjunction := by rw [disjunction]; exact like_infixed (by simp [isOperator]) h.conjunction
      conjunction := by rw [conjunction]; exact like_infixed (by simp [isOperator]) h.negation
      negation := negation_succ h
      comparison := by
        rw [comparison]
        refine like_infixed (fun kind hkind => ?_) h.sum
        cases kind <;> first | rfl | cases hkind
      sum := by rw [sum]; exact like_infixed (by simp [isOperator]) h.product
      product := by rw [product]; exact like_infixed (by simp [isOperator]) h.tested
      tested := tested_succ h
      filtered := filtered_succ h
      applied := applied_succ h
      chained := chained_succ h
      member := member_succ h
      index := by rw [index]; exact like_subscript h.expression
      call := call_succ h
      arguments := by
        rw [arguments]
        exact (like_expect _).bind fun _ _ _ => like_delimited _ h.argument
      argument := argument_succ h
      primary := primary_succ h
      entry := entry_succ h
      piece := piece_succ h
      output := output_succ h
      statement := statement_succ h
      assignment := assignment_succ h
      branches := branches_succ h
      loop := loop_succ h }

/-! ### Whole templates -/

/-- The rule for whole templates respects the likeness. -/
theorem run_program_like (L : Likeness) : L.Like L.node program program :=
  (like_all (L.rules_like depthLimit).piece).map fun _ _ hns => L.program_like hns

variable {ts ts' : List Token}

theorem dropEnd_singleton (t : Token) :
    dropEnd [t] = if t.kind = .endOfInput then [] else [t] := by
  simp [dropEnd]

theorem dropEnd_cons_cons (t u : Token) (ts : List Token) :
    dropEnd (t :: u :: ts) = t :: dropEnd (u :: ts) := by
  unfold dropEnd
  rw [List.getLast?_cons_cons, List.dropLast_cons_cons]
  split <;> rfl

/-- An end of the input is dropped from both rows or from neither. -/
theorem dropEnd_like (h : List.Forall₂ L.token ts ts') :
    List.Forall₂ L.token (dropEnd ts) (dropEnd ts') := by
  induction h with
  | nil => exact .nil
  | @cons t t' ts ts' ht hts ih =>
    cases hts with
    | nil =>
      rw [dropEnd_singleton, dropEnd_singleton, ← L.kind_eq ht]
      split
      · exact .nil
      · exact .cons ht .nil
    | cons hu hts =>
      rw [dropEnd_cons_cons, dropEnd_cons_cons]
      exact .cons ht ih

/-- **Tokens that are alike are parsed alike**: to trees that are alike, or to failures that are. -/
theorem parse_like (h : List.Forall₂ L.token ts ts') :
    (∃ n n', parse ts = .ok n ∧ parse ts' = .ok n' ∧ L.node n n') ∨
      ∃ e e', parse ts = .error e ∧ parse ts' = .error e' ∧ L.Fails e e' := by
  have hagree := L.run_program_like (dropEnd_like h)
  unfold parse
  generalize program.run (dropEnd ts) = r at hagree ⊢
  generalize program.run (dropEnd ts') = r' at hagree ⊢
  cases hagree with
  | ok hn => exact .inl ⟨_, _, rfl, rfl, hn⟩
  | error he => exact .inr ⟨_, _, rfl, rfl, he⟩

end Likeness

end Stencil.Parser
