import Stencil.Proofs.Grammar.Parsing
import Stencil.Proofs.Number.Readable

/-!
# Grammar — which trees there are

A tree made by hand may put any node anywhere; `WellFormed` says which nodes a template has in which
place.  What the grammar derives is well formed (`Derives.fits`), and every well-formed tree is
derived from some tokens (`WellFormed.derivable`): any expression can be written between parentheses,
and then it may stand wherever an expression may.
-/

namespace Stencil.Grammar
open Stencil.Parser Filter

/-- The places where a node may stand. -/
inductive Place
  | template
  | statement
  /-- Behind the equals sign of an assignment. -/
  | assigned
  | expression
  | argument
  /-- Between the brackets behind an object. -/
  | index
  /-- Behind the mark of a test or a filter. -/
  | applied

/-- The node may stand in the place, and what is inside it too. -/
inductive WellFormed : Place → Node → Prop
  -- expressions
  | number {v : Number} : v.Readable → WellFormed .expression (.number v)
  | string (s : String) : WellFormed .expression (.string s)
  | boolean (b : Bool) : WellFormed .expression (.boolean b)
  | identifier (name : String) : WellFormed .expression (.identifier name)
  | array {ns : List Node} : (∀ n ∈ ns, WellFormed .expression n) →
      WellFormed .expression (.array ns)
  | object {ps : List (Node × Node)} : (∀ p ∈ ps, WellFormed .expression p.1) →
      (∀ p ∈ ps, WellFormed .expression p.2) → WellFormed .expression (.object ps)
  | property {n : Node} (name : String) : WellFormed .expression n →
      WellFormed .expression (.member n (.identifier name) false)
  | subscript {n p : Node} : WellFormed .expression n → WellFormed .index p →
      WellFormed .expression (.member n p true)
  | call {f : Node} {args : List Node} : WellFormed .expression f →
      (∀ n ∈ args, WellFormed .argument n) → WellFormed .expression (.call f args)
  | binary {a b : Node} (operator : String) : WellFormed .expression a → WellFormed .expression b →
      WellFormed .expression (.binary operator a b)
  | unary {n : Node} (operator : String) : WellFormed .expression n →
      WellFormed .expression (.unary operator n)
  | inline {test value other : Node} : WellFormed .expression test → WellFormed .expression value →
      WellFormed .expression other → WellFormed .expression (.conditional test [value] [other])
  | filter {n f : Node} : WellFormed .expression n → WellFormed .applied f →
      WellFormed .expression (.filter n f)
  | test {n f : Node} (negated : Bool) : WellFormed .expression n → WellFormed .applied f →
      WellFormed .expression (.test n negated f)
  -- names of tests and filters
  | name (name : String) : WellFormed .applied (.identifier name)
  | applied {f : Node} {args : List Node} : WellFormed .applied f →
      (∀ n ∈ args, WellFormed .argument n) → WellFormed .applied (.call f args)
  -- between brackets
  | positional {n : Node} : WellFormed .expression n → WellFormed .argument n
  | keyword {v : Node} (key : String) : WellFormed .expression v →
      WellFormed .argument (.keyword (.identifier key) v)
  | index {n : Node} : WellFormed .expression n → WellFormed .index n
  | slice {start stop step : Option Node} : (∀ n ∈ start, WellFormed .expression n) →
      (∀ n ∈ stop, WellFormed .expression n) → (∀ n ∈ step, WellFormed .expression n) →
      WellFormed .index (.slice start stop step)
  -- statements
  | output {n : Node} : WellFormed .expression n → WellFormed .statement n
  | set {target value : Node} : WellFormed .expression target → WellFormed .assigned value →
      WellFormed .statement (.assignment target value)
  | conditional {test : Node} {body alternate : List Node} : WellFormed .expression test →
      (∀ n ∈ body, WellFormed .statement n) → (∀ n ∈ alternate, WellFormed .statement n) →
      WellFormed .statement (.conditional test body alternate)
  | loop {iterable : Node} {body : List Node} (variable_ : String) : WellFormed .expression iterable →
      (∀ n ∈ body, WellFormed .statement n) →
      WellFormed .statement (.loop (.identifier variable_) iterable body)
  | value {n : Node} : WellFormed .expression n → WellFormed .assigned n
  | chain {target value : Node} : WellFormed .expression target → WellFormed .assigned value →
      WellFormed .assigned (.assignment target value)
  | template {body : List Node} : (∀ n ∈ body, WellFormed .statement n) →
      WellFormed .template (.program body)

/-! ### What is derived is well formed -/

/-- The item may stand where it does. -/
abbrev Item.Fits : (i : Item) → i.Tree → Prop
  | element, n => WellFormed .expression n
  | argument, n => WellFormed .argument n
  | entry, p => WellFormed .expression p.1 ∧ WellFormed .expression p.2

/-- What a rule builds may stand where the rule does. -/
abbrev Rule.Fits : (r : Rule) → r.Tree → Prop
  | level _, n => WellFormed .expression n
  | applied _, n => WellFormed .applied n
  | index, n => WellFormed .index n
  | part, p => ∀ n ∈ p, WellFormed .expression n
  | slice, ps => ∀ p ∈ ps, ∀ n ∈ p, WellFormed .expression n
  | item i, x => i.Fits x
  | items i, xs | enclosed i, xs => ∀ x ∈ xs, i.Fits x
  | assignment, n => WellFormed .assigned n
  | branches, n | piece, n => WellFormed .statement n
  | body, ns => ∀ n ∈ ns, WellFormed .statement n

/-- What may be assigned may stand as a statement's node. -/
theorem WellFormed.statement_of_assigned {n : Node} : WellFormed .assigned n →
    WellFormed .statement n
  | .value h => .output h
  | .chain ht hv => .set ht hv

/-- Parts that are well formed make a slice that is. -/
theorem wellFormed_sliceOf {parts : List (Option Node)}
    (h : ∀ part ∈ parts, ∀ n ∈ part, WellFormed .expression n) :
    WellFormed .index (sliceOf parts) := by
  have part (i : Nat) : ∀ n ∈ parts[i]?.join, WellFormed .expression n := fun n hn =>
    h (some n) (List.mem_of_getElem? (Option.join_eq_some_iff.mp hn)) n rfl
  exact .slice (part 0) (part 1) (part 2)

/-- **What the grammar derives is well formed.** -/
theorem Derives.fits {r : Rule} {ts : List Token} {v : r.Tree} (h : Derives r ts v) :
    r.Fits v := by
  induction h with
  | tighter _ _ ih => exact ih
  | inline _ _ _ _ _ hvalue htest hother => exact .inline htest hvalue hother
  | operator _ _ _ _ ha hb => exact .binary _ ha hb
  | not _ _ ih => exact .unary _ ih
  | test _ _ _ hn hf => exact .test false hn hf
  | testNot _ _ _ _ hn hf => exact .test true hn hf
  | filter _ _ _ hn hf => exact .filter hn hf
  | property _ _ _ hn => exact .property _ hn
  | subscript _ _ _ _ hn hp => exact .subscript hn hp
  | call _ _ hf hargs => exact .call hf hargs
  | number _ hv => exact .number (Number.readable_iff_exists_numeral.mpr ⟨_, hv⟩)
  | string => exact .string _
  | boolean => exact .boolean _
  | identifier => exact .identifier _
  | parenthesis _ _ _ ih => exact ih
  | array _ ih => exact .array ih
  | object _ ih => exact .object (fun p hp => (ih p hp).1) fun p hp => (ih p hp).2
  | name => exact .name _
  | applied _ _ hf hargs => exact .applied hf hargs
  | index _ ih => exact .index ih
  | slice _ _ ih => exact wellFormed_sliceOf ih
  | absent => exact fun _ hn => nomatch hn
  | present _ ih => exact fun n hn => Option.some.inj hn ▸ ih
  | sliceEnd _ _ hpart => exact List.forall_mem_singleton.mpr hpart
  | sliceLast _ _ _ hpart hn =>
    refine List.forall_mem_cons.mpr ⟨hpart, List.forall_mem_singleton.mpr fun m hm => ?_⟩
    exact Option.some.inj hm ▸ hn
  | sliceMore _ _ _ hpart hparts => exact List.forall_mem_cons.mpr ⟨hpart, hparts⟩
  | element _ ih => exact ih
  | positional _ ih => exact .positional ih
  | keyword _ _ _ _ hv => exact .keyword _ hv
  | entry _ _ _ hk hv => exact ⟨hk, hv⟩
  | itemsNil => exact fun _ hx => nomatch hx
  | itemsLast _ ih => exact List.forall_mem_singleton.mpr ih
  | itemsMore _ _ _ hx hxs => exact List.forall_mem_cons.mpr ⟨hx, hxs⟩
  | enclosed _ _ _ ih => exact ih
  | plain _ ih => exact .value ih
  | assign _ _ _ ht hv => exact .chain ht hv
  | noElse _ _ _ htest hbody => exact .conditional htest hbody fun _ hn => nomatch hn
  | elseIf _ _ _ _ _ _ htest hbody hother =>
    exact .conditional htest hbody (List.forall_mem_singleton.mpr hother)
  | elseBody _ _ _ _ _ _ _ htest hbody hother => exact .conditional htest hbody hother
  | text => exact .output (.string _)
  | output _ _ _ ih => exact .output ih
  | set _ _ _ _ ih => exact ih.statement_of_assigned
  | conditional _ _ _ _ _ _ ih => exact ih
  | loop _ _ _ _ _ _ _ _ _ _ _ hiter hbody => exact .loop _ hiter hbody
  | bodyNil => exact fun _ hn => nomatch hn
  | bodyMore _ _ hn hns => exact List.forall_mem_cons.mpr ⟨hn, hns⟩

/-! ### What is well formed is derived -/

/-- Some tokens are derived with the node in its place. -/
abbrev Place.Derivable : Place → Node → Prop
  | template, n => ∃ body ts, n = .program body ∧ Derives .body ts body
  | statement, n => ∃ ts, Derives .piece ts n
  | assigned, n => ∃ ts, Derives .assignment ts n
  | expression, n => ∃ ts, Derives (.level .primary) ts n
  | argument, n => ∃ ts, Derives (.item .argument) ts n
  | index, n => ∃ ts, Derives .index ts n
  | applied, n => ∀ names, .identifier ∈ names → ∃ ts, Derives (.applied names) ts n

/-- A token of a kind with a spelling, without a place. -/
def word (kind : Token.Kind) (value : String) : Token := ⟨kind, value, 0, 0⟩

variable {l : Level} {ts : List Token} {n : Node}

/-- A primary stands at every level. -/
theorem Derives.of_primary (h : Derives (.level .primary) ts n) : Derives (.level l) ts n :=
  h.loosen (Nat.zero_le _)

/-- Any expression may stand between parentheses. -/
theorem exists_parenthesised (h : Derives (.level l) ts n) : Place.expression.Derivable n :=
  ⟨word .leftParen "(" :: (ts ++ [word .rightParen ")"]),
    .parenthesis rfl (h.loosen (by cases l <;> decide)) rfl⟩

/-- Nodes that can each be derived can be derived with commas between them. -/
theorem exists_items {i : Item} {xs : List i.Tree} (h : ∀ x ∈ xs, ∃ ts, Derives (.item i) ts x) :
    ∃ ts, Derives (.items i) ts xs := by
  induction xs with
  | nil => exact ⟨[], .itemsNil⟩
  | cons x xs ih =>
    obtain ⟨⟨ts, hx⟩, hxs⟩ := List.forall_mem_cons.mp h
    obtain ⟨us, hxs⟩ := ih hxs
    exact ⟨ts ++ word .comma "," :: us, .itemsMore hx rfl hxs⟩

theorem exists_enclosed {i : Item} {xs : List i.Tree}
    (h : ∀ x ∈ xs, ∃ ts, Derives (.item i) ts x) : ∃ ts, Derives (.enclosed i) ts xs := by
  obtain ⟨ts, hts⟩ := exists_items h
  exact ⟨word i.opening "" :: (ts ++ [word i.closing ""]), .enclosed rfl hts rfl⟩

/-- Pieces that can each be derived can be derived in a row. -/
theorem exists_body {ns : List Node} (h : ∀ n ∈ ns, ∃ ts, Derives .piece ts n) :
    ∃ ts, Derives .body ts ns := by
  induction ns with
  | nil => exact ⟨[], .bodyNil⟩
  | cons n ns ih =>
    obtain ⟨⟨ts, hn⟩, hns⟩ := List.forall_mem_cons.mp h
    obtain ⟨us, hns⟩ := ih hns
    exact ⟨ts ++ us, .bodyMore hn hns⟩

/-- A part that is absent is derived from nothing. -/
theorem exists_part : ∀ {p : Option Node}, (∀ n ∈ p, Place.expression.Derivable n) →
    ∃ ts, Derives .part ts p
  | none, _ => ⟨[], .absent⟩
  | some n, h => by
      obtain ⟨ts, hn⟩ := h n rfl
      exact ⟨ts, .present hn.of_primary⟩

/-- A slice is derived from its parts with two colons. -/
theorem exists_slice {start stop step : Option Node}
    (hstart : ∀ n ∈ start, Place.expression.Derivable n)
    (hstop : ∀ n ∈ stop, Place.expression.Derivable n)
    (hstep : ∀ n ∈ step, Place.expression.Derivable n) :
    Place.index.Derivable (.slice start stop step) := by
  obtain ⟨ts, hstart⟩ := exists_part hstart
  obtain ⟨us, hstop⟩ := exists_part hstop
  cases step with
  | none =>
    have parts := hstart.sliceMore (c := word .colon ":") rfl (hstop.sliceEnd (c := word .colon ":") rfl)
    exact ⟨_, parts.slice (by simp)⟩
  | some n =>
    obtain ⟨vs, hstep⟩ := hstep n rfl
    have parts := hstart.sliceMore (c := word .colon ":") rfl
      (hstop.sliceLast (c := word .colon ":") rfl hstep.of_primary)
    exact ⟨_, parts.slice (by simp)⟩

/-- The token that opens a statement tag, and the one that closes it. -/
def openTag : Token := word .openStatement "\x7b%"

@[inherit_doc openTag]
def closeTag : Token := word .closeStatement "%\x7d"

/-- A conditional is derived from its condition, its body and an `else` with the alternative. -/
theorem exists_conditional {us vs : List Token} {test : Node} {body other : List Node}
    (htest : Derives (.level .primary) ts test) (hbody : Derives .body us body)
    (hother : Derives .body vs other) :
    Place.statement.Derivable (.conditional test body other) := by
  have branches : Derives .branches
      (ts ++ closeTag :: (us ++ openTag :: word .kwElse "else" :: closeTag :: vs))
      (Node.conditional test body other) :=
    .elseBody htest.of_primary rfl hbody rfl rfl rfl hother
  exact ⟨openTag :: word .kwIf "if" :: (_ ++ [openTag, word .kwEndif "endif", closeTag]),
    .conditional rfl rfl branches rfl rfl rfl⟩

/-- A loop is derived from its variable, what it runs over, and its body. -/
theorem exists_loop {us : List Token} {iterable : Node} {body : List Node} (name : String)
    (hiter : Derives (.level .primary) ts iterable) (hbody : Derives .body us body) :
    Place.statement.Derivable (.loop (.identifier name) iterable body) := by
  have hname : Derives (.level .primary) [word .identifier name] (.identifier name) :=
    .identifier rfl
  exact ⟨openTag :: word .kwFor "for" :: ([word .identifier name] ++ word .kwIn "in" ::
      (ts ++ closeTag :: (us ++ [openTag, word .kwEndfor "endfor", closeTag]))),
    .loop rfl rfl hname.of_primary rfl hiter.of_primary rfl hbody rfl rfl rfl⟩

/-- **Every well-formed node is derived in its place.** -/
theorem WellFormed.derivable {place : Place} (h : WellFormed place n) : place.Derivable n := by
  induction h with
  | number hv =>
    obtain ⟨text, htext⟩ := Number.readable_iff_exists_numeral.mp hv
    exact ⟨[word .number text], .number rfl htext⟩
  | string s => exact ⟨[word .string s], .string rfl⟩
  | boolean b =>
    cases b with
    | true => exact ⟨[word .boolean "true"], .boolean rfl⟩
    | false => exact ⟨[word .boolean "false"], .boolean rfl⟩
  | identifier name => exact ⟨[word .identifier name], .identifier rfl⟩
  | array _ ih =>
    obtain ⟨ts, hts⟩ := exists_enclosed (i := .element) fun n hn => (ih n hn).imp fun _ h =>
      .element h.of_primary
    exact ⟨ts, .array hts⟩
  | object _ _ hkeys hvalues =>
    obtain ⟨ts, hts⟩ := exists_enclosed (i := .entry) fun p hp => by
      obtain ⟨us, hk⟩ := hkeys p hp
      obtain ⟨vs, hv⟩ := hvalues p hp
      exact ⟨us ++ word .colon ":" :: vs, .entry hk.of_primary rfl hv.of_primary⟩
    exact ⟨ts, .object hts⟩
  -- what is no primary stands in parentheses, so that it may stand anywhere
  | property name _ ih =>
    obtain ⟨ts, hn⟩ := ih
    exact exists_parenthesised (hn.of_primary.property (d := word .dot ".")
      (t := word .identifier name) rfl rfl)
  | subscript _ _ hn hp =>
    obtain ⟨ts, hn⟩ := hn
    obtain ⟨us, hp⟩ := hp
    exact exists_parenthesised (hn.of_primary.subscript (o := word .leftBracket "[")
      (c := word .rightBracket "]") rfl hp rfl)
  | call _ _ hf hargs =>
    obtain ⟨ts, hf⟩ := hf
    obtain ⟨us, hargs⟩ := exists_enclosed (i := .argument) hargs
    exact exists_parenthesised (hf.of_primary.call hargs)
  -- an operator of any text: the kind of its token is that of some level
  | binary operator _ _ ha hb =>
    obtain ⟨ts, ha⟩ := ha
    obtain ⟨us, hb⟩ := hb
    exact exists_parenthesised (.operator (l := .disjunction) (o := word .kwOr operator) rfl
      ha.of_primary rfl hb.of_primary)
  | unary operator _ ih =>
    obtain ⟨ts, hn⟩ := ih
    exact exists_parenthesised (.not (o := word .kwNot operator) rfl hn.of_primary)
  | inline _ _ _ htest hvalue hother =>
    obtain ⟨ts, htest⟩ := htest
    obtain ⟨us, hvalue⟩ := hvalue
    obtain ⟨vs, hother⟩ := hother
    exact exists_parenthesised (.inline (i := word .kwIf "if") (e := word .kwElse "else")
      hvalue.of_primary rfl htest.of_primary rfl hother.of_primary)
  | filter _ _ hn hf =>
    obtain ⟨ts, hn⟩ := hn
    obtain ⟨us, hf⟩ := hf [.identifier] (by decide)
    exact exists_parenthesised (hn.of_primary.filter (p := word .pipe "|") rfl hf)
  | test negated _ _ hn hf =>
    obtain ⟨ts, hn⟩ := hn
    obtain ⟨us, hf⟩ := hf [.identifier, .boolean] (by decide)
    cases negated with
    | true =>
      exact exists_parenthesised (hn.of_primary.testNot (i := word .kwIs "is")
        (o := word .kwNot "not") rfl rfl hf)
    | false => exact exists_parenthesised (hn.of_primary.test (i := word .kwIs "is") rfl hf)
  | name name => exact fun names hnames => ⟨[word .identifier name], .name hnames⟩
  | applied _ _ hf hargs =>
    intro names hnames
    obtain ⟨ts, hf⟩ := hf names hnames
    obtain ⟨us, hargs⟩ := exists_enclosed (i := .argument) hargs
    exact ⟨ts ++ us, hf.applied hargs⟩
  | positional _ ih =>
    obtain ⟨ts, hn⟩ := ih
    exact ⟨ts, .positional hn.of_primary⟩
  | keyword key _ ih =>
    obtain ⟨ts, hv⟩ := ih
    have hkey : Derives (.level .primary) [word .identifier key] (.identifier key) :=
      .identifier rfl
    exact ⟨_, .keyword (e := word .equals "=") hkey.of_primary rfl hv.of_primary⟩
  | index _ ih =>
    obtain ⟨ts, hn⟩ := ih
    exact ⟨ts, .index hn.of_primary⟩
  | slice _ _ _ hstart hstop hstep => exact exists_slice hstart hstop hstep
  | output _ ih =>
    obtain ⟨ts, hn⟩ := ih
    exact ⟨_, .output (o := word .openExpression "\x7b\x7b") (c := word .closeExpression "\x7d\x7d")
      rfl hn.of_primary rfl⟩
  | set _ _ ht hv =>
    obtain ⟨ts, ht⟩ := ht
    obtain ⟨us, hv⟩ := hv
    have whole := Derives.assign (e := word .equals "=") ht.of_primary rfl hv
    exact ⟨_, .set (o := openTag) (w := word .kwSet "set") (c := closeTag) rfl rfl whole rfl⟩
  | conditional _ _ _ htest hbody halternate =>
    obtain ⟨ts, htest⟩ := htest
    obtain ⟨us, hbody⟩ := exists_body hbody
    obtain ⟨vs, halternate⟩ := exists_body halternate
    exact exists_conditional htest hbody halternate
  | loop name _ _ hiter hbody =>
    obtain ⟨ts, hiter⟩ := hiter
    obtain ⟨us, hbody⟩ := exists_body hbody
    exact exists_loop name hiter hbody
  | value _ ih =>
    obtain ⟨ts, hn⟩ := ih
    exact ⟨ts, .plain hn.of_primary⟩
  | chain _ _ ht hv =>
    obtain ⟨ts, ht⟩ := ht
    obtain ⟨us, hv⟩ := hv
    exact ⟨_, .assign (e := word .equals "=") ht.of_primary rfl hv⟩
  | template _ ih =>
    obtain ⟨ts, hbody⟩ := exists_body ih
    exact ⟨_, ts, rfl, hbody⟩

/-! ### The trees of templates -/

/-- **The trees of templates are the well-formed trees.**  Every tree that is parsed is well formed,
and for every well-formed tree there are tokens that are parsed to it within every limit from some
limit on, so at the limit that there is unless they are nested too deep for it. -/
theorem parse_image (n : Node) : (∀ ts, parse ts = .ok n → WellFormed .template n) ∧
    (WellFormed .template n → ∃ ts, (∀ᶠ limit in atTop, parseWithin limit ts = .ok n) ∧
      (parse ts = .ok n ∨ NestedTooDeep ts)) := by
  refine ⟨fun ts h => ?_, fun h => ?_⟩
  · obtain ⟨body, rfl, hbody⟩ := derives_of_parseWithin h
    exact .template hbody.fits
  · obtain ⟨body, ts, rfl, hbody⟩ := h.derivable
    have hdrop : dropEnd (ts ++ [.endOfInput]) = ts := by
      rw [dropEnd, List.getLast?_concat, List.dropLast_concat]
      rfl
    have hderives : Derives .body (dropEnd (ts ++ [.endOfInput])) body := hdrop.symm ▸ hbody
    refine ⟨ts ++ [.endOfInput], eventually_parseWithin hderives, ?_⟩
    by_cases hdeep : NestedTooDeep (ts ++ [.endOfInput])
    · exact .inr hdeep
    · exact .inl (parse_of_derives hdeep hderives)

end Stencil.Grammar
