import Stencil.Parser.Grammar
import Stencil.Proofs.Parser.Run

/-!
# Grammar

The grammar of templates as derivations of token lists, apart from any way of parsing them.
`Derives r ts v` says that the rule `r` derives the tokens `ts` and builds the tree `v` from them.

The levels of expressions, from the loosest to the tightest, share one rule each for what they have
in common: an expression of a tighter level is one of every looser level (`tighter`), and operators
group from the left (`operator`).  What stands between brackets is a list of items, which may end in
a comma (`itemsNil` behind `itemsMore`).

No rule looks at the tokens behind what it derives.  That the parser finds these derivations, and
no others, is the matter of `Soundness` and `Completeness`.
-/

namespace Stencil.Grammar

/-- The levels of expressions, from the loosest to the tightest. -/
inductive Level
  | expression | disjunction | conjunction | negation | comparison | sum | product
  | tested | filtered | chained | primary
  deriving DecidableEq

namespace Level

/-- The next tighter level. -/
def tighter? : Level → Option Level
  | expression  => disjunction
  | disjunction => conjunction
  | conjunction => negation
  | negation    => comparison
  | comparison  => sum
  | sum         => product
  | product     => tested
  | tested      => filtered
  | filtered    => chained
  | chained     => primary
  | primary     => none

/-- The operators that stand between two operands of the next tighter level. -/
def joins : Level → Token.Kind → Bool
  | disjunction, kind => kind = .kwOr
  | conjunction, kind => kind = .kwAnd
  | comparison, kind  => Parser.isComparison kind
  | sum, kind         => kind = .additive
  | product, kind     => kind = .multiplicative
  | _, _              => false

/-- The place of a level, counted from the tightest.  There is room for the words of an inline
conditional below the loosest level. -/
def rank : Level → Nat
  | primary     => 0
  | chained     => 1
  | filtered    => 2
  | tested      => 3
  | product     => 4
  | sum         => 5
  | comparison  => 6
  | negation    => 7
  | conjunction => 8
  | disjunction => 9
  | expression  => 11

theorem rank_lt_of_tighter? {l m : Level} (h : l.tighter? = some m) : m.rank < l.rank := by
  cases l <;> cases h <;> decide

/-- Any tighter level is reached through the next tighter one. -/
theorem exists_tighter {l m : Level} (hne : m ≠ l) (hle : m.rank ≤ l.rank) :
    ∃ k, l.tighter? = some k ∧ m.rank ≤ k.rank := by
  cases l <;> first | exact ⟨_, rfl, by cases m <;> simp_all [rank]⟩ | cases m <;> simp_all [rank]

/-- What an operator joins is of the next tighter level, and tests are tighter still. -/
theorem exists_operand {l : Level} {kind : Token.Kind} (h : l.joins kind = true) :
    ∃ m, l.tighter? = some m ∧ l.rank = m.rank + 1 ∧ tested.rank ≤ m.rank ∧
      l.rank ≤ disjunction.rank := by
  cases l <;> first | exact ⟨_, rfl, by decide⟩ | exact absurd h Bool.false_ne_true

/-- Only `and` and `or` are looser than `not`. -/
theorem negation_lt_iff {l : Level} {kind : Token.Kind} (h : l.joins kind = true) :
    negation.rank < l.rank ↔ kind = .kwAnd ∨ kind = .kwOr := by
  cases l <;> cases kind <;> first | exact absurd h Bool.false_ne_true | decide

end Level

/-- What stands between brackets, and between commas there. -/
inductive Item
  | element | argument | entry
  deriving DecidableEq

namespace Item

/-- The tree of an item. -/
@[reducible]
def Tree : Item → Type
  | element | argument => Node
  | entry => Node × Node

/-- The bracket before the items. -/
def opening : Item → Token.Kind
  | element  => .leftBracket
  | argument => .leftParen
  | entry    => .leftBrace

/-- The bracket behind the items. -/
def closing : Item → Token.Kind
  | element  => .rightBracket
  | argument => .rightParen
  | entry    => .rightBrace

end Item

/-- The rules of the grammar. -/
inductive Rule
  | level (l : Level)
  /-- A name of one of the kinds, called any number of times. -/
  | applied (names : List Token.Kind)
  /-- What stands between the brackets behind an object. -/
  | index
  /-- A part of a slice, which may be absent. -/
  | part
  /-- The parts of a slice with a colon behind the first at least. -/
  | slice
  | item (i : Item)
  | items (i : Item)
  /-- Items with their brackets. -/
  | enclosed (i : Item)
  | assignment
  /-- What follows the word that begins a conditional, up to the tag that ends it. -/
  | branches
  | piece
  | body

/-- The type of the trees that a rule builds. -/
@[reducible]
def Rule.Tree : Rule → Type
  | level _ | applied _ | index | assignment | branches | piece => Node
  | part => Option Node
  | slice => List (Option Node)
  | item i => i.Tree
  | items i | enclosed i => List i.Tree
  | body => List Node

/-- The slice with the given parts; what is missing is absent. -/
def sliceOf (parts : List (Option Node)) : Node :=
  .slice parts[0]?.join parts[1]?.join parts[2]?.join

/-- The rule derives the tokens with the tree. -/
inductive Derives : (r : Rule) → List Token → r.Tree → Prop
  -- expressions
  | tighter {l m : Level} {ts : List Token} {n : Node} : l.tighter? = some m →
      Derives (.level m) ts n → Derives (.level l) ts n
  | inline {ts us vs : List Token} {i e : Token} {value test other : Node} :
      Derives (.level .disjunction) ts value → i.kind = .kwIf →
      Derives (.level .disjunction) us test → e.kind = .kwElse →
      Derives (.level .disjunction) vs other →
      Derives (.level .expression) (ts ++ i :: (us ++ e :: vs))
        (Node.conditional test [value] [other])
  | operator {l m : Level} {ts us : List Token} {o : Token} {a b : Node} : l.tighter? = some m →
      Derives (.level l) ts a → l.joins o.kind = true → Derives (.level m) us b →
      Derives (.level l) (ts ++ o :: us) (Node.binary o.value a b)
  | not {o : Token} {ts : List Token} {n : Node} : o.kind = .kwNot →
      Derives (.level .negation) ts n → Derives (.level .negation) (o :: ts) (Node.unary o.value n)
  | test {ts us : List Token} {i : Token} {n f : Node} : Derives (.level .tested) ts n →
      i.kind = .kwIs → Derives (.applied [.identifier, .boolean]) us f →
      Derives (.level .tested) (ts ++ i :: us) (Node.test n false f)
  | testNot {ts us : List Token} {i o : Token} {n f : Node} : Derives (.level .tested) ts n →
      i.kind = .kwIs → o.kind = .kwNot → Derives (.applied [.identifier, .boolean]) us f →
      Derives (.level .tested) (ts ++ i :: o :: us) (Node.test n true f)
  | filter {ts us : List Token} {p : Token} {n f : Node} : Derives (.level .filtered) ts n →
      p.kind = .pipe → Derives (.applied [.identifier]) us f →
      Derives (.level .filtered) (ts ++ p :: us) (Node.filter n f)
  | property {ts : List Token} {d t : Token} {n : Node} : Derives (.level .chained) ts n →
      d.kind = .dot → t.kind = .identifier →
      Derives (.level .chained) (ts ++ [d, t]) (Node.member n (.identifier t.value) false)
  | subscript {ts us : List Token} {o c : Token} {n p : Node} : Derives (.level .chained) ts n →
      o.kind = .leftBracket → Derives .index us p → c.kind = .rightBracket →
      Derives (.level .chained) (ts ++ o :: (us ++ [c])) (Node.member n p true)
  | call {ts us : List Token} {f : Node} {args : List Node} : Derives (.level .chained) ts f →
      Derives (.enclosed .argument) us args →
      Derives (.level .chained) (ts ++ us) (Node.call f args)
  -- primaries
  | number {t : Token} {v : Number} : t.kind = .number → Numeral.read t.value = .ok v →
      Derives (.level .primary) [t] (Node.number v)
  | string {t : Token} : t.kind = .string → Derives (.level .primary) [t] (Node.string t.value)
  | boolean {t : Token} : t.kind = .boolean →
      Derives (.level .primary) [t] (Node.boolean (Parser.truthValue t.value))
  | identifier {t : Token} : t.kind = .identifier →
      Derives (.level .primary) [t] (Node.identifier t.value)
  | parenthesis {o c : Token} {ts : List Token} {n : Node} : o.kind = .leftParen →
      Derives (.level .expression) ts n → c.kind = .rightParen →
      Derives (.level .primary) (o :: (ts ++ [c])) n
  | array {ts : List Token} {ns : List Node} : Derives (.enclosed .element) ts ns →
      Derives (.level .primary) ts (Node.array ns)
  | object {ts : List Token} {ps : List (Node × Node)} : Derives (.enclosed .entry) ts ps →
      Derives (.level .primary) ts (Node.object ps)
  -- names of tests and filters
  | name {names : List Token.Kind} {t : Token} : t.kind ∈ names →
      Derives (.applied names) [t] (Node.identifier t.value)
  | applied {names : List Token.Kind} {ts us : List Token} {f : Node} {args : List Node} :
      Derives (.applied names) ts f → Derives (.enclosed .argument) us args →
      Derives (.applied names) (ts ++ us) (Node.call f args)
  -- between brackets
  | index {ts : List Token} {n : Node} : Derives (.level .expression) ts n → Derives .index ts n
  | slice {ts : List Token} {parts : List (Option Node)} : Derives .slice ts parts →
      parts.length ≤ 3 → Derives .index ts (sliceOf parts)
  | absent : Derives .part [] (none : Option Node)
  | present {ts : List Token} {n : Node} : Derives (.level .expression) ts n →
      Derives .part ts (some n)
  | sliceEnd {ts : List Token} {c : Token} {p : Option Node} : Derives .part ts p →
      c.kind = .colon → Derives .slice (ts ++ [c]) [p]
  | sliceLast {ts us : List Token} {c : Token} {p : Option Node} {n : Node} : Derives .part ts p →
      c.kind = .colon → Derives (.level .expression) us n →
      Derives .slice (ts ++ c :: us) [p, some n]
  | sliceMore {ts us : List Token} {c : Token} {p : Option Node} {ps : List (Option Node)} :
      Derives .part ts p → c.kind = .colon → Derives .slice us ps →
      Derives .slice (ts ++ c :: us) (p :: ps)
  | element {ts : List Token} {n : Node} : Derives (.level .expression) ts n →
      Derives (.item .element) ts n
  | positional {ts : List Token} {n : Node} : Derives (.level .expression) ts n →
      Derives (.item .argument) ts n
  | keyword {ts us : List Token} {e : Token} {k : String} {v : Node} :
      Derives (.level .expression) ts (Node.identifier k) → e.kind = .equals →
      Derives (.level .expression) us v →
      Derives (.item .argument) (ts ++ e :: us) (Node.keyword (.identifier k) v)
  | entry {ts us : List Token} {c : Token} {k v : Node} : Derives (.level .expression) ts k →
      c.kind = .colon → Derives (.level .expression) us v →
      Derives (.item .entry) (ts ++ c :: us) (k, v)
  | itemsNil {i : Item} : Derives (.items i) [] ([] : List i.Tree)
  | itemsLast {i : Item} {ts : List Token} {x : i.Tree} : Derives (.item i) ts x →
      Derives (.items i) ts [x]
  | itemsMore {i : Item} {ts us : List Token} {c : Token} {x : i.Tree} {xs : List i.Tree} :
      Derives (.item i) ts x → c.kind = .comma → Derives (.items i) us xs →
      Derives (.items i) (ts ++ c :: us) (x :: xs)
  | enclosed {i : Item} {o c : Token} {ts : List Token} {xs : List i.Tree} : o.kind = i.opening →
      Derives (.items i) ts xs → c.kind = i.closing → Derives (.enclosed i) (o :: (ts ++ [c])) xs
  -- statements
  | plain {ts : List Token} {n : Node} : Derives (.level .expression) ts n →
      Derives .assignment ts n
  | assign {ts us : List Token} {e : Token} {target value : Node} :
      Derives (.level .expression) ts target → e.kind = .equals → Derives .assignment us value →
      Derives .assignment (ts ++ e :: us) (Node.assignment target value)
  | noElse {ts us : List Token} {c : Token} {test : Node} {body : List Node} :
      Derives (.level .expression) ts test → c.kind = .closeStatement → Derives .body us body →
      Derives .branches (ts ++ c :: us) (Node.conditional test body [])
  | elseIf {ts us vs : List Token} {c o w : Token} {test other : Node} {body : List Node} :
      Derives (.level .expression) ts test → c.kind = .closeStatement → Derives .body us body →
      o.kind = .openStatement → w.kind = .kwElif → Derives .branches vs other →
      Derives .branches (ts ++ c :: (us ++ o :: w :: vs)) (Node.conditional test body [other])
  | elseBody {ts us vs : List Token} {c o w c' : Token} {test : Node} {body other : List Node} :
      Derives (.level .expression) ts test → c.kind = .closeStatement → Derives .body us body →
      o.kind = .openStatement → w.kind = .kwElse → c'.kind = .closeStatement →
      Derives .body vs other →
      Derives .branches (ts ++ c :: (us ++ o :: w :: c' :: vs)) (Node.conditional test body other)
  | text {t : Token} : t.kind = .text → Derives .piece [t] (Node.string t.value)
  | output {o c : Token} {ts : List Token} {n : Node} : o.kind = .openExpression →
      Derives (.level .expression) ts n → c.kind = .closeExpression →
      Derives .piece (o :: (ts ++ [c])) n
  | set {o w c : Token} {ts : List Token} {n : Node} : o.kind = .openStatement →
      w.kind = .kwSet → Derives .assignment ts n → c.kind = .closeStatement →
      Derives .piece (o :: w :: (ts ++ [c])) n
  | conditional {o w o' w' c : Token} {ts : List Token} {n : Node} : o.kind = .openStatement →
      w.kind = .kwIf → Derives .branches ts n → o'.kind = .openStatement → w'.kind = .kwEndif →
      c.kind = .closeStatement → Derives .piece (o :: w :: (ts ++ [o', w', c])) n
  | loop {o w i c o' w' c' : Token} {ts us vs : List Token} {v : String} {iterable : Node}
      {body : List Node} : o.kind = .openStatement → w.kind = .kwFor →
      Derives (.level .chained) ts (Node.identifier v) → i.kind = .kwIn →
      Derives (.level .expression) us iterable → c.kind = .closeStatement →
      Derives .body vs body → o'.kind = .openStatement → w'.kind = .kwEndfor →
      c'.kind = .closeStatement →
      Derives .piece (o :: w :: (ts ++ i :: (us ++ c :: (vs ++ [o', w', c']))))
        (Node.loop (.identifier v) iterable body)
  | bodyNil : Derives .body [] ([] : List Node)
  | bodyMore {ts us : List Token} {n : Node} {ns : List Node} : Derives .piece ts n →
      Derives .body us ns → Derives .body (ts ++ us) (n :: ns)

/-- An expression of a level is one of every looser level. -/
theorem Derives.loosen {l m : Level} {ts : List Token} {n : Node} (h : Derives (.level m) ts n)
    (hle : m.rank ≤ l.rank) : Derives (.level l) ts n := by
  by_cases heq : m = l
  · exact heq ▸ h
  · obtain ⟨k, hk, hle⟩ := Level.exists_tighter heq hle
    exact .tighter hk (h.loosen hle)
termination_by l.rank
decreasing_by exact Level.rank_lt_of_tighter? hk

end Stencil.Grammar
