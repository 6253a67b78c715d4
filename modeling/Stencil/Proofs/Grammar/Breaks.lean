import Stencil.Proofs.Grammar.Lookahead

/-!
# Grammar — where a rule breaks off

`Breaks r ts rest e` says how the rule `r` can fail: it has taken the tokens `ts`, the tokens `rest`
are left, and the failure is `e`.  What was taken is made of parts that the grammar derives, of the
tokens between them, and at the end of the part in which the rule broke off.

That the parser fails in these ways only is the matter of `Reports`; what a failure says about the
tokens before it is read off here.  Two breaks keep the run that failed, since the tokens before
them need not begin a template.  The variable of a loop is read as any chained expression
(`loopVariable`), and the parts of a slice are counted behind the last of them (`subscript`).
-/

namespace Stencil.Grammar
open Stencil.Parser

/-- The failure noticed at the token at hand. -/
def foundAt (cause : Cause) (rest : List Token) : Failure := .malformed ⟨cause, some (front rest)⟩

/-- Parts of a slice, each with its colon. -/
inductive Parts : List Token → List (Option Node) → Prop
  | nil : Parts [] []
  | cons {ts us : List Token} {c : Token} {p : Option Node} {ps : List (Option Node)} :
      Derives .part ts p → c.kind = .colon → Parts us ps → Parts (ts ++ c :: us) (p :: ps)

/-- Of the tokens that had to come some did, and then another one. -/
inductive Misses : List Token.Kind → List Token → List Token → Failure → Prop
  | here {kind : Token.Kind} {kinds : List Token.Kind} {rest : List Token} :
      (front rest).kind ≠ kind →
      Misses (kind :: kinds) [] rest (foundAt (.expectedToken kind) rest)
  | later {kind : Token.Kind} {kinds : List Token.Kind} {t : Token} {ts rest : List Token}
      {e : Failure} : t.kind = kind → Misses kinds ts rest e →
      Misses (kind :: kinds) (t :: ts) rest e

/-- The rule takes the tokens and breaks off with the failure. -/
inductive Breaks : Rule → List Token → List Token → Failure → Prop
  | tooDeep {r : Rule} {rest : List Token} : Breaks r [] rest (foundAt .nestingTooDeep rest)
  -- expressions
  | tighter {l m : Level} {ts rest : List Token} {e : Failure} : l.tighter? = some m →
      Breaks (.level m) ts rest e → Breaks (.level l) ts rest e
  | inlineTest {ts us rest : List Token} {i : Token} {value : Node} {e : Failure} :
      Derives (.level .disjunction) ts value → i.kind = .kwIf →
      Breaks (.level .disjunction) us rest e → Breaks (.level .expression) (ts ++ i :: us) rest e
  | inlineElse {ts us rest : List Token} {i : Token} {value test : Node} :
      Derives (.level .disjunction) ts value → i.kind = .kwIf →
      Derives (.level .disjunction) us test → (front rest).kind ≠ .kwElse →
      Breaks (.level .expression) (ts ++ i :: us) rest (foundAt (.expectedToken .kwElse) rest)
  | inlineOther {ts us vs rest : List Token} {i w : Token} {value test : Node} {e : Failure} :
      Derives (.level .disjunction) ts value → i.kind = .kwIf →
      Derives (.level .disjunction) us test → w.kind = .kwElse →
      Breaks (.level .disjunction) vs rest e →
      Breaks (.level .expression) (ts ++ i :: (us ++ w :: vs)) rest e
  | operator {l m : Level} {ts us rest : List Token} {o : Token} {a : Node} {e : Failure} :
      l.tighter? = some m → Derives (.level l) ts a → l.joins o.kind = true →
      Breaks (.level m) us rest e → Breaks (.level l) (ts ++ o :: us) rest e
  | not {ts rest : List Token} {o : Token} {e : Failure} : o.kind = .kwNot →
      Breaks (.level .negation) ts rest e → Breaks (.level .negation) (o :: ts) rest e
  | test {ts us rest : List Token} {i : Token} {n : Node} {e : Failure} :
      Derives (.level .tested) ts n → i.kind = .kwIs →
      Breaks (.applied [.identifier, .boolean]) us rest e →
      Breaks (.level .tested) (ts ++ i :: us) rest e
  | testNot {ts us rest : List Token} {i o : Token} {n : Node} {e : Failure} :
      Derives (.level .tested) ts n → i.kind = .kwIs → o.kind = .kwNot →
      Breaks (.applied [.identifier, .boolean]) us rest e →
      Breaks (.level .tested) (ts ++ i :: o :: us) rest e
  | filter {ts us rest : List Token} {p : Token} {n : Node} {e : Failure} :
      Derives (.level .filtered) ts n → p.kind = .pipe →
      Breaks (.applied [.identifier]) us rest e →
      Breaks (.level .filtered) (ts ++ p :: us) rest e
  | property {ts rest : List Token} {d : Token} {n : Node} : Derives (.level .chained) ts n →
      d.kind = .dot → (front rest).kind ≠ .identifier →
      Breaks (.level .chained) (ts ++ [d]) rest
        (foundAt (.propertyName (front rest).description) rest)
  | subscript {ts us rest : List Token} {o : Token} {n : Node} {e : Failure} {d : Nat} :
      Derives (.level .chained) ts n → o.kind = .leftBracket → Breaks .index us rest e →
      (Parser.index d).run (us ++ rest) = .error e rest →
      Breaks (.level .chained) (ts ++ o :: us) rest e
  | subscriptEnd {ts us rest : List Token} {o : Token} {n p : Node} :
      Derives (.level .chained) ts n → o.kind = .leftBracket → Derives .index us p →
      (front rest).kind ≠ .rightBracket →
      Breaks (.level .chained) (ts ++ o :: us) rest (foundAt (.expectedToken .rightBracket) rest)
  | call {ts us rest : List Token} {f : Node} {e : Failure} : Derives (.level .chained) ts f →
      Breaks (.enclosed .argument) us rest e → Breaks (.level .chained) (ts ++ us) rest e
  -- primaries
  | primary {rest : List Token} : beginsPrimary (front rest).kind = false →
      Breaks (.level .primary) [] rest (foundAt (.unexpectedToken "expression") rest)
  | number {t : Token} {rest : List Token} {e : Numeral.Error} : t.kind = .number →
      Numeral.read t.value = .error e → Breaks (.level .primary) [t] rest (.numeral e)
  | parenthesis {ts rest : List Token} {o : Token} {e : Failure} : o.kind = .leftParen →
      Breaks (.level .expression) ts rest e → Breaks (.level .primary) (o :: ts) rest e
  | parenthesisEnd {ts rest : List Token} {o : Token} {n : Node} : o.kind = .leftParen →
      Derives (.level .expression) ts n → (front rest).kind ≠ .rightParen →
      Breaks (.level .primary) (o :: ts) rest (foundAt (.expectedToken .rightParen) rest)
  | array {ts rest : List Token} {e : Failure} : Breaks (.enclosed .element) ts rest e →
      Breaks (.level .primary) ts rest e
  | object {ts rest : List Token} {e : Failure} : Breaks (.enclosed .entry) ts rest e →
      Breaks (.level .primary) ts rest e
  -- names of tests and filters
  | testName {rest : List Token} : (front rest).kind ∉ [.identifier, .boolean] →
      Breaks (.applied [.identifier, .boolean]) [] rest
        (foundAt (.testName (front rest).description) rest)
  | filterName {rest : List Token} : (front rest).kind ∉ [.identifier] →
      Breaks (.applied [.identifier]) [] rest
        (foundAt (.filterName (front rest).description) rest)
  | applied {names : List Token.Kind} {ts us rest : List Token} {f : Node} {e : Failure} :
      Derives (.applied names) ts f → Breaks (.enclosed .argument) us rest e →
      Breaks (.applied names) (ts ++ us) rest e
  -- between brackets
  | index {ts us rest : List Token} {ps : List (Option Node)} {e : Failure} : Parts ts ps →
      Breaks .part us rest e → Breaks .index (ts ++ us) rest e
  | emptyIndex {rest : List Token} : (front rest).kind = .rightBracket →
      Breaks .index [] rest (foundAt .emptyIndex rest)
  | sliceParts {ts rest : List Token} {ps : List (Option Node)} : Derives .slice ts ps →
      3 < ps.length → (front rest).kind = .rightBracket →
      Breaks .index ts rest (foundAt (.sliceParts ps.length) rest)
  | partEnd : Breaks .part [] [] (foundAt (.expectedToken .rightBracket) [])
  | partValue {ts rest : List Token} {e : Failure} : Breaks (.level .expression) ts rest e →
      Breaks .part ts rest e
  | partBehind {ts rest : List Token} {n : Node} : Derives (.level .expression) ts n →
      (front rest).kind ≠ .colon → (front rest).kind ≠ .rightBracket →
      Breaks .part ts rest (foundAt (.expectedToken .rightBracket) rest)
  | element {ts rest : List Token} {e : Failure} : Breaks (.level .expression) ts rest e →
      Breaks (.item .element) ts rest e
  | positional {ts rest : List Token} {e : Failure} : Breaks (.level .expression) ts rest e →
      Breaks (.item .argument) ts rest e
  | keywordTarget {ts rest : List Token} {q : Token} {n : Node} :
      Derives (.level .expression) ts n → n.isIdentifier = false → q.kind = .equals →
      Breaks (.item .argument) (ts ++ [q]) rest
        (.malformed ⟨.keywordTarget n.kind, some (front ts)⟩)
  | keywordValue {ts us rest : List Token} {q : Token} {k : String} {e : Failure} :
      Derives (.level .expression) ts (Node.identifier k) → q.kind = .equals →
      Breaks (.level .expression) us rest e → Breaks (.item .argument) (ts ++ q :: us) rest e
  | entryKey {ts rest : List Token} {e : Failure} : Breaks (.level .expression) ts rest e →
      Breaks (.item .entry) ts rest e
  | entryColon {ts rest : List Token} {k : Node} : Derives (.level .expression) ts k →
      (front rest).kind ≠ .colon →
      Breaks (.item .entry) ts rest (foundAt (.expectedToken .colon) rest)
  | entryValue {ts us rest : List Token} {c : Token} {k : Node} {e : Failure} :
      Derives (.level .expression) ts k → c.kind = .colon →
      Breaks (.level .expression) us rest e → Breaks (.item .entry) (ts ++ c :: us) rest e
  | itemsEnd {i : Item} : Breaks (.items i) [] [] (foundAt (.expectedToken i.closing) [])
  | itemsFirst {i : Item} {ts rest : List Token} {e : Failure} : Breaks (.item i) ts rest e →
      Breaks (.items i) ts rest e
  | itemsComma {i : Item} {ts rest : List Token} {x : i.Tree} : Derives (.item i) ts x →
      (front rest).kind ≠ .comma → (front rest).kind ≠ i.closing →
      Breaks (.items i) ts rest (foundAt (.expectedToken .comma) rest)
  | itemsMore {i : Item} {ts us rest : List Token} {c : Token} {x : i.Tree} {e : Failure} :
      Derives (.item i) ts x → c.kind = .comma → Breaks (.items i) us rest e →
      Breaks (.items i) (ts ++ c :: us) rest e
  | opening {i : Item} {rest : List Token} : (front rest).kind ≠ i.opening →
      Breaks (.enclosed i) [] rest (foundAt (.expectedToken i.opening) rest)
  | enclosed {i : Item} {ts rest : List Token} {o : Token} {e : Failure} : o.kind = i.opening →
      Breaks (.items i) ts rest e → Breaks (.enclosed i) (o :: ts) rest e
  -- statements
  | plain {ts rest : List Token} {e : Failure} : Breaks (.level .expression) ts rest e →
      Breaks .assignment ts rest e
  | assign {ts us rest : List Token} {q : Token} {target : Node} {e : Failure} :
      Derives (.level .expression) ts target → q.kind = .equals → Breaks .assignment us rest e →
      Breaks .assignment (ts ++ q :: us) rest e
  | condition {ts rest : List Token} {e : Failure} : Breaks (.level .expression) ts rest e →
      Breaks .branches ts rest e
  | conditionEnd {ts rest : List Token} {test : Node} : Derives (.level .expression) ts test →
      (front rest).kind ≠ .closeStatement →
      Breaks .branches ts rest (foundAt (.expectedToken .closeStatement) rest)
  | branch {ts us rest : List Token} {c : Token} {test : Node} {e : Failure} :
      Derives (.level .expression) ts test → c.kind = .closeStatement → Breaks .body us rest e →
      Breaks .branches (ts ++ c :: us) rest e
  | elseIf {ts us vs rest : List Token} {c o w : Token} {test : Node} {body : List Node}
      {e : Failure} : Derives (.level .expression) ts test → c.kind = .closeStatement →
      Derives .body us body → o.kind = .openStatement → w.kind = .kwElif →
      Breaks .branches vs rest e → Breaks .branches (ts ++ c :: (us ++ o :: w :: vs)) rest e
  | elseEnd {ts us rest : List Token} {c o w : Token} {test : Node} {body : List Node} :
      Derives (.level .expression) ts test → c.kind = .closeStatement → Derives .body us body →
      o.kind = .openStatement → w.kind = .kwElse → (front rest).kind ≠ .closeStatement →
      Breaks .branches (ts ++ c :: (us ++ [o, w])) rest
        (foundAt (.expectedToken .closeStatement) rest)
  | elseBody {ts us vs rest : List Token} {c o w c' : Token} {test : Node} {body : List Node}
      {e : Failure} : Derives (.level .expression) ts test → c.kind = .closeStatement →
      Derives .body us body → o.kind = .openStatement → w.kind = .kwElse →
      c'.kind = .closeStatement → Breaks .body vs rest e →
      Breaks .branches (ts ++ c :: (us ++ o :: w :: c' :: vs)) rest e
  -- pieces
  | piece {rest : List Token} :
      (front rest).kind ∉ [.text, .openStatement, .openExpression] →
      Breaks .piece [] rest (foundAt (.unexpectedToken "") rest)
  | mark {kind : Token.Kind} {rest : List Token} : kind ∈ [.openStatement, .openExpression] →
      (front rest).kind ≠ kind → Breaks .piece [] rest (foundAt (.expectedToken kind) rest)
  | output {ts rest : List Token} {o : Token} {e : Failure} : o.kind = .openExpression →
      Breaks (.level .expression) ts rest e → Breaks .piece (o :: ts) rest e
  | outputEnd {ts rest : List Token} {o : Token} {n : Node} : o.kind = .openExpression →
      Derives (.level .expression) ts n → (front rest).kind ≠ .closeExpression →
      Breaks .piece (o :: ts) rest (foundAt (.expectedToken .closeExpression) rest)
  | statement {rest : List Token} {o : Token} : o.kind = .openStatement →
      (front rest).kind ∉ [.kwSet, .kwIf, .kwFor] →
      Breaks .piece [o] rest (foundAt (.unexpectedToken "statement") rest)
  | set {ts rest : List Token} {o w : Token} {e : Failure} : o.kind = .openStatement →
      w.kind = .kwSet → Breaks .assignment ts rest e → Breaks .piece (o :: w :: ts) rest e
  | setEnd {ts rest : List Token} {o w : Token} {n : Node} : o.kind = .openStatement →
      w.kind = .kwSet → Derives .assignment ts n → (front rest).kind ≠ .closeStatement →
      Breaks .piece (o :: w :: ts) rest (foundAt (.expectedToken .closeStatement) rest)
  | conditional {ts rest : List Token} {o w : Token} {e : Failure} : o.kind = .openStatement →
      w.kind = .kwIf → Breaks .branches ts rest e → Breaks .piece (o :: w :: ts) rest e
  | conditionalEnd {ts us rest : List Token} {o w : Token} {n : Node} {e : Failure} :
      o.kind = .openStatement → w.kind = .kwIf → Derives .branches ts n →
      Misses [.openStatement, .kwEndif, .closeStatement] us rest e →
      Breaks .piece (o :: w :: (ts ++ us)) rest e
  | loopVariable {ts rest : List Token} {o w : Token} {e : Failure} {d : Nat} :
      o.kind = .openStatement → w.kind = .kwFor → Breaks (.level .chained) ts rest e →
      (Parser.chained d).run (ts ++ rest) = .error e rest →
      Breaks .piece (o :: w :: ts) rest e
  | loopTarget {ts rest : List Token} {o w : Token} {n : Node} : o.kind = .openStatement →
      w.kind = .kwFor → Derives (.level .chained) ts n → n.isIdentifier = false →
      Breaks .piece (o :: w :: ts) rest (.malformed ⟨.loopVariable n.kind, some (front ts)⟩)
  | loopIn {ts rest : List Token} {o w : Token} {v : String} : o.kind = .openStatement →
      w.kind = .kwFor → Derives (.level .chained) ts (Node.identifier v) →
      (front rest).kind ≠ .kwIn →
      Breaks .piece (o :: w :: ts) rest (foundAt (.expectedToken .kwIn) rest)
  | loopIterable {ts us rest : List Token} {o w i : Token} {v : String} {e : Failure} :
      o.kind = .openStatement → w.kind = .kwFor →
      Derives (.level .chained) ts (Node.identifier v) → i.kind = .kwIn →
      Breaks (.level .expression) us rest e → Breaks .piece (o :: w :: (ts ++ i :: us)) rest e
  | loopClose {ts us rest : List Token} {o w i : Token} {v : String} {iterable : Node} :
      o.kind = .openStatement → w.kind = .kwFor →
      Derives (.level .chained) ts (Node.identifier v) → i.kind = .kwIn →
      Derives (.level .expression) us iterable → (front rest).kind ≠ .closeStatement →
      Breaks .piece (o :: w :: (ts ++ i :: us)) rest
        (foundAt (.expectedToken .closeStatement) rest)
  | loopBody {ts us vs rest : List Token} {o w i c : Token} {v : String} {iterable : Node}
      {e : Failure} : o.kind = .openStatement → w.kind = .kwFor →
      Derives (.level .chained) ts (Node.identifier v) → i.kind = .kwIn →
      Derives (.level .expression) us iterable → c.kind = .closeStatement →
      Breaks .body vs rest e → Breaks .piece (o :: w :: (ts ++ i :: (us ++ c :: vs))) rest e
  | loopEnd {ts us rest : List Token} {o w : Token} {n : Node} {e : Failure} :
      (∀ {o' w' c : Token}, o'.kind = .openStatement → w'.kind = .kwEndfor →
        c.kind = .closeStatement → Derives .piece (o :: w :: (ts ++ [o', w', c])) n) →
      Misses [.openStatement, .kwEndfor, .closeStatement] us rest e →
      Breaks .piece (o :: w :: (ts ++ us)) rest e
  | bodyEnd {ts : List Token} {body : List Node} {missing : Token.Kind} : Derives .body ts body →
      missing ∈ [.kwEndif, .kwEndfor] →
      Breaks .body ts [] (foundAt (.expectedToken missing) [])
  | bodyPiece {ts us rest : List Token} {body : List Node} {e : Failure} :
      Derives .body ts body → Breaks .piece us rest e → Breaks .body (ts ++ us) rest e

end Stencil.Grammar
