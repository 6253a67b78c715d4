import Mathlib.Data.List.Forall2
import Stencil.Proofs.Grammar.Adjacency
import Stencil.Proofs.Grammar.Image

/-!
# Grammar — what the tree keeps of the tokens

Texts, literals, names and operators are in the tree as they are in the template: none is lost, none
is there twice, and none is out of its place (`content_of_parse`).

The tokens that matter are the `content` of a template.  The word `in` is an operator, but the one of
a loop is not: that is the first behind the word `for`, since the variable of a loop is a name with
parentheses around it at most.  What is read off the tree from left to right are leaves; each is of
one token (`Leaf.Of`).  Inside an expression the order is fixed: of a conditional the value comes
first, then the test (`leaves`).  A conditional among the pieces of a template is read in this order
where it is an expression, and with the test first where it is a statement (`Yields`).
-/

namespace Stencil

/-- Does the tree keep a token of this kind? -/
def Token.Kind.isContent : Token.Kind → Bool
  | text | number | string | boolean | identifier => true
  | kwOr | kwAnd | kwNot | comparison | kwIn | kwNotIn | additive | multiplicative => true
  | _ => false

namespace Grammar
open Stencil.Parser

/-! ### The content of a template -/

/-- The tokens that the tree keeps, where the `in` of a loop is still to come, or not. -/
def contentFrom : Bool → List Token → List Token
  | _, [] => []
  | inLoop, t :: ts =>
    if t.kind = .kwFor then contentFrom true ts
    else if t.kind = .kwIn ∧ inLoop = true then contentFrom false ts
    else if t.kind.isContent then t :: contentFrom inLoop ts
    else contentFrom inLoop ts

/-- The texts, literals, names and operators among the tokens of a template. -/
def content (ts : List Token) : List Token := contentFrom false ts

/-! ### The leaves of a tree -/

/-- What stands at one place of a tree. -/
inductive Leaf
  /-- A text outside tags. -/
  | text (value : String)
  | number (value : Number)
  | string (value : String)
  | boolean (value : Bool)
  | name (value : String)
  /-- The name of a test, which may be the word for a truth value. -/
  | testName (value : String)
  /-- The operator between two operands. -/
  | operator (value : String)
  /-- The operator before its operand. -/
  | negation (value : String)
  /-- The mark of a test that is negated. -/
  | negated

/-- The leaf is of the token. -/
def Leaf.Of : Leaf → Token → Prop
  | text s, t => t.kind = .text ∧ t.value = s
  | number v, t => t.kind = .number ∧ Numeral.read t.value = .ok v
  | string s, t => t.kind = .string ∧ t.value = s
  | boolean b, t => t.kind = .boolean ∧ truthValue t.value = b
  | name s, t => t.kind = .identifier ∧ t.value = s
  | testName s, t => (t.kind = .identifier ∨ t.kind = .boolean) ∧ t.value = s
  | operator s, t => (∃ l : Level, l.joins t.kind = true) ∧ t.value = s
  | negation s, t => t.kind = .kwNot ∧ t.value = s
  | negated, t => t.kind = .kwNot

mutual

/-- The leaves and operators of an expression or an assignment, from left to right. -/
def leaves : Node → List Leaf
  | .number v => [.number v]
  | .string s => [.string s]
  | .boolean b => [.boolean b]
  | .identifier s => [.name s]
  | .array ns => leavesOfAll ns
  | .object ps => leavesOfPairs ps
  | .member n p _ => leaves n ++ leaves p
  | .call f args => leaves f ++ leavesOfAll args
  | .binary o a b => leaves a ++ .operator o :: leaves b
  | .unary o n => .negation o :: leaves n
  | .conditional test body alternate => leavesOfAll body ++ leaves test ++ leavesOfAll alternate
  | .filter n f => leaves n ++ leaves f
  | .test n negated f => leaves n ++ (if negated then [.negated] else []) ++ leavesOfTest f
  | .slice start stop step => leavesOfPart start ++ leavesOfPart stop ++ leavesOfPart step
  | .keyword k v => leaves k ++ leaves v
  | .assignment target value => leaves target ++ leaves value
  | .bare | .program _ | .loop .. => []
termination_by structural n => n

/-- The leaves of the name of a test and its arguments. -/
def leavesOfTest : Node → List Leaf
  | .identifier s => [.testName s]
  | .call f args => leavesOfTest f ++ leavesOfAll args
  | _ => []
termination_by structural n => n

def leavesOfAll : List Node → List Leaf
  | [] => []
  | n :: ns => leaves n ++ leavesOfAll ns
termination_by structural ns => ns

def leavesOfPairs : List (Node × Node) → List Leaf
  | [] => []
  | (k, v) :: ps => leaves k ++ leaves v ++ leavesOfPairs ps
termination_by structural ps => ps

def leavesOfPart : Option Node → List Leaf
  | none => []
  | some n => leaves n
termination_by structural p => p

end

mutual

/-- The leaves are read off a piece of a template from left to right. -/
inductive Yields : Node → List Leaf → Prop
  | text (s : String) : Yields (.string s) [.text s]
  /-- An expression or an assignment. -/
  | plain {n : Node} : WellFormed .assigned n → Yields n (leaves n)
  | conditional (test : Node) {body alternate : List Node} {ls ms : List Leaf} :
      YieldsAll body ls → YieldsAll alternate ms →
      Yields (.conditional test body alternate) (leaves test ++ ls ++ ms)
  | loop (target iterable : Node) {body : List Node} {ls : List Leaf} : YieldsAll body ls →
      Yields (.loop target iterable body) (leaves target ++ leaves iterable ++ ls)

/-- The leaves are read off some pieces from left to right. -/
inductive YieldsAll : List Node → List Leaf → Prop
  | nil : YieldsAll [] []
  | cons {n : Node} {ns : List Node} {ls ms : List Leaf} : Yields n ls → YieldsAll ns ms →
      YieldsAll (n :: ns) (ls ++ ms)

end

/-- The leaves of an item between brackets. -/
@[simp]
def Item.leaves : (i : Item) → i.Tree → List Leaf
  | element | argument => Grammar.leaves
  | entry => fun p => Grammar.leaves p.1 ++ Grammar.leaves p.2

@[simp] theorem leavesOfAll_eq (ns : List Node) : leavesOfAll ns = ns.flatMap leaves := by
  induction ns with
  | nil => rfl
  | cons n ns ih => rw [leavesOfAll, ih, List.flatMap_cons]

@[simp] theorem leavesOfPairs_eq (ps : List (Node × Node)) :
    leavesOfPairs ps = ps.flatMap (Item.leaves .entry) := by
  induction ps with
  | nil => rfl
  | cons p ps ih => rw [leavesOfPairs, ih, List.flatMap_cons]; rfl

/-- No part of a slice is lost. -/
theorem leaves_sliceOf {parts : List (Option Node)} (h : parts.length ≤ 3) :
    leaves (sliceOf parts) = parts.flatMap leavesOfPart := by
  match parts, h with
  | [], _ | [_], _ | [_, _], _ | [_, _, _], _ => simp [sliceOf, leaves, leavesOfPart]

/-! ### Tokens and their leaves -/

variable {inLoop : Bool} {l : Level} {t : Token} {ts us : List Token} {x : Leaf}
  {ls ms : List Leaf}

/-- The content of the tokens is that of the leaves, whatever follows. -/
def Retains (inLoop : Bool) (ts : List Token) (ls : List Leaf) : Prop :=
  ∃ us, List.Forall₂ Leaf.Of ls us ∧
    ∀ rest, contentFrom inLoop (ts ++ rest) = us ++ contentFrom inLoop rest

theorem isContent_of_joins (h : l.joins t.kind = true) : t.kind.isContent = true := by
  cases hk : t.kind <;> rw [hk] at h <;> first | rfl | (cases l <;> cases h)

theorem Leaf.Of.isContent (h : x.Of t) : t.kind.isContent = true := by
  cases x with
  | testName s => rcases h.1 with hk | hk <;> rw [hk] <;> rfl
  | operator s => exact isContent_of_joins h.1.choose_spec
  | negated => rw [show t.kind = .kwNot from h]; rfl
  | _ => rw [h.1]; rfl

theorem contentFrom_of_isContent (h : t.kind.isContent = true) (hin : t.kind = .kwIn → inLoop = false)
    (ts : List Token) : contentFrom inLoop (t :: ts) = t :: contentFrom inLoop ts := by
  have hfor : t.kind ≠ .kwFor := by rintro hk; rw [hk] at h; cases h
  have hloop : ¬ (t.kind = .kwIn ∧ inLoop = true) := by
    rintro ⟨hk, rfl⟩
    cases hin hk
  rw [contentFrom, if_neg hfor, if_neg hloop, if_pos h]

namespace Retains

theorem nil : Retains inLoop [] [] := ⟨[], .nil, fun _ => rfl⟩

theorem append (h : Retains inLoop ts ls) (h' : Retains inLoop us ms) :
    Retains inLoop (ts ++ us) (ls ++ ms) := by
  obtain ⟨kept, hof, hkept⟩ := h
  obtain ⟨kept', hof', hkept'⟩ := h'
  refine ⟨kept ++ kept', List.rel_append hof hof', fun rest => ?_⟩
  rw [List.append_assoc, hkept, hkept', List.append_assoc]

/-- A token that the tree keeps. -/
theorem leaf (ht : x.Of t) (hin : t.kind = .kwIn → inLoop = false) (h : Retains inLoop ts ls) :
    Retains inLoop (t :: ts) (x :: ls) := by
  obtain ⟨kept, hof, hkept⟩ := h
  refine ⟨t :: kept, .cons ht hof, fun rest => ?_⟩
  rw [List.cons_append, contentFrom_of_isContent ht.isContent hin, hkept, List.cons_append]

/-- A token that the tree does not keep. -/
theorem mark {kind : Token.Kind} (ht : t.kind = kind)
    (hkind : kind.isContent = false ∧ kind ≠ .kwFor) (h : Retains inLoop ts ls) :
    Retains inLoop (t :: ts) ls := by
  obtain ⟨kept, hof, hkept⟩ := h
  have hin : ¬ (t.kind = .kwIn ∧ inLoop = true) := by
    rintro ⟨hk, -⟩
    rw [← ht, hk] at hkind
    cases hkind.1
  refine ⟨kept, hof, fun rest => ?_⟩
  rw [List.cons_append, contentFrom, if_neg (ht ▸ hkind.2), if_neg hin,
    if_neg (by rw [ht, hkind.1]; exact Bool.false_ne_true), hkept]

/-- The tag that ends a block. -/
theorem endTag {o w c : Token} {kind : Token.Kind} (ho : o.kind = .openStatement)
    (hw : w.kind = kind) (hkind : kind.isContent = false ∧ kind ≠ .kwFor)
    (hc : c.kind = .closeStatement) : Retains inLoop [o, w, c] [] :=
  ((nil.mark hc (by decide)).mark hw hkind).mark ho (by decide)

theorem singleton (ht : x.Of t) (hin : t.kind = .kwIn → inLoop = false) :
    Retains inLoop [t] [x] := nil.leaf ht hin

theorem brackets {o c : Token} {kind kind' : Token.Kind} (ho : o.kind = kind) (hc : c.kind = kind')
    (hkind : kind.isContent = false ∧ kind ≠ .kwFor)
    (hkind' : kind'.isContent = false ∧ kind' ≠ .kwFor) (h : Retains inLoop ts ls) :
    Retains inLoop (o :: (ts ++ [c])) ls := by
  have hclose : Retains inLoop [c] [] := nil.mark hc hkind'
  simpa using (h.append hclose).mark ho hkind

end Retains

/-- The words `for` and `in` with the variable of a loop between them, and what follows. -/
theorem Retains.loop {w i : Token} (hw : w.kind = .kwFor) (hi : i.kind = .kwIn)
    (h : Retains true ts ls) (h' : Retains false us ms) :
    Retains false (w :: (ts ++ i :: us)) (ls ++ ms) := by
  obtain ⟨kept, hof, hkept⟩ := h
  obtain ⟨kept', hof', hkept'⟩ := h'
  refine ⟨kept ++ kept', List.rel_append hof hof', fun rest => ?_⟩
  have hnext : contentFrom true (i :: (us ++ rest)) = contentFrom false (us ++ rest) := by
    rw [contentFrom, if_neg (by rw [hi]; decide), if_pos ⟨hi, rfl⟩]
  calc contentFrom false (w :: (ts ++ i :: us) ++ rest)
      = contentFrom true (ts ++ i :: (us ++ rest)) := by
        rw [List.cons_append, contentFrom, if_pos hw, List.append_assoc, List.cons_append]
    _ = kept ++ kept' ++ contentFrom false rest := by
        rw [hkept, hnext, hkept', List.append_assoc]

/-! ### Inside tags -/

/-- The leaves of what a rule builds inside a tag. -/
@[simp]
def Rule.leaves : (r : Rule) → r.Tree → List Leaf
  | level _, n | index, n | assignment, n => Grammar.leaves n
  | applied names, n => if .boolean ∈ names then leavesOfTest n else Grammar.leaves n
  | part, p => leavesOfPart p
  | slice, ps => ps.flatMap leavesOfPart
  | item i, x => i.leaves x
  | items i, xs | enclosed i, xs => xs.flatMap i.leaves
  | branches, _ | piece, _ | body, _ => []

/-- The rules inside tags; the names of filters are identifiers, those of tests may also be the words
for truth values. -/
def Rule.Expressive : Rule → Prop
  | applied names => names = [.identifier] ∨ names = [.identifier, .boolean]
  | branches | piece | body => False
  | _ => True

/-- A name keeps its token, even between parentheses. -/
theorem Derives.retains_name {l : Level} {ts : List Token} {v : String}
    (h : Derives (.level l) ts (Node.identifier v)) : Retains inLoop ts [.name v] := by
  cases h with
  | tighter hm h => exact h.retains_name
  | identifier ht => exact .singleton ⟨ht, rfl⟩ fun hk => nomatch ht.symm.trans hk
  | parenthesis ho h hc => exact .brackets ho hc (by decide) (by decide) h.retains_name
termination_by (ts.length, l.rank)
decreasing_by
  · exact .right _ (Level.rank_lt_of_tighter? hm)
  · exact .left _ _ (by grind)

/-- **Inside a tag the tree keeps the content of its tokens.** -/
theorem Derives.retains {r : Rule} {v : r.Tree} (h : Derives r ts v) (hr : r.Expressive) :
    Retains false ts (r.leaves v) := by
  induction h with
  -- rules that are others
  | tighter _ _ ih | index _ ih | present _ ih | element _ ih | positional _ ih | plain _ ih =>
    exact ih trivial
  | array _ ih | object _ ih => simpa [leaves] using ih trivial
  | slice _ hlength ih => simpa [leaves_sliceOf hlength] using ih trivial
  | itemsLast _ ih => simpa using ih trivial
  -- expressions
  | inline _ hi _ he _ ih ih' ih'' =>
    have h := (ih' trivial).append ((ih'' trivial).mark he (by decide))
    simpa [leaves] using (ih trivial).append (h.mark hi (by decide))
  | operator _ _ hjoins _ ih ih' =>
    have h := (ih' trivial).leaf (x := .operator _) ⟨⟨_, hjoins⟩, rfl⟩ fun _ => rfl
    simpa [leaves] using (ih trivial).append h
  | not ho _ ih => exact (ih trivial).leaf (x := .negation _) ⟨ho, rfl⟩ fun _ => rfl
  | test _ hi _ ih ih' =>
    simpa [leaves] using (ih trivial).append ((ih' (.inr rfl)).mark hi (by decide))
  | testNot _ hi ho _ ih ih' =>
    have h := (ih' (.inr rfl)).leaf (x := .negated) ho fun _ => rfl
    simpa [leaves] using (ih trivial).append (h.mark hi (by decide))
  | filter _ hp _ ih ih' =>
    simpa [leaves] using (ih trivial).append ((ih' (.inl rfl)).mark hp (by decide))
  | property _ hd ht ih =>
    have h := Retains.singleton (x := .name _) ⟨ht, rfl⟩ fun _ => rfl
    simpa [leaves] using (ih trivial).append (h.mark hd (by decide))
  | subscript _ ho _ hc ih ih' =>
    exact (ih trivial).append (.brackets ho hc (by decide) (by decide) (ih' trivial))
  | call _ _ ih ih' => simpa [leaves] using (ih trivial).append (ih' trivial)
  -- primaries and names
  | number ht hv => exact .singleton ⟨ht, hv⟩ fun _ => rfl
  | string ht | boolean ht | identifier ht => exact .singleton ⟨ht, rfl⟩ fun _ => rfl
  | parenthesis ho _ hc ih => exact .brackets ho hc (by decide) (by decide) (ih trivial)
  | name ht =>
    obtain rfl | rfl := hr
    · exact .singleton (x := .name _) ⟨by simpa using ht, rfl⟩ fun _ => rfl
    · exact .singleton (x := .testName _) ⟨by simpa using ht, rfl⟩ fun _ => rfl
  | applied _ _ ih ih' =>
    have h := (ih hr).append (ih' trivial)
    obtain rfl | rfl := hr <;> simpa [leaves, leavesOfTest] using h
  -- between brackets
  | absent | itemsNil => exact .nil
  | sliceEnd _ hc ih =>
    simpa using (ih trivial).append (Retains.nil.mark hc (by decide))
  | sliceLast _ hc _ ih ih' =>
    simpa [leavesOfPart] using (ih trivial).append ((ih' trivial).mark hc (by decide))
  | sliceMore _ hc _ ih ih' | keyword _ hc _ ih ih' | entry _ hc _ ih ih'
  | itemsMore _ hc _ ih ih' | assign _ hc _ ih ih' =>
    exact (ih trivial).append ((ih' trivial).mark hc (by decide))
  | @enclosed i _ _ _ _ ho _ hc ih =>
    exact .brackets ho hc (by cases i <;> decide) (by cases i <;> decide) (ih trivial)
  | _ => exact hr.elim

/-! ### Pieces -/

/-- The leaves are read off what a rule builds of whole tags. -/
def Rule.Yields : (r : Rule) → r.Tree → List Leaf → Prop
  | branches, n, ls | piece, n, ls => Grammar.Yields n ls
  | body, ns, ls => YieldsAll ns ls
  | _, _, _ => True

/-- **The pieces of a template keep the content of their tokens.** -/
theorem Derives.yields {r : Rule} {v : r.Tree} (h : Derives r ts v)
    (hr : r = .branches ∨ r = .piece ∨ r = .body) : ∃ ls, r.Yields v ls ∧ Retains false ts ls := by
  induction h with
  -- the words and marks of tags have no content, so only the parts contribute
  | noElse htest hc _ _ ih =>
    obtain ⟨ls, hbody, hkept⟩ := ih (by simp)
    refine ⟨_, .conditional _ hbody .nil, ?_⟩
    simpa using (htest.retains trivial).append (hkept.mark hc (by decide))
  | elseIf htest hc _ ho hw _ _ ih ih' =>
    obtain ⟨ls, hbody, hkept⟩ := ih (by simp)
    obtain ⟨ms, hother, hkept'⟩ := ih' (by simp)
    refine ⟨_, .conditional _ hbody (.cons hother .nil), ?_⟩
    have h := hkept.append ((hkept'.mark hw (by decide)).mark ho (by decide))
    simpa using (htest.retains trivial).append (h.mark hc (by decide))
  | elseBody htest hc _ ho hw hc' _ _ ih ih' =>
    obtain ⟨ls, hbody, hkept⟩ := ih (by simp)
    obtain ⟨ms, hother, hkept'⟩ := ih' (by simp)
    refine ⟨_, .conditional _ hbody hother, ?_⟩
    have h := ((hkept'.mark hc' (by decide)).mark hw (by decide)).mark ho (by decide)
    simpa using (htest.retains trivial).append ((hkept.append h).mark hc (by decide))
  | text ht => exact ⟨_, .text _, .singleton ⟨ht, rfl⟩ fun _ => rfl⟩
  | output ho h hc =>
    exact ⟨_, .plain (.value h.fits), .brackets ho hc (by decide) (by decide) (h.retains trivial)⟩
  | set ho hw hn hc =>
    have h := (hn.retains trivial).append (Retains.nil.mark hc (by decide))
    exact ⟨_, .plain hn.fits, by simpa using (h.mark hw (by decide)).mark ho (by decide)⟩
  | conditional ho hw _ ho' hw' hc ih =>
    obtain ⟨ls, hn, hkept⟩ := ih (by simp)
    have h := ((hkept.append (.endTag ho' hw' (by decide) hc)).mark hw (by decide)).mark ho (by decide)
    exact ⟨ls, hn, by simpa using h⟩
  | loop ho hw hv hi hiterable hc _ ho' hw' hc' _ _ ih =>
    obtain ⟨ls, hbody, hkept⟩ := ih (by simp)
    have h := (hkept.append (.endTag ho' hw' (by decide) hc')).mark hc (by decide)
    have h := Retains.loop hw hi hv.retains_name ((hiterable.retains trivial).append h)
    exact ⟨_, .loop _ _ hbody, by simpa [leaves] using h.mark ho (by decide)⟩
  | bodyNil => exact ⟨[], .nil, .nil⟩
  | bodyMore _ _ ih ih' =>
    obtain ⟨ls, hn, hkept⟩ := ih (by simp)
    obtain ⟨ms, hns, hkept'⟩ := ih' (by simp)
    exact ⟨_, .cons hn hns, hkept.append hkept'⟩
  | _ => simp at hr

/-! ### Whole templates -/

theorem contentFrom_of_end (h : ∀ t ∈ ts, t.kind = .endOfInput) : contentFrom inLoop ts = [] := by
  induction ts with
  | nil => rfl
  | cons t ts ih =>
    obtain ⟨ht, hts⟩ := List.forall_mem_cons.mp h
    simp [contentFrom, ht, Token.Kind.isContent, ih hts]

/-- **No content is lost, none is there twice, and none is out of its place.**  The texts, literals,
names and operators of a template that is parsed are, one by one, those that are read off its tree
from left to right. -/
theorem content_of_parse {n : Node} (h : parse ts = .ok n) :
    ∃ body ls, n = .program body ∧ YieldsAll body ls ∧ List.Forall₂ Leaf.Of ls (content ts) := by
  rw [← parseWithin_depthLimit] at h
  obtain ⟨body, rfl, hbody⟩ := derives_of_parseWithin h
  obtain ⟨ls, hyields, kept, hof, hkept⟩ := hbody.yields (by simp)
  obtain ⟨ends, hts, hends⟩ := eq_dropEnd_append ts
  have hcontent : content ts = kept := by
    rw [content, hts, hkept, contentFrom_of_end hends, List.append_nil]
  exact ⟨body, ls, rfl, hyields, hcontent ▸ hof⟩

/-- The tokens of `{% for x in a if b else c %}s{{ x is not true }}{% endfor %}`. -/
def sampleLoop : List Token :=
  [⟨.openStatement, "\x7b%", 1, 1⟩, ⟨.kwFor, "for", 1, 4⟩, ⟨.identifier, "x", 1, 8⟩,
    ⟨.kwIn, "in", 1, 10⟩, ⟨.identifier, "a", 1, 13⟩, ⟨.kwIf, "if", 1, 15⟩,
    ⟨.identifier, "b", 1, 18⟩, ⟨.kwElse, "else", 1, 20⟩, ⟨.identifier, "c", 1, 25⟩,
    ⟨.closeStatement, "%\x7d", 1, 27⟩, ⟨.text, "s", 1, 29⟩, ⟨.openExpression, "\x7b\x7b", 1, 30⟩,
    ⟨.identifier, "x", 1, 33⟩, ⟨.kwIs, "is", 1, 35⟩, ⟨.kwNot, "not", 1, 38⟩,
    ⟨.boolean, "true", 1, 42⟩, ⟨.closeExpression, "\x7d\x7d", 1, 47⟩,
    ⟨.openStatement, "\x7b%", 1, 49⟩, ⟨.kwEndfor, "endfor", 1, 52⟩,
    ⟨.closeStatement, "%\x7d", 1, 59⟩]

/-- The pieces of this template. -/
def sampleLoopBody : List Node :=
  [.loop (.identifier "x") (.conditional (.identifier "b") [.identifier "a"] [.identifier "c"])
    [.string "s", .test (.identifier "x") true (.identifier "true")]]

/-- The word `in` of the loop is not read off its tree, the word `not` of the test is. -/
theorem content_of_parse_sample :
    parse sampleLoop = .ok (.program sampleLoopBody) ∧
    (content sampleLoop).map Token.value = ["x", "a", "b", "c", "s", "x", "not", "true"] ∧
    ∃ body ls, Node.program sampleLoopBody = .program body ∧ YieldsAll body ls ∧
      List.Forall₂ Leaf.Of ls (content sampleLoop) := by
  have hparse : parse sampleLoop = .ok (.program sampleLoopBody) := rfl
  exact ⟨hparse, rfl, content_of_parse hparse⟩

end Grammar

end Stencil
