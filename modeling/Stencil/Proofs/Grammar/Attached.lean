import Stencil.Proofs.Grammar.Slice

/-!
# Grammar — what is attached to a primary

Behind a primary stand names, subscripts and arguments in any order, behind these filters, and
behind the filters tests.  The tree is a left fold in each of the three rows, in the order of the
source (`attachedTree`); arguments behind the name of a filter or test are folded into a call of that
name.

Each row is derived by one induction (`derives_row`), which is told what one more of its members
does.  The parser finds the whole (`tested_gives_folds`), since no rule goes on with what follows.
-/

namespace Stencil.Grammar
open Stencil.Parser Filter

/-! ### The rows -/

/-- Tokens that are taken whole as a primary. -/
structure Primary where
  run : List Token
  tree : Node
  taken : ∃ d, (Parser.primary d).run run = .ok tree []

/-- Tokens that are taken whole as arguments with their parentheses. -/
structure ArgumentList where
  run : List Token
  trees : List Node
  taken : ∃ d, (Parser.arguments d).run run = .ok trees []

/-- Tokens that are taken as an index or a slice in front of the bracket that closes it. -/
structure Subscripted where
  run : List Token
  tree : Node
  closing : Token
  closes : closing.kind = .rightBracket
  taken : ∃ d, (Parser.index d).run (run ++ [closing]) = .ok tree [closing]

/-- A name of one of the kinds, and the arguments behind it. -/
structure NameCalls (kinds : List Token.Kind) where
  name : Token
  named : name.kind ∈ kinds
  calls : List ArgumentList

/-- What is attached to an object at once. -/
inductive Attached
  | property (dot name : Token) (isDot : dot.kind = .dot) (isName : name.kind = .identifier)
  | subscript (opening : Token) (opens : opening.kind = .leftBracket) (inside : Subscripted)
  | call (arguments : ArgumentList)

/-- A filter behind its mark. -/
structure Piped where
  pipe : Token
  isPipe : pipe.kind = .pipe
  filter : NameCalls [.identifier]

/-- A test behind the word `is`, or behind `is not`. -/
structure Asked where
  word : Token
  isIs : word.kind = .kwIs
  not : Option Not
  test : NameCalls [.identifier, .boolean]

/-! ### Tokens and trees -/

namespace NameCalls

variable {kinds : List Token.Kind}

def tokens (c : NameCalls kinds) : List Token := c.name :: c.calls.flatMap ArgumentList.run

/-- The name, called with each list of arguments in turn. -/
def tree (c : NameCalls kinds) : Node :=
  c.calls.foldl (fun callee args => .call callee args.trees) (.identifier c.name.value)

end NameCalls

namespace Attached

def tokens : Attached → List Token
  | property dot name _ _ => [dot, name]
  | subscript opening _ inside => opening :: (inside.run ++ [inside.closing])
  | call args => args.run

/-- The object with what is attached to it. -/
def onto (object : Node) : Attached → Node
  | property _ name _ _ => .member object (.identifier name.value) false
  | subscript _ _ inside => .member object inside.tree true
  | call args => .call object args.trees

end Attached

namespace Piped

def tokens (p : Piped) : List Token := p.pipe :: p.filter.tokens

/-- The operand with the filter. -/
def onto (operand : Node) (p : Piped) : Node := .filter operand p.filter.tree

end Piped

namespace Asked

def tokens (a : Asked) : List Token :=
  a.word :: ((a.not.map Subtype.val).toList ++ a.test.tokens)

/-- The operand with the test. -/
def onto (operand : Node) (a : Asked) : Node := .test operand a.not.isSome a.test.tree

end Asked

/-- The tokens of a primary, what is attached to it, filters and tests. -/
def attachedTokens (base : Primary) (attached : List Attached) (filters : List Piped)
    (tests : List Asked) : List Token :=
  base.run ++ attached.flatMap Attached.tokens ++ filters.flatMap Piped.tokens ++
    tests.flatMap Asked.tokens

/-- The tests folded over the filters, those over what is attached, and that over the primary. -/
def attachedTree (base : Primary) (attached : List Attached) (filters : List Piped)
    (tests : List Asked) : Node :=
  tests.foldl Asked.onto (filters.foldl Piped.onto (attached.foldl Attached.onto base.tree))

/-! ### Derivations -/

/-- A primary is derived from its tokens. -/
theorem Primary.derives (base : Primary) : Derives (.level .primary) base.run base.tree := by
  obtain ⟨d, hd⟩ := base.taken
  obtain ⟨used, hrun, h⟩ := (rules_sound d).level .primary hd
  rw [List.append_nil] at hrun
  rwa [hrun]

/-- Arguments in parentheses are derived from their tokens, with or without a comma at the end. -/
theorem ArgumentList.derives (args : ArgumentList) :
    Derives (.enclosed .argument) args.run args.trees := by
  obtain ⟨d, hd⟩ := args.taken
  obtain ⟨used, hrun, h⟩ := (rules_sound d).arguments hd
  rw [List.append_nil] at hrun
  rwa [hrun]

theorem Subscripted.derives (inside : Subscripted) : Derives .index inside.run inside.tree := by
  obtain ⟨d, hd⟩ := inside.taken
  obtain ⟨used, hrun, h⟩ := (rules_sound d).index hd
  rwa [List.append_cancel_right hrun]

/-- A row behind what is derived, where each of its members may stand behind what is derived. -/
theorem derives_row {β : Type} {Q : List Token → Node → Prop} {tokens : β → List Token}
    {onto : Node → β → Node} (more : ∀ {ts n} b, Q ts n → Q (ts ++ tokens b) (onto n b))
    (row : List β) {ts : List Token} {n : Node} (h : Q ts n) :
    Q (ts ++ row.flatMap tokens) (row.foldl onto n) := by
  induction row generalizing ts n with
  | nil => rwa [List.flatMap_nil, List.append_nil]
  | cons b row ih =>
    rw [List.flatMap_cons, ← List.append_assoc]
    exact ih (more b h)

/-- A name with argument lists behind it is derived as the call of a call. -/
theorem NameCalls.derives {kinds : List Token.Kind} (c : NameCalls kinds) :
    Derives (.applied kinds) c.tokens c.tree := by
  have hname : Derives (.applied kinds) [c.name] (Node.identifier c.name.value) := .name c.named
  exact derives_row (Q := Derives (.applied kinds)) (fun args h => h.applied args.derives) c.calls
    hname

variable {ts : List Token} {n : Node}

/-- A piece is attached to whatever chain stands before it. -/
theorem Attached.derives (a : Attached) (h : Derives (.level .chained) ts n) :
    Derives (.level .chained) (ts ++ a.tokens) (a.onto n) := by
  cases a with
  | property dot name isDot isName => exact h.property isDot isName
  | subscript opening opens inside => exact h.subscript opens inside.derives inside.closes
  | call args => exact h.call args.derives

theorem Piped.derives (p : Piped) (h : Derives (.level .filtered) ts n) :
    Derives (.level .filtered) (ts ++ p.tokens) (p.onto n) :=
  h.filter p.isPipe p.filter.derives

/-- A test is put behind whatever is tested so far. -/
theorem Asked.derives (a : Asked) (h : Derives (.level .tested) ts n) :
    Derives (.level .tested) (ts ++ a.tokens) (a.onto n) := by
  obtain ⟨word, isIs, _ | not, test⟩ := a
  · exact h.test isIs test.derives
  · exact h.testNot isIs not.2 test.derives

/-- **The grammar derives the folds.** -/
theorem derives_folds (base : Primary) (attached : List Attached) (filters : List Piped)
    (tests : List Asked) :
    Derives (.level .tested) (attachedTokens base attached filters tests)
      (attachedTree base attached filters tests) := by
  have hbase : Derives (.level .chained) base.run base.tree := .tighter rfl base.derives
  have hattached := derives_row (Q := Derives (.level .chained)) Attached.derives attached hbase
  have hfilters := derives_row (Q := Derives (.level .filtered)) Piped.derives filters
    (.tighter rfl hattached)
  exact derives_row (Q := Derives (.level .tested)) Asked.derives tests (.tighter rfl hfilters)

/-! ### The rule for tests -/

/-- The kinds that go on with an operand, its filters or its tests. -/
def attaching : List Token.Kind := [.dot, .leftBracket, .leftParen, .pipe, .kwIs]

/-- Any other token is left to looser rules. -/
theorem tested_lt_rankOf {kind : Token.Kind} (h : kind ∉ attaching) :
    Level.tested.rank < rankOf kind := by
  cases kind <;> simp_all [attaching, rankOf, Level.rank]

/-- **Postfix, filter and test chains are left folds in source order.**  The rule for tests takes the
three rows whole and builds the folds, where no token follows that goes on with them. -/
theorem tested_gives_folds (base : Primary) (attached : List Attached) (filters : List Piped)
    (tests : List Asked) {rest : List Token} (hrest : (front rest).kind ∉ attaching) :
    Gives Parser.tested (attachedTokens base attached filters tests ++ rest)
      (.ok (attachedTree base attached filters tests) rest) := by
  refine gives_of_eventually (fun hde => (rules_shallower hde).tested) ?_
  have hlt := tested_lt_rankOf hrest
  filter_upwards [(derives_folds base attached filters tests).found.stopped] with d hd
  exact hd rest hlt.le fun e => Level.step_of_lt hlt e _

/-- A name is a primary. -/
def primaryName (name : String) : Primary where
  run := [⟨.identifier, name, 1, 1⟩]
  tree := .identifier name
  taken := ⟨1, rfl⟩

/-- A name between parentheses is a list of one argument. -/
def argumentName (name : String) : ArgumentList where
  run := [⟨.leftParen, "(", 1, 1⟩, ⟨.identifier, name, 1, 1⟩, ⟨.rightParen, ")", 1, 1⟩]
  trees := [.identifier name]
  taken := ⟨14, rfl⟩

/-- In `a.b(c)(d)|f(x)(y) is not g(z)` the arguments behind `b` are folded into the operand, those
behind `f` and `g` into the names. -/
theorem tested_gives_folds_sample : (front []).kind ∉ attaching ∧
    Gives Parser.tested
      (attachedTokens (primaryName "a")
        [.property ⟨.dot, ".", 1, 1⟩ ⟨.identifier, "b", 1, 1⟩ rfl rfl, .call (argumentName "c"),
          .call (argumentName "d")]
        [⟨⟨.pipe, "|", 1, 1⟩, rfl, ⟨.identifier, "f", 1, 1⟩, .head _,
          [argumentName "x", argumentName "y"]⟩]
        [⟨⟨.kwIs, "is", 1, 1⟩, rfl, some ⟨⟨.kwNot, "not", 1, 1⟩, rfl⟩,
          ⟨.identifier, "g", 1, 1⟩, .head _, [argumentName "z"]⟩] ++ [])
      (.ok
        (.test
          (.filter
            (.call
              (.call (.member (.identifier "a") (.identifier "b") false) [.identifier "c"])
              [.identifier "d"])
            (.call (.call (.identifier "f") [.identifier "x"]) [.identifier "y"]))
          true (.call (.identifier "g") [.identifier "z"])) []) :=
  ⟨by decide, tested_gives_folds _ _ _ _ (by decide)⟩

end Stencil.Grammar
