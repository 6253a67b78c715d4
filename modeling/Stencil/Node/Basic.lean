import Stencil.Number.Basic

/-!
# Node

The tree of a template.  One type holds all nodes, from the whole program to a literal, because a
tree made by hand may put any node anywhere; which trees the parser makes is a matter of the
grammar.  A conditional stands for the statement with its branches and for the inline form, whose
branches hold one expression each.
-/

namespace Stencil

/-- A node of the tree. -/
inductive Node
  /-- A node without a part. -/
  | bare
  /-- A whole template. -/
  | program (body : List Node)
  | number (value : Number)
  | string (value : String)
  | boolean (value : Bool)
  | array (elements : List Node)
  /-- Keys with values in the order of the source; equal keys are not merged. -/
  | object (pairs : List (Node × Node))
  | identifier (name : String)
  /-- `object.property`, or `object[property]` if computed. -/
  | member (object property : Node) (computed : Bool)
  | call (callee : Node) (args : List Node)
  | binary (operator : String) (left right : Node)
  | unary (operator : String) (operand : Node)
  | conditional (test : Node) (body alternate : List Node)
  | loop (target iterable : Node) (body : List Node)
  | assignment (target value : Node)
  /-- `operand | filter`. -/
  | filter (operand filter : Node)
  /-- `operand is test`, or `operand is not test` if negated. -/
  | test (operand : Node) (negated : Bool) (test : Node)
  /-- `start:stop:step`, where parts may be absent. -/
  | slice (start stop step : Option Node)
  /-- `key=value` among arguments. -/
  | keyword (key value : Node)

namespace Node

instance : Inhabited Node := ⟨bare⟩

/-- The name of the kind of a node. -/
def kind : Node → String
  | bare            => "Node"
  | program ..      => "Program"
  | number ..       => "NumericLiteral"
  | string ..       => "StringLiteral"
  | boolean ..      => "BooleanLiteral"
  | array ..        => "ArrayLiteral"
  | object ..       => "ObjectLiteral"
  | identifier ..   => "Identifier"
  | member ..       => "MemberExpression"
  | call ..         => "CallExpression"
  | binary ..       => "BinaryExpression"
  | unary ..        => "UnaryExpression"
  | conditional ..  => "If"
  | loop ..         => "For"
  | assignment ..   => "SetStatement"
  | filter ..       => "FilterExpression"
  | test ..         => "TestExpression"
  | slice ..        => "SliceExpression"
  | keyword ..      => "KeywordArgumentExpression"

/-- Is the node a name? -/
def isIdentifier : Node → Bool
  | identifier _ => true
  | _ => false

/-! ### Sameness -/

mutual

/-- Do two trees have the same shape, the same texts and numbers of the same value? -/
def same : Node → Node → Bool
  | bare, bare => true
  | program b, program b' => sameLists b b'
  | number v, number v' => v.same v'
  | string v, string v' => v == v'
  | boolean v, boolean v' => v == v'
  | array e, array e' => sameLists e e'
  | object p, object p' => samePairs p p'
  | identifier n, identifier n' => n == n'
  | member o p c, member o' p' c' => same o o' && same p p' && c == c'
  | call f a, call f' a' => same f f' && sameLists a a'
  | binary o l r, binary o' l' r' => o == o' && same l l' && same r r'
  | unary o x, unary o' x' => o == o' && same x x'
  | conditional t b a, conditional t' b' a' => same t t' && sameLists b b' && sameLists a a'
  | loop v i b, loop v' i' b' => same v v' && same i i' && sameLists b b'
  | assignment t v, assignment t' v' => same t t' && same v v'
  | filter x f, filter x' f' => same x x' && same f f'
  | test x n t, test x' n' t' => same x x' && n == n' && same t t'
  | slice a b c, slice a' b' c' => sameParts a a' && sameParts b b' && sameParts c c'
  | keyword k v, keyword k' v' => same k k' && same v v'
  | _, _ => false
termination_by structural x => x

/-- Are the nodes of two lists the same, one by one? -/
def sameLists : List Node → List Node → Bool
  | [], [] => true
  | a :: as, b :: bs => same a b && sameLists as bs
  | _, _ => false
termination_by structural x => x

/-- Are the pairs of two lists the same, one by one? -/
def samePairs : List (Node × Node) → List (Node × Node) → Bool
  | [], [] => true
  | (k, v) :: as, (k', v') :: bs => same k k' && same v v' && samePairs as bs
  | _, _ => false
termination_by structural x => x

/-- Are two parts both absent, or the same? -/
def sameParts : Option Node → Option Node → Bool
  | none, none => true
  | some a, some b => same a b
  | _, _ => false
termination_by structural x => x

end

end Node

end Stencil
