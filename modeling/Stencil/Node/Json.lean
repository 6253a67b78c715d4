import Stencil.Json.Basic
import Stencil.Node.Basic
import Stencil.Token.Basic

/-!
# Node — Json

Trees and tokens as JSON.  A node is an object: first its kind, then its parts by name.  An absent
part is null, and a pair of an object literal is an object of a key and a value.

The object of a node is made by a function that calls itself for the parts, so the height of a tree is
bounded by the stack: `frames` says how much of it a tree takes.
-/

namespace Stencil

namespace Node

/-- An object that starts with the kind of a node. -/
def tagged (n : Node) (parts : List (String × Json)) : Json :=
  .object (("kind", .string n.kind) :: parts)

mutual

/-- The node as an object. -/
def toJson : Node → Json
  | bare => tagged bare []
  | program b => tagged (program b) [("body", .array (listJson b))]
  | number v => tagged (number v) [("value", .number v)]
  | string v => tagged (string v) [("value", .string v)]
  | boolean v => tagged (boolean v) [("value", .boolean v)]
  | array e => tagged (array e) [("elements", .array (listJson e))]
  | object p => tagged (object p) [("pairs", .array (pairsJson p))]
  | identifier n => tagged (identifier n) [("name", .string n)]
  | member o p c => tagged (member o p c)
      [("object", toJson o), ("property", toJson p), ("computed", .boolean c)]
  | call f a => tagged (call f a) [("callee", toJson f), ("args", .array (listJson a))]
  | binary o l r => tagged (binary o l r)
      [("operator", .string o), ("left", toJson l), ("right", toJson r)]
  | unary o x => tagged (unary o x) [("operator", .string o), ("operand", toJson x)]
  | conditional t b a => tagged (conditional t b a)
      [("test", toJson t), ("body", .array (listJson b)), ("alternate", .array (listJson a))]
  | loop v i b => tagged (loop v i b)
      [("loop_variable", toJson v), ("iterable", toJson i), ("body", .array (listJson b))]
  | assignment t v => tagged (assignment t v) [("target", toJson t), ("value", toJson v)]
  | filter x f => tagged (filter x f) [("operand", toJson x), ("filter", toJson f)]
  | test x n t => tagged (test x n t)
      [("operand", toJson x), ("negate", .boolean n), ("test", toJson t)]
  | slice a b c => tagged (slice a b c)
      [("start", partJson a), ("stop", partJson b), ("step", partJson c)]
  | keyword k v => tagged (keyword k v) [("key", toJson k), ("value", toJson v)]

/-- The nodes of a list, one by one. -/
def listJson : List Node → List Json
  | [] => []
  | n :: rest => toJson n :: listJson rest

/-- The pairs of an object literal, one by one. -/
def pairsJson : List (Node × Node) → List Json
  | [] => []
  | (k, v) :: rest => .object [("key", toJson k), ("value", toJson v)] :: pairsJson rest

/-- A part that may be absent. -/
def partJson : Option Node → Json
  | none => .null
  | some n => toJson n

end

/-! ### The stack -/

mutual

/-- How many calls are open at once while the object of the node is made: the one for the node, and
either the two that find its parts or those for one of the parts. -/
def frames : Node → Nat
  | bare | number _ | string _ | boolean _ | identifier _ => 3
  | program ns | array ns => 1 + max 2 (framesOfAll ns)
  | object ps => 2 + framesOfPairs ps
  | member a b _ | binary _ a b | assignment a b | filter a b | test a _ b | keyword a b =>
    2 + max (frames a) (frames b)
  | unary _ n => 2 + frames n
  | call f args => 1 + max (1 + frames f) (framesOfAll args)
  | conditional t b a => 1 + max (1 + frames t) (max (framesOfAll b) (framesOfAll a))
  | loop v i b => 1 + max (max (1 + frames v) (1 + frames i)) (framesOfAll b)
  | slice a b c => 1 + max 2 (max (framesOfPart a) (max (framesOfPart b) (framesOfPart c)))

/-- A node in a list is reached by three calls. -/
def framesOfAll : List Node → Nat
  | [] => 0
  | n :: ns => max (3 + frames n) (framesOfAll ns)

/-- The key and the value of a pair are reached at once. -/
def framesOfPairs : List (Node × Node) → Nat
  | [] => 0
  | (k, v) :: ps => max (max (frames k) (frames v)) (framesOfPairs ps)

/-- A part is reached by one call. -/
def framesOfPart : Option Node → Nat
  | none => 0
  | some n => 1 + frames n

end

end Node

/-- The token as an object. -/
def Token.toJson (t : Token) : Json :=
  .object [("type", .string t.kind.name), ("value", .string t.value),
    ("line", .number (.integer t.line)), ("col", .number (.integer t.column))]

end Stencil
