import Mathlib.Data.List.Forall2
import Stencil.Node.Basic

/-!
# Node — leaves

The values of a tree are at its leaves and in its operators; all else of it is form.  `mapLeaves`
changes the values and keeps the form.  Of the changes two matter: the one that changes nothing
(`mapLeaves_unchanged`), and the one that puts the same value everywhere, so that the form alone is
left (`erase`).
-/

namespace Stencil

/-- What is done to the values of a tree. -/
structure LeafMap where
  number : Number → Number
  string : String → String
  boolean : Bool → Bool
  name : String → String
  operator : String → String

/-- Every value stays. -/
def LeafMap.unchanged : LeafMap := ⟨id, id, id, id, id⟩

/-- Every value is replaced by one and the same. -/
def LeafMap.blank : LeafMap :=
  ⟨fun _ => .integer 0, fun _ => "", fun _ => false, fun _ => "", fun _ => ""⟩

namespace Node

mutual

/-- The tree with other values. -/
def mapLeaves (f : LeafMap) : Node → Node
  | bare => bare
  | program b => program (mapAll f b)
  | number v => number (f.number v)
  | string v => string (f.string v)
  | boolean v => boolean (f.boolean v)
  | array e => array (mapAll f e)
  | object p => object (mapPairs f p)
  | identifier n => identifier (f.name n)
  | member o p c => member (mapLeaves f o) (mapLeaves f p) c
  | call g a => call (mapLeaves f g) (mapAll f a)
  | binary o l r => binary (f.operator o) (mapLeaves f l) (mapLeaves f r)
  | unary o x => unary (f.operator o) (mapLeaves f x)
  | conditional t b a => conditional (mapLeaves f t) (mapAll f b) (mapAll f a)
  | loop v i b => loop (mapLeaves f v) (mapLeaves f i) (mapAll f b)
  | assignment t v => assignment (mapLeaves f t) (mapLeaves f v)
  | filter x g => filter (mapLeaves f x) (mapLeaves f g)
  | test x n t => test (mapLeaves f x) n (mapLeaves f t)
  | slice a b c => slice (mapPart f a) (mapPart f b) (mapPart f c)
  | keyword k v => keyword (mapLeaves f k) (mapLeaves f v)
termination_by structural n => n

/-- The nodes of a list with other values. -/
def mapAll (f : LeafMap) : List Node → List Node
  | [] => []
  | n :: ns => mapLeaves f n :: mapAll f ns
termination_by structural ns => ns

/-- The pairs of an object literal with other values. -/
def mapPairs (f : LeafMap) : List (Node × Node) → List (Node × Node)
  | [] => []
  | (k, v) :: ps => (mapLeaves f k, mapLeaves f v) :: mapPairs f ps
termination_by structural ps => ps

/-- A part that may be absent, with other values. -/
def mapPart (f : LeafMap) : Option Node → Option Node
  | none => none
  | some n => some (mapLeaves f n)
termination_by structural p => p

end

variable {f : LeafMap}

/-- Values are changed within a node, never the kind of the node itself. -/
theorem kind_mapLeaves (n : Node) : (n.mapLeaves f).kind = n.kind := by
  cases n <;> rfl

/-- Lists whose nodes become equal one by one become equal. -/
theorem mapAll_congr {ns ns' : List Node}
    (h : List.Forall₂ (fun n n' => n.mapLeaves f = n'.mapLeaves f) ns ns') :
    mapAll f ns = mapAll f ns' := by
  induction h with
  | nil => rfl
  | cons hn _ ih => rw [mapAll, mapAll, hn, ih]

/-- Object literals whose keys and values become equal pair by pair become equal. -/
theorem mapPairs_congr {ps ps' : List (Node × Node)}
    (h : List.Forall₂ (fun p p' => p.1.mapLeaves f = p'.1.mapLeaves f ∧
      p.2.mapLeaves f = p'.2.mapLeaves f) ps ps') : mapPairs f ps = mapPairs f ps' := by
  induction h with
  | nil => rfl
  | cons hp _ ih => rw [mapPairs, mapPairs, hp.1, hp.2, ih]

/-- Parts that are present or absent alike, and become equal, become equal as parts. -/
theorem mapPart_congr {p p' : Option Node}
    (h : Option.Rel (fun n n' => n.mapLeaves f = n'.mapLeaves f) p p') :
    mapPart f p = mapPart f p' := by
  cases h with
  | some hn => rw [mapPart, mapPart, hn]
  | none => rfl

/-! ### Nothing changed -/

mutual

/-- A tree whose values all stay is the tree itself. -/
@[simp] theorem mapLeaves_unchanged : ∀ n : Node, n.mapLeaves LeafMap.unchanged = n
  | bare | number _ | string _ | boolean _ | identifier _ => rfl
  | program b => by rw [mapLeaves, mapAll_unchanged]
  | array e => by rw [mapLeaves, mapAll_unchanged]
  | object p => by rw [mapLeaves, mapPairs_unchanged]
  | member o p _ | assignment o p | filter o p | keyword o p | test o _ p => by
    rw [mapLeaves, mapLeaves_unchanged o, mapLeaves_unchanged p]
  | binary o l r => by
    rw [mapLeaves, mapLeaves_unchanged l, mapLeaves_unchanged r]
    rfl
  | call g a => by rw [mapLeaves, mapLeaves_unchanged g, mapAll_unchanged]
  | unary o x => by
    rw [mapLeaves, mapLeaves_unchanged x]
    rfl
  | conditional t b a => by
    rw [mapLeaves, mapLeaves_unchanged t, mapAll_unchanged, mapAll_unchanged]
  | loop v i b => by
    rw [mapLeaves, mapLeaves_unchanged v, mapLeaves_unchanged i, mapAll_unchanged]
  | slice a b c => by
    rw [mapLeaves, mapPart_unchanged, mapPart_unchanged, mapPart_unchanged]

theorem mapAll_unchanged : ∀ ns : List Node, mapAll LeafMap.unchanged ns = ns
  | [] => rfl
  | n :: ns => by rw [mapAll, mapLeaves_unchanged n, mapAll_unchanged ns]

theorem mapPairs_unchanged : ∀ ps : List (Node × Node), mapPairs LeafMap.unchanged ps = ps
  | [] => rfl
  | (k, v) :: ps => by
    rw [mapPairs, mapLeaves_unchanged k, mapLeaves_unchanged v, mapPairs_unchanged ps]

theorem mapPart_unchanged : ∀ p : Option Node, mapPart LeafMap.unchanged p = p
  | none => rfl
  | some n => by rw [mapPart, mapLeaves_unchanged n]

end

/-! ### The form alone -/

/-- The form of a tree: all values are replaced. -/
def erase (n : Node) : Node := n.mapLeaves LeafMap.blank

end Node

end Stencil
