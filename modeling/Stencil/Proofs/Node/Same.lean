import Stencil.Node.Json
import Stencil.Proofs.Json.Same
import Stencil.Proofs.Node.Leaves
import Stencil.Proofs.Number.Same

/-!
# Node — sameness

Two trees are the same exactly if their objects are (`same_toJson`): the kind comes first in every
object, so trees of two kinds have objects apart, and trees of one kind name the same parts in the
same order, so that their objects are compared part by part.

Sameness of trees is equality once each number is put in place of all those of its exact value,
for trees in which every number has one (`same_iff`).  So among those trees it is an equivalence.
-/

namespace Stencil

namespace Node

mutual

/-- Does every number of the tree have an exact value? -/
def noNan : Node → Bool
  | bare | string _ | boolean _ | identifier _ => true
  | program b => noNanAll b
  | number v => v.value != .nan
  | array e => noNanAll e
  | object p => noNanPairs p
  | member o p _ | assignment o p | filter o p | keyword o p | test o _ p => noNan o && noNan p
  | call g a => noNan g && noNanAll a
  | binary _ l r => noNan l && noNan r
  | unary _ x => noNan x
  | conditional t b a => noNan t && noNanAll b && noNanAll a
  | loop v i b => noNan v && noNan i && noNanAll b
  | slice a b c => noNanPart a && noNanPart b && noNanPart c
termination_by structural n => n

/-- Does every number in a list of trees have an exact value? -/
def noNanAll : List Node → Bool
  | [] => true
  | n :: ns => noNan n && noNanAll ns
termination_by structural ns => ns

/-- Does every number in the pairs of an object literal have an exact value? -/
def noNanPairs : List (Node × Node) → Bool
  | [] => true
  | (k, v) :: ps => noNan k && noNan v && noNanPairs ps
termination_by structural ps => ps

/-- Does every number of a part that may be absent have an exact value? -/
def noNanPart : Option Node → Bool
  | none => true
  | some n => noNan n
termination_by structural p => p

end

/-! ### Equality up to exact values -/

/-- Every number is put in place of those of its exact value, and all else stays. -/
noncomputable def exact : LeafMap := { LeafMap.unchanged with number := Number.representative }

theorem same_of_kind_ne {a b : Node} (h : a.kind ≠ b.kind) : a.same b = false := by
  cases a <;> cases b <;> first | rfl | exact absurd rfl h

/-- Trees of two kinds are neither the same nor equal up to exact values. -/
theorem same_iff_of_kind_ne {a b : Node} (h : a.kind ≠ b.kind) :
    a.same b = true ↔ a.noNan = true ∧ a.mapLeaves exact = b.mapLeaves exact := by
  have hmap : a.mapLeaves exact ≠ b.mapLeaves exact := fun heq =>
    h (by rw [← kind_mapLeaves a, heq, kind_mapLeaves b])
  simp [same_of_kind_ne h, hmap]

mutual

/-- **Sameness is equality up to exact values**, of trees whose numbers all have one. -/
theorem same_iff : ∀ a b : Node,
    a.same b = true ↔ a.noNan = true ∧ a.mapLeaves exact = b.mapLeaves exact
  -- along the constructors of the first tree; trees of two kinds are neither same nor equal
  | bare, m => by
    cases m with
    | bare => simp [same, noNan]
    | _ => exact same_iff_of_kind_ne (by simp [kind])
  | program b, m => by
    cases m with
    | program b' => simp [same, noNan, mapLeaves, sameLists_iff b b']
    | _ => exact same_iff_of_kind_ne (by simp [kind])
  | number v, m => by
    cases m with
    | number w =>
      simp [same, noNan, mapLeaves, exact, Number.same_iff, Number.representative_eq_iff]
    | _ => exact same_iff_of_kind_ne (by simp [kind])
  | string v, m => by
    cases m with
    | string v' => simp [same, noNan, mapLeaves, exact, LeafMap.unchanged]
    | _ => exact same_iff_of_kind_ne (by simp [kind])
  | boolean v, m => by
    cases m with
    | boolean v' => simp [same, noNan, mapLeaves, exact, LeafMap.unchanged]
    | _ => exact same_iff_of_kind_ne (by simp [kind])
  | array e, m => by
    cases m with
    | array e' => simp [same, noNan, mapLeaves, sameLists_iff e e']
    | _ => exact same_iff_of_kind_ne (by simp [kind])
  | object p, m => by
    cases m with
    | object p' => simp [same, noNan, mapLeaves, samePairs_iff p p']
    | _ => exact same_iff_of_kind_ne (by simp [kind])
  | identifier n, m => by
    cases m with
    | identifier n' => simp [same, noNan, mapLeaves, exact, LeafMap.unchanged]
    | _ => exact same_iff_of_kind_ne (by simp [kind])
  | member o p c, m => by
    cases m with
    | member o' p' c' =>
      simp [same, noNan, mapLeaves, same_iff o o', same_iff p p', and_assoc, and_left_comm]
    | _ => exact same_iff_of_kind_ne (by simp [kind])
  | call g a, m => by
    cases m with
    | call g' a' =>
      simp [same, noNan, mapLeaves, same_iff g g', sameLists_iff a a', and_assoc, and_left_comm]
    | _ => exact same_iff_of_kind_ne (by simp [kind])
  | binary o l r, m => by
    cases m with
    | binary o' l' r' =>
      simp [same, noNan, mapLeaves, same_iff l l', same_iff r r', exact, LeafMap.unchanged,
        and_assoc, and_left_comm]
    | _ => exact same_iff_of_kind_ne (by simp [kind])
  | unary o x, m => by
    cases m with
    | unary o' x' =>
      simp [same, noNan, mapLeaves, same_iff x x', exact, LeafMap.unchanged, and_left_comm]
    | _ => exact same_iff_of_kind_ne (by simp [kind])
  | conditional t b a, m => by
    cases m with
    | conditional t' b' a' =>
      simp [same, noNan, mapLeaves, same_iff t t', sameLists_iff b b', sameLists_iff a a',
        and_assoc, and_left_comm]
    | _ => exact same_iff_of_kind_ne (by simp [kind])
  | loop v i b, m => by
    cases m with
    | loop v' i' b' =>
      simp [same, noNan, mapLeaves, same_iff v v', same_iff i i', sameLists_iff b b', and_assoc,
        and_left_comm]
    | _ => exact same_iff_of_kind_ne (by simp [kind])
  | assignment t v, m => by
    cases m with
    | assignment t' v' =>
      simp [same, noNan, mapLeaves, same_iff t t', same_iff v v', and_assoc, and_left_comm]
    | _ => exact same_iff_of_kind_ne (by simp [kind])
  | filter x g, m => by
    cases m with
    | filter x' g' =>
      simp [same, noNan, mapLeaves, same_iff x x', same_iff g g', and_assoc, and_left_comm]
    | _ => exact same_iff_of_kind_ne (by simp [kind])
  | test x n t, m => by
    cases m with
    | test x' n' t' =>
      simp [same, noNan, mapLeaves, same_iff x x', same_iff t t', and_assoc, and_left_comm]
    | _ => exact same_iff_of_kind_ne (by simp [kind])
  | slice a b c, m => by
    cases m with
    | slice a' b' c' =>
      simp [same, noNan, mapLeaves, sameParts_iff a a', sameParts_iff b b', sameParts_iff c c',
        and_assoc, and_left_comm]
    | _ => exact same_iff_of_kind_ne (by simp [kind])
  | keyword k v, m => by
    cases m with
    | keyword k' v' =>
      simp [same, noNan, mapLeaves, same_iff k k', same_iff v v', and_assoc, and_left_comm]
    | _ => exact same_iff_of_kind_ne (by simp [kind])

theorem sameLists_iff : ∀ as bs : List Node,
    sameLists as bs = true ↔ noNanAll as = true ∧ mapAll exact as = mapAll exact bs
  | [], [] | [], _ :: _ | _ :: _, [] => by simp [sameLists, noNanAll, mapAll]
  | a :: as, b :: bs => by
    simp [sameLists, noNanAll, mapAll, same_iff a b, sameLists_iff as bs, and_assoc, and_left_comm]

theorem samePairs_iff : ∀ as bs : List (Node × Node),
    samePairs as bs = true ↔ noNanPairs as = true ∧ mapPairs exact as = mapPairs exact bs
  | [], [] | [], _ :: _ | _ :: _, [] => by simp [samePairs, noNanPairs, mapPairs]
  | (k, v) :: as, (k', v') :: bs => by
    simp [samePairs, noNanPairs, mapPairs, same_iff k k', same_iff v v', samePairs_iff as bs,
      and_assoc, and_left_comm]

theorem sameParts_iff : ∀ a b : Option Node,
    sameParts a b = true ↔ noNanPart a = true ∧ mapPart exact a = mapPart exact b
  | none, none | none, some _ | some _, none => by simp [sameParts, noNanPart, mapPart]
  | some a, some b => by simp [sameParts, noNanPart, mapPart, same_iff a b]

end

/-! ### Sameness of the objects -/

variable {n m : Node} {parts parts' : List (String × Json)}

theorem tagged_same_of_kind_ne (h : n.kind ≠ m.kind) :
    (tagged n parts).same (tagged m parts') = false := by
  simp [tagged, Json.same, Json.sameFields, h]

/-- Objects that name the same parts in the same order are compared part by part. -/
theorem tagged_same (hkind : n.kind = m.kind) (hnames : parts.map Prod.fst = parts'.map Prod.fst)
    (hnodup : ("kind" :: parts'.map Prod.fst).Nodup) :
    (tagged n parts).same (tagged m parts') =
      Json.sameElements (parts.map Prod.snd) (parts'.map Prod.snd) := by
  have hlength : parts.length = parts'.length := by simpa using congrArg List.length hnames
  have hfields : Json.sameFields (("kind", .string n.kind) :: parts)
      (("kind", .string m.kind) :: parts') = _ :=
    Json.sameFields_eq (by simpa using hnames) (by simpa using hnodup)
  rw [tagged, tagged, Json.same, hfields]
  simp [Json.sameElements, Json.same, hkind, hlength]

/-- The object of a node starts with its kind. -/
theorem exists_tagged (n : Node) : ∃ parts, n.toJson = tagged n parts := by
  cases n <;> exact ⟨_, rfl⟩

/-- Neither trees of two kinds nor their objects are the same. -/
theorem same_toJson_of_kind_ne (h : n.kind ≠ m.kind) : n.toJson.same m.toJson = n.same m := by
  obtain ⟨parts, hn⟩ := exists_tagged n
  obtain ⟨parts', hm⟩ := exists_tagged m
  rw [hn, hm, tagged_same_of_kind_ne h, same_of_kind_ne h]

mutual

/-- **The objects of two trees are the same exactly if the trees are.** -/
theorem same_toJson : ∀ a b : Node, a.toJson.same b.toJson = a.same b
  -- objects of two kinds differ in their first field, those of one kind in the others at most
  | bare, m => by
    cases m with
    | bare => rfl
    | _ => exact same_toJson_of_kind_ne (by simp [kind])
  | program b, m => by
    cases m with
    | program b' =>
      refine Eq.trans (tagged_same rfl rfl (by simp)) ?_
      simp [same, Json.same, Json.sameElements, same_listJson b b']
    | _ => exact same_toJson_of_kind_ne (by simp [kind])
  | number v, m => by
    cases m with
    | number v' =>
      refine Eq.trans (tagged_same rfl rfl (by simp)) ?_
      simp [same, Json.same, Json.sameElements]
    | _ => exact same_toJson_of_kind_ne (by simp [kind])
  | string v, m => by
    cases m with
    | string v' =>
      refine Eq.trans (tagged_same rfl rfl (by simp)) ?_
      simp [same, Json.same, Json.sameElements]
    | _ => exact same_toJson_of_kind_ne (by simp [kind])
  | boolean v, m => by
    cases m with
    | boolean v' =>
      refine Eq.trans (tagged_same rfl rfl (by simp)) ?_
      simp [same, Json.same, Json.sameElements]
    | _ => exact same_toJson_of_kind_ne (by simp [kind])
  | array e, m => by
    cases m with
    | array e' =>
      refine Eq.trans (tagged_same rfl rfl (by simp)) ?_
      simp [same, Json.same, Json.sameElements, same_listJson e e']
    | _ => exact same_toJson_of_kind_ne (by simp [kind])
  | object p, m => by
    cases m with
    | object p' =>
      refine Eq.trans (tagged_same rfl rfl (by simp)) ?_
      simp [same, Json.same, Json.sameElements, same_pairsJson p p']
    | _ => exact same_toJson_of_kind_ne (by simp [kind])
  | identifier n, m => by
    cases m with
    | identifier n' =>
      refine Eq.trans (tagged_same rfl rfl (by simp)) ?_
      simp [same, Json.same, Json.sameElements]
    | _ => exact same_toJson_of_kind_ne (by simp [kind])
  | member o p c, m => by
    cases m with
    | member o' p' c' =>
      refine Eq.trans (tagged_same rfl rfl (by simp)) ?_
      simp [same, Json.same, Json.sameElements, same_toJson o o', same_toJson p p', Bool.and_assoc]
    | _ => exact same_toJson_of_kind_ne (by simp [kind])
  | call g a, m => by
    cases m with
    | call g' a' =>
      refine Eq.trans (tagged_same rfl rfl (by simp)) ?_
      simp [same, Json.same, Json.sameElements, same_toJson g g', same_listJson a a']
    | _ => exact same_toJson_of_kind_ne (by simp [kind])
  | binary o l r, m => by
    cases m with
    | binary o' l' r' =>
      refine Eq.trans (tagged_same rfl rfl (by simp)) ?_
      simp [same, Json.same, Json.sameElements, same_toJson l l', same_toJson r r', Bool.and_assoc]
    | _ => exact same_toJson_of_kind_ne (by simp [kind])
  | unary o x, m => by
    cases m with
    | unary o' x' =>
      refine Eq.trans (tagged_same rfl rfl (by simp)) ?_
      simp [same, Json.same, Json.sameElements, same_toJson x x']
    | _ => exact same_toJson_of_kind_ne (by simp [kind])
  | conditional t b a, m => by
    cases m with
    | conditional t' b' a' =>
      refine Eq.trans (tagged_same rfl rfl (by simp)) ?_
      simp [same, Json.same, Json.sameElements, same_toJson t t', same_listJson b b',
        same_listJson a a', Bool.and_assoc]
    | _ => exact same_toJson_of_kind_ne (by simp [kind])
  | loop v i b, m => by
    cases m with
    | loop v' i' b' =>
      refine Eq.trans (tagged_same rfl rfl (by simp)) ?_
      simp [same, Json.same, Json.sameElements, same_toJson v v', same_toJson i i',
        same_listJson b b', Bool.and_assoc]
    | _ => exact same_toJson_of_kind_ne (by simp [kind])
  | assignment t v, m => by
    cases m with
    | assignment t' v' =>
      refine Eq.trans (tagged_same rfl rfl (by simp)) ?_
      simp [same, Json.sameElements, same_toJson t t', same_toJson v v']
    | _ => exact same_toJson_of_kind_ne (by simp [kind])
  | filter x g, m => by
    cases m with
    | filter x' g' =>
      refine Eq.trans (tagged_same rfl rfl (by simp)) ?_
      simp [same, Json.sameElements, same_toJson x x', same_toJson g g']
    | _ => exact same_toJson_of_kind_ne (by simp [kind])
  | test x n t, m => by
    cases m with
    | test x' n' t' =>
      refine Eq.trans (tagged_same rfl rfl (by simp)) ?_
      simp [same, Json.same, Json.sameElements, same_toJson x x', same_toJson t t', Bool.and_assoc]
    | _ => exact same_toJson_of_kind_ne (by simp [kind])
  | slice a b c, m => by
    cases m with
    | slice a' b' c' =>
      refine Eq.trans (tagged_same rfl rfl (by simp)) ?_
      simp [same, Json.sameElements, same_partJson a a', same_partJson b b', same_partJson c c',
        Bool.and_assoc]
    | _ => exact same_toJson_of_kind_ne (by simp [kind])
  | keyword k v, m => by
    cases m with
    | keyword k' v' =>
      refine Eq.trans (tagged_same rfl rfl (by simp)) ?_
      simp [same, Json.sameElements, same_toJson k k', same_toJson v v']
    | _ => exact same_toJson_of_kind_ne (by simp [kind])

theorem same_listJson : ∀ as bs : List Node,
    Json.sameElements (listJson as) (listJson bs) = sameLists as bs
  | [], [] | [], _ :: _ | _ :: _, [] => rfl
  | a :: as, b :: bs => by
    simp [listJson, Json.sameElements, sameLists, same_toJson a b, same_listJson as bs]

theorem same_pairsJson : ∀ as bs : List (Node × Node),
    Json.sameElements (pairsJson as) (pairsJson bs) = samePairs as bs
  | [], [] | [], _ :: _ | _ :: _, [] => rfl
  | (k, v) :: as, (k', v') :: bs => by
    have hpair : Json.sameFields [("key", k.toJson), ("value", v.toJson)]
        [("key", k'.toJson), ("value", v'.toJson)] =
          Json.sameElements [k.toJson, v.toJson] [k'.toJson, v'.toJson] :=
      Json.sameFields_eq rfl (by simp)
    simp [pairsJson, Json.sameElements, Json.same, hpair, samePairs, same_toJson k k',
      same_toJson v v', same_pairsJson as bs]

theorem same_partJson : ∀ a b : Option Node, (partJson a).same (partJson b) = sameParts a b
  | none, none => rfl
  | none, some b => by
    obtain ⟨parts, hb⟩ := exists_tagged b
    rw [partJson, partJson, hb]
    rfl
  | some a, none => by
    obtain ⟨parts, ha⟩ := exists_tagged a
    rw [partJson, partJson, ha]
    rfl
  | some a, some b => by simp [partJson, sameParts, same_toJson a b]

end

/-! ### The theorem -/

/-- Sameness is an equivalence on the trees in which every number has an exact value. -/
theorem same_equivalence :
    Equivalence fun a b : {n : Node // n.noNan = true} => a.1.same b.1 = true where
  refl a := (same_iff a.1 a.1).mpr ⟨a.2, rfl⟩
  symm {a b} h := (same_iff b.1 a.1).mpr ⟨b.2, ((same_iff a.1 b.1).mp h).2.symm⟩
  trans {a b c} hab hbc := (same_iff a.1 c.1).mpr
    ⟨a.2, ((same_iff a.1 b.1).mp hab).2.trans ((same_iff b.1 c.1).mp hbc).2⟩

/-- **Objects tell trees apart exactly as sameness does**, whatever the kinds of the trees, and
sameness is an equivalence: equality up to the exact values of the numbers. -/
theorem toJson_faithful :
    (∀ a b : Node, a.toJson.same b.toJson = true ↔ a.same b = true) ∧
    Equivalence (fun a b : {n : Node // n.noNan = true} => a.1.same b.1 = true) ∧
    (∀ a b : {n : Node // n.noNan = true},
      a.1.same b.1 = true ↔ a.1.mapLeaves exact = b.1.mapLeaves exact) ∧
    (∀ n m : Int, (number (.integer n)).same (number (.integer m)) = true ↔ n = m) ∧
    (∀ (n : Int) (s : Bool) (r : Fin Binary64.ranks),
      (number (.integer n)).same (number (.float (.finite s r))) = true ↔
        n * Binary64.one = if s then -(Binary64.units r : Int) else Binary64.units r) ∧
    (∀ (s s' : Bool) (r r' : Fin Binary64.ranks),
      (number (.float (.finite s r))).same (number (.float (.finite s' r'))) = true ↔
        r = r' ∧ (s = s' ∨ r.val = 0)) ∧
    (∀ s s' : Bool,
      (number (.float (.zero s))).same (number (.float (.zero s'))) = true) ∧
    (∀ (n : Int) (s : Bool),
      (number (.integer n)).same (number (.float (.infinite s))) = false) := by
  refine ⟨fun a b => by rw [same_toJson], same_equivalence, fun a b => ?_,
    fun n m => Number.same_integer, fun n s r => ?_, fun s s' r r' => Number.same_finite,
    fun s s' => ?_, fun n s => rfl⟩
  · rw [same_iff a.1 b.1, and_iff_right a.2]
  · rw [same, Number.same_iff]
    simp [Number.value]
  · exact Number.same_finite.mpr ⟨rfl, .inr rfl⟩

end Node

end Stencil
