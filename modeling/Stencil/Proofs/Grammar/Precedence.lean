import Stencil.Proofs.Grammar.Completeness
import Stencil.Proofs.Grammar.Soundness
import Stencil.Proofs.Parser.Depth

/-!
# Grammar — precedence

Operands with operators between them are grouped as by a table of precedences (`group`): they are
parted at the last operator of the loosest tier among them, and so are the operands on its two sides
in turn.  A `not` in front keeps together what stands before the next `and` or `or`.

The rule for disjunctions builds this tree (`derives_group`).  Where `not` stands behind a tighter
operator, no operand begins, and the rule fails at that `not` (`fails_group`).
-/

namespace Stencil.Grammar
open Stencil.Parser Filter

/-! ### Chains of operands -/

/-- An operator between two operands. -/
structure Operator where
  token : Token
  tier : Level
  joins : tier.joins token.kind = true

/-- Tokens that are taken whole as an operand with its tests. -/
structure Operand where
  run : List Token
  tree : Node
  tested : ∃ d, (Parser.tested d).run run = .ok tree []

/-- The word `not`. -/
abbrev Not := { t : Token // t.kind = .kwNot }

/-- An operator and the operand behind it, which `not`s may precede. -/
structure Joined where
  operator : Operator
  nots : List Not
  operand : Operand

namespace Joined

/-- The rank of the tier of the operator. -/
def rank (j : Joined) : Nat := j.operator.tier.rank

/-- Is the operator one that `not` may follow? -/
def IsJunction (j : Joined) : Prop :=
  j.operator.token.kind = .kwAnd ∨ j.operator.token.kind = .kwOr

end Joined

/-- The `not`s of an operand and its tokens. -/
def operandTokens (nots : List Not) (operand : Operand) : List Token :=
  nots.map Subtype.val ++ operand.run

/-- All tokens of a chain of operands. -/
def chainTokens (nots : List Not) (first : Operand) (more : List Joined) : List Token :=
  operandTokens nots first ++
    more.flatMap fun j => j.operator.token :: operandTokens j.nots j.operand

/-- Every `not` behind the first operand stands behind `and` or `or`. -/
def WellPlaced (more : List Joined) : Prop := ∀ j ∈ more, j.nots ≠ [] → j.IsJunction

/-! ### Grouping -/

/-- The rank of the loosest operators. -/
def loosest : List Joined → Nat
  | [] => 0
  | j :: more => max j.rank (loosest more)

/-- The last operator of a rank, with what stands before and behind it. -/
def splitLast (rank : Nat) : List Joined → Option (List Joined × Joined × List Joined)
  | [] => none
  | j :: more =>
    match splitLast rank more with
    | some (left, k, right) => some (j :: left, k, right)
    | none => if j.rank = rank then some ([], j, more) else none

/-- Where a chain is parted: at the last of its loosest operators.  A `not` in front keeps a chain
together that has no operator looser than itself. -/
def part? (nots : List Not) (more : List Joined) : Option (List Joined × Joined × List Joined) :=
  if nots ≠ [] ∧ loosest more ≤ Level.negation.rank then none else splitLast (loosest more) more

/-- Where no operator of the rank is found, there is none. -/
theorem rank_ne_of_splitLast {rank : Nat} {more : List Joined} (h : splitLast rank more = none) :
    ∀ j ∈ more, j.rank ≠ rank := by
  induction more with
  | nil => exact fun j hj => absurd hj List.not_mem_nil
  | cons i more ih =>
    rw [splitLast] at h
    split at h
    · cases h
    · rename_i hmore
      split at h
      · cases h
      · rename_i hi
        exact List.forall_mem_cons.mpr ⟨hi, ih hmore⟩

/-- The operator that is found is the last one of its rank. -/
theorem splitLast_eq_some {rank : Nat} {more left right : List Joined} {j : Joined}
    (h : splitLast rank more = some (left, j, right)) :
    more = left ++ j :: right ∧ j.rank = rank ∧ ∀ k ∈ right, k.rank ≠ rank := by
  induction more generalizing left with
  | nil => cases h
  | cons i more ih =>
    rw [splitLast] at h
    split at h
    · rename_i hmore
      cases h
      obtain ⟨rfl, hj, hright⟩ := ih hmore
      exact ⟨rfl, hj, hright⟩
    · rename_i hmore
      split at h
      · rename_i hi
        cases h
        exact ⟨rfl, hi, rank_ne_of_splitLast hmore⟩
      · cases h

/-- No operator is looser than the loosest. -/
theorem rank_le_loosest {more : List Joined} : ∀ j ∈ more, j.rank ≤ loosest more := by
  induction more with
  | nil => exact fun j hj => absurd hj List.not_mem_nil
  | cons i more ih =>
    intro j hj
    rcases List.mem_cons.mp hj with rfl | hj
    · exact Nat.le_max_left _ _
    · exact Nat.le_trans (ih j hj) (Nat.le_max_right _ _)

theorem exists_loosest : ∀ {more : List Joined}, more ≠ [] → ∃ j ∈ more, j.rank = loosest more
  | [i], _ => ⟨i, .head _, (Nat.max_eq_left (Nat.zero_le _)).symm⟩
  | i :: j :: more, _ => by
      obtain ⟨k, hk, hrank⟩ := exists_loosest (List.cons_ne_nil j more)
      rcases Nat.le_total (loosest (j :: more)) i.rank with h | h
      · exact ⟨i, .head _, (Nat.max_eq_left h).symm⟩
      · exact ⟨k, .tail _ hk, hrank.trans (Nat.max_eq_right h).symm⟩

/-- The operator that parts the row is the rightmost of the loosest, and a `not` in front is no
looser than it. -/
theorem part?_eq_some {nots : List Not} {more left right : List Joined} {j : Joined}
    (h : part? nots more = some (left, j, right)) : more = left ++ j :: right ∧
      (∀ k ∈ left, k.rank ≤ j.rank) ∧ (∀ k ∈ right, k.rank < j.rank) ∧
      (nots ≠ [] → Level.negation.rank < j.rank) := by
  unfold part? at h
  split at h
  · cases h
  · rename_i hnots
    obtain ⟨rfl, hj, hright⟩ := splitLast_eq_some h
    refine ⟨rfl, fun k hk => ?_, fun k hk => ?_, fun hne => ?_⟩
    · exact hj ▸ rank_le_loosest k (List.mem_append_left _ hk)
    · have hle := rank_le_loosest k (List.mem_append_right left (.tail j hk))
      exact hj ▸ Nat.lt_of_le_of_ne hle (hright k hk)
    · exact hj ▸ Nat.lt_of_not_le fun hle => hnots ⟨hne, hle⟩

/-- A chain is parted at a loosest operator. -/
theorem rank_le_of_part? {nots : List Not} {more left right : List Joined} {j : Joined}
    (h : part? nots more = some (left, j, right)) : ∀ k ∈ more, k.rank ≤ j.rank := by
  obtain ⟨rfl, hleft, hright, -⟩ := part?_eq_some h
  intro k hk
  rcases List.mem_append.mp hk with hk | hk
  · exact hleft k hk
  · rcases List.mem_cons.mp hk with rfl | hk
    · exact Nat.le_refl _
    · exact Nat.le_of_lt (hright k hk)

/-- A row that is not parted is an operand, or a `not` in front of operators that are all tighter.
-/
theorem part?_eq_none {nots : List Not} {more : List Joined} (h : part? nots more = none) :
    (nots ≠ [] ∧ ∀ j ∈ more, j.rank ≤ Level.negation.rank) ∨ (nots = [] ∧ more = []) := by
  unfold part? at h
  split at h
  · rename_i hnots
    exact .inl ⟨hnots.1, fun j hj => Nat.le_trans (rank_le_loosest j hj) hnots.2⟩
  · rename_i hnots
    have hmore : more = [] := by
      refine Decidable.byContradiction fun hne => ?_
      obtain ⟨j, hj, hrank⟩ := exists_loosest hne
      exact rank_ne_of_splitLast h j hj hrank
    subst hmore
    exact .inr ⟨Decidable.byContradiction fun hne => hnots ⟨hne, Nat.zero_le _⟩, rfl⟩

/-- The tree of a chain. -/
def group (nots : List Not) (first : Operand) (more : List Joined) : Node :=
  match _h : part? nots more with
  | some (left, j, right) =>
    .binary j.operator.token.value (group nots first left) (group j.nots j.operand right)
  | none =>
    match nots with
    | not :: nots => .unary not.1.value (group nots first more)
    | [] => first.tree
termination_by (more.length, nots.length)
decreasing_by
  · rw [(part?_eq_some _h).1]
    exact .left _ _ (by simp)
  · rw [(part?_eq_some _h).1]
    exact .left _ _ (by simp; omega)
  · exact .right _ (Nat.lt_succ_self _)

/-- A row that is parted is grouped on both sides of the operator. -/
theorem group_of_some {nots : List Not} {first : Operand} {more left right : List Joined}
    {j : Joined} (h : part? nots more = some (left, j, right)) : group nots first more =
      .binary j.operator.token.value (group nots first left) (group j.nots j.operand right) := by
  rw [group]
  split <;> rename_i h' <;> rw [h] at h'
  · cases h'
    rfl
  · cases h'

/-- In front of tighter operators a `not` takes the whole row. -/
theorem group_not {not : Not} {nots : List Not} {more : List Joined}
    (h : part? (not :: nots) more = none) (first : Operand) :
    group (not :: nots) first more = .unary not.1.value (group nots first more) := by
  rw [group]
  split <;> rename_i h'
  · rw [h] at h'
    cases h'
  · rfl

theorem group_operand {more : List Joined} (h : part? [] more = none) (first : Operand) :
    group [] first more = first.tree := by
  rw [group]
  split <;> rename_i h'
  · rw [h] at h'
    cases h'
  · rfl

/-! ### The grammar derives the tree -/

theorem Operand.derives (e : Operand) : Derives (.level .tested) e.run e.tree := by
  obtain ⟨d, hd⟩ := e.tested
  obtain ⟨used, hrun, h⟩ := (rules_sound d).level .tested hd
  rw [List.append_nil] at hrun
  rwa [hrun]

/-- The operand behind an operator is of the next tighter level. -/
theorem Joined.exists_operand (j : Joined) : ∃ m, j.operator.tier.tighter? = some m ∧
    j.rank = m.rank + 1 ∧ Level.tested.rank ≤ m.rank ∧ j.rank ≤ Level.disjunction.rank :=
  Level.exists_operand j.operator.joins

theorem Joined.isJunction_iff (j : Joined) : Level.negation.rank < j.rank ↔ j.IsJunction :=
  Level.negation_lt_iff j.operator.joins

theorem Joined.rank_le_negation (j : Joined) (hj : ¬ j.IsJunction) :
    j.rank ≤ Level.negation.rank :=
  Nat.not_lt.mp (j.isJunction_iff.not.mpr hj)

/-- The tokens of a row are those on both sides of one of its operators. -/
theorem chainTokens_parted (nots : List Not) (first : Operand) (left : List Joined) (j : Joined)
    (right : List Joined) : chainTokens nots first (left ++ j :: right) =
      chainTokens nots first left ++ j.operator.token :: chainTokens j.nots j.operand right := by
  simp [chainTokens]

/-- **The grammar derives the tree of a chain** at every level that takes up its operators. -/
theorem derives_group {nots : List Not} {first : Operand} {more : List Joined}
    (hplaced : WellPlaced more) {l : Level} (htested : Level.tested.rank ≤ l.rank)
    (hmore : ∀ j ∈ more, j.rank ≤ l.rank) (hnots : nots ≠ [] → Level.negation.rank ≤ l.rank) :
    Derives (.level l) (chainTokens nots first more) (group nots first more) := by
  induction nots, first, more using group.induct generalizing l with
  -- an operator parts the chain: both sides are derived at its level and the next tighter one
  | case1 nots first more left j right h hleft hright =>
    rw [group_of_some h]
    obtain ⟨rfl, hl, hr, hjunction⟩ := part?_eq_some h
    have hj : j ∈ left ++ j :: right := List.mem_append_right left (.head right)
    obtain ⟨m, hm, hrank, hm', -⟩ := j.exists_operand
    have before : Derives (.level j.operator.tier) (chainTokens nots first left)
        (group nots first left) :=
      hleft (fun k hk => hplaced k (List.mem_append_left _ hk)) (show _ ≤ j.rank by omega) hl
        fun hne => Nat.le_of_lt (hjunction hne)
    have behind : Derives (.level m) (chainTokens j.nots j.operand right)
        (group j.nots j.operand right) := by
      refine hright (fun k hk => hplaced k (List.mem_append_right left (.tail j hk))) hm'
        (fun k hk => ?_) fun hne => ?_
      · have := hr k hk
        omega
      · have := j.isJunction_iff.mpr (hplaced j hj hne)
        omega
    rw [chainTokens_parted]
    exact (before.operator hm j.operator.joins behind).loosen (hmore j hj)
  -- only tighter operators are left, so all of them are behind the not
  | case2 first more not nots h ih =>
    rw [group_not h]
    obtain ⟨-, hmore'⟩ := (part?_eq_none h).resolve_right fun h => List.cons_ne_nil _ _ h.1
    have behind := ih (l := .negation) hplaced (by decide) hmore' fun _ => Nat.le_refl _
    exact (behind.not not.2).loosen (hnots (List.cons_ne_nil _ _))
  | case3 first more h =>
    rw [group_operand h]
    obtain ⟨-, rfl⟩ := (part?_eq_none h).resolve_left fun h => h.1 rfl
    have htokens : chainTokens [] first [] = first.run := by simp [chainTokens, operandTokens]
    rw [htokens]
    exact first.derives.loosen htested

/-! ### Where no operand begins -/

/-- A level fails at the tokens with this error, and leaves these tokens, with depth enough. -/
def Fails (l : Level) (ts : List Token) (e : Failure) (left : List Token) : Prop :=
  ∀ᶠ d in atTop, (l.parser d).run ts = .error e left

variable {l m : Level} {ts us left : List Token} {e : Failure}

/-- A token that begins no primary is refused at once. -/
theorem fails_primary (h : beginsPrimary (front ts).kind = false) :
    Fails .primary ts (.malformed ⟨.unexpectedToken "expression", some (front ts)⟩) ts :=
  eventually_succ.mp (.of_forall (primary_of_not_begins h))

/-- A level begins with the next tighter one, unless `not` begins a negation. -/
theorem Fails.tighter (h : Fails m ts e left) (hm : l.tighter? = some m)
    (hnot : l = .negation → (front ts).kind ≠ .kwNot) : Fails l ts e left := by
  refine eventually_succ.mp ?_
  filter_upwards [h] with d hd
  by_cases hl : l.repeats = true
  · rw [Level.parser_succ hl hm, extend_run, bind_of_error hd]
  cases l with
  | expression =>
    cases hm
    show (Parser.expression (d + 1)).run _ = _
    have hoperand : (Parser.disjunction d).run ts = .error e left := hd
    rw [Parser.expression, bind_of_error hoperand]
  | negation =>
    cases hm
    show (Parser.negation (d + 1)).run _ = _
    rw [Parser.negation, bind_of_ok (current_run ts), if_neg (hnot rfl)]
    exact hd
  | primary => cases hm
  | _ => exact absurd rfl hl

/-- A looser level fails with a tighter one, as long as no `not` begins a negation between them. -/
theorem Fails.loosen {l m : Level} (h : Fails m ts e left) (hle : m.rank ≤ l.rank)
    (hnot : m.rank < Level.negation.rank → Level.negation.rank ≤ l.rank →
      (front ts).kind ≠ .kwNot) : Fails l ts e left := by
  by_cases heq : m = l
  · exact heq ▸ h
  · obtain ⟨k, hk, hle⟩ := Level.exists_tighter heq hle
    have hlt := Level.rank_lt_of_tighter? hk
    refine Fails.tighter (h.loosen hle fun hm hk' => hnot hm (by omega)) hk fun hl => ?_
    subst hl
    exact hnot (by omega) (Nat.le_refl _)
termination_by l.rank

/-- Behind an operator, the error is that of the operand. -/
theorem Fails.operator {o : Token} {a : Node} (h : Fails m us e left) (hm : l.tighter? = some m)
    (ha : Derives (.level l) ts a) (ho : l.joins o.kind = true) :
    Fails l (ts ++ o :: us) e left := by
  refine eventually_succ.mp ?_
  filter_upwards [ha.found, h] with d ha hd
  rw [ha _ (stops_of_joins ho us),
    again_of_some (l.advances_step d) (Level.step_of_joins hm ho d a), bind_assoc_run,
    bind_of_ok (advance_cons o us), bind_assoc_run, bind_of_error hd]

/-- A negation fails behind its `not`. -/
theorem Fails.not {o : Token} (ho : o.kind = .kwNot) (h : Fails .negation ts e left) :
    Fails .negation (o :: ts) e left := by
  refine eventually_succ.mp ?_
  filter_upwards [h] with d hd
  have hoperand : (Parser.negation d).run ts = .error e left := hd
  show (Parser.negation (d + 1)).run _ = _
  rw [Parser.negation, bind_of_ok (current_run _), front_cons, if_pos ho,
    bind_of_ok (advance_cons o ts), bind_of_error hoperand]

/-- An operand does not begin with `not`. -/
theorem Operand.front_ne_kwNot (first : Operand) (more : List Joined) (us : List Token) :
    (front (chainTokens [] first more ++ us)).kind ≠ .kwNot := by
  intro he
  have hbegins := begins_append first.derives.begins
    ((more.flatMap fun j => j.operator.token :: operandTokens j.nots j.operand) ++ us)
  rw [chainTokens, operandTokens, List.map_nil, List.nil_append, List.append_assoc] at he
  rw [he] at hbegins
  cases hbegins

/-- Behind a chain that an operator tighter than `not` follows, `not` begins no operand. -/
theorem fails_behind {first : Operand} {more : List Joined} (hplaced : WellPlaced more)
    (j : Joined) (hj : ¬ j.IsJunction) (hmore : ∀ k ∈ more, k.rank ≤ j.rank)
    (hl : j.rank ≤ l.rank) (not : Not) (us : List Token) :
    Fails l (chainTokens [] first more ++ j.operator.token :: not.1 :: us)
      (.malformed ⟨.unexpectedToken "expression", some not.1⟩) (not.1 :: us) := by
  obtain ⟨m, hm, hrank, htested, -⟩ := j.exists_operand
  have htight := j.rank_le_negation hj
  have hoperand : Fails m (not.1 :: us)
      (.malformed ⟨.unexpectedToken "expression", some not.1⟩) (not.1 :: us) := by
    refine (fails_primary (by rw [front_cons, not.2]; rfl)).loosen (Nat.zero_le _) fun _ h => ?_
    omega
  have hbefore : Derives (.level j.operator.tier) (chainTokens [] first more)
      (group [] first more) :=
    derives_group hplaced (show _ ≤ j.rank by omega) hmore fun h => absurd rfl h
  exact (hoperand.operator hm hbefore j.operator.joins).loosen hl fun _ _ =>
    first.front_ne_kwNot more _

/-- **No operand begins with `not` behind an operator tighter than it.** -/
theorem fails_group {nots : List Not} {first : Operand} {more : List Joined}
    (hplaced : WellPlaced more) (j : Joined) (hj : ¬ j.IsJunction) (not : Not) (us : List Token)
    {l : Level} (hmore : ∀ k ∈ more, k.rank ≤ l.rank) (hl : j.rank ≤ l.rank)
    (hnots : nots ≠ [] → Level.negation.rank ≤ l.rank) :
    Fails l (chainTokens nots first more ++ j.operator.token :: not.1 :: us)
      (.malformed ⟨.unexpectedToken "expression", some not.1⟩) (not.1 :: us) := by
  have htight := j.rank_le_negation hj
  induction nots, first, more using group.induct generalizing l with
  | case1 nots first more left k right h _ hright =>
    obtain ⟨rfl, hleft, hr, hjunction⟩ := part?_eq_some h
    have hk : k ∈ left ++ k :: right := List.mem_append_right left (.head right)
    by_cases hkj : k.rank ≤ j.rank
    · have hnil : nots = [] := Decidable.byContradiction fun hne => by
        have := hjunction hne
        omega
      subst hnil
      exact fails_behind hplaced j hj (fun i hi => Nat.le_trans (rank_le_of_part? h i hi) hkj) hl
        not us
    · obtain ⟨m, hm, hrank, htested, -⟩ := k.exists_operand
      have hbefore : Derives (.level k.operator.tier) (chainTokens nots first left)
          (group nots first left) :=
        derives_group (fun i hi => hplaced i (List.mem_append_left _ hi))
          (show _ ≤ k.rank by omega) hleft fun hne => Nat.le_of_lt (hjunction hne)
      have hbehind : Fails m
          (chainTokens k.nots k.operand right ++ j.operator.token :: not.1 :: us)
          (.malformed ⟨.unexpectedToken "expression", some not.1⟩) (not.1 :: us) := by
        refine hright (fun i hi => hplaced i (List.mem_append_right left (.tail k hi)))
          (fun i hi => ?_) (by omega) fun hne => ?_
        · have := hr i hi
          omega
        · have := k.isJunction_iff.mpr (hplaced k hk hne)
          omega
      rw [chainTokens_parted, List.append_assoc, List.cons_append]
      refine (hbehind.operator hm hbefore k.operator.joins).loosen (hmore k hk) fun hlt _ => ?_
      -- a `not` in front of the chain stands at a level that is no tighter
      have hnil : nots = [] := Decidable.byContradiction fun hne =>
        absurd (hjunction hne) (Nat.not_lt_of_lt hlt)
      subst hnil
      rw [← List.cons_append, ← List.append_assoc, ← chainTokens_parted]
      exact first.front_ne_kwNot _ _
  | case2 first more o nots h ih =>
    obtain ⟨-, hmore'⟩ := (part?_eq_none h).resolve_right fun h => List.cons_ne_nil _ _ h.1
    have behind := ih (l := .negation) hplaced hmore' htight fun _ => Nat.le_refl _
    exact (behind.not o.2).loosen (hnots (List.cons_ne_nil _ _)) fun hlt => absurd hlt (by decide)
  | case3 first more h =>
    obtain ⟨-, rfl⟩ := (part?_eq_none h).resolve_left fun h => h.1 rfl
    exact fails_behind hplaced j hj (fun i hi => nomatch hi) hl not us

/-! ### The rule for disjunctions -/

/-- The rule gives this result with depth enough, and no other one wherever it comes to an end
before the nesting is too deep. -/
def Gives (rule : Nat → Parser Node) (ts : List Token)
    (result : EStateM.Result Failure (List Token) Node) : Prop :=
  (∀ᶠ d in atTop, (rule d).run ts = result) ∧
    ∀ d, TooDeep ((rule d).run ts) ∨ (rule d).run ts = result

/-- A rule that answers as before at more depth gives what it comes to in the end. -/
theorem gives_of_eventually {rule : Nat → Parser Node}
    (hrule : ∀ {d e}, d ≤ e → Shallower (rule d) (rule e))
    {result : EStateM.Result Failure (List Token) Node}
    (h : ∀ᶠ d in atTop, (rule d).run ts = result) : Gives rule ts result := by
  refine ⟨h, fun d => ?_⟩
  obtain ⟨e, he, hde⟩ := (h.and (eventually_ge_atTop d)).exists
  exact (hrule hde ts).imp_right fun heq => heq.trans he

/-- What a disjunction comes to in the end is what it gives. -/
theorem gives_disjunction {result : EStateM.Result Failure (List Token) Node}
    (h : ∀ᶠ d in atTop, (Parser.disjunction d).run ts = result) :
    Gives Parser.disjunction ts result :=
  gives_of_eventually (fun hde => (rules_shallower hde).disjunction) h

theorem rank_le_disjunction (more : List Joined) : ∀ j ∈ more, j.rank ≤ Level.disjunction.rank :=
  fun j _ => by
    obtain ⟨_, _, _, _, h⟩ := j.exists_operand
    exact h

/-- Where a `not` is misplaced, there is a first one. -/
theorem exists_misplaced {more : List Joined} (h : ¬ WellPlaced more) :
    ∃ before j after, more = before ++ j :: after ∧ WellPlaced before ∧ ¬ j.IsJunction ∧
      j.nots ≠ [] := by
  have nothing : WellPlaced [] := fun j hj => absurd hj List.not_mem_nil
  induction more with
  | nil => exact absurd nothing h
  | cons i more ih =>
    by_cases hi : i.nots ≠ [] → i.IsJunction
    · have hmore : ¬ WellPlaced more := fun hmore => h (List.forall_mem_cons.mpr ⟨hi, hmore⟩)
      obtain ⟨before, j, after, rfl, hbefore, hj⟩ := ih hmore
      exact ⟨i :: before, j, after, rfl, List.forall_mem_cons.mpr ⟨hi, hbefore⟩, hj⟩
    · obtain ⟨hne, hj⟩ := Classical.not_imp.mp hi
      exact ⟨[], i, more, rfl, nothing, hj, hne⟩

/-- **A chain of operands is grouped by precedence.**  The rule for disjunctions takes all of it and
builds its tree, unless a `not` is misplaced: then the rule fails at the first such `not`. -/
theorem disjunction_gives_group (nots : List Not) (first : Operand) (more : List Joined)
    {rest : List Token} (hrest : Stops (Level.disjunction.rank + 1) rest) :
    (WellPlaced more → Gives Parser.disjunction (chainTokens nots first more ++ rest)
      (.ok (group nots first more) rest)) ∧
    (¬ WellPlaced more → ∃ before j after not behind, more = before ++ j :: after ∧
      WellPlaced before ∧ ¬ j.IsJunction ∧ j.nots = not :: behind ∧
      Gives Parser.disjunction (chainTokens nots first more ++ rest)
        (.error (.malformed ⟨.unexpectedToken "expression", some not.1⟩)
          (chainTokens j.nots j.operand after ++ rest))) := by
  refine ⟨fun hplaced => gives_disjunction ?_, fun hplaced => ?_⟩
  · have hderives : Derives (.level .disjunction) (chainTokens nots first more)
        (group nots first more) :=
      derives_group hplaced (by decide) (rank_le_disjunction more) fun _ => by decide
    filter_upwards [hderives.found.stopped] with d hd
    exact hd rest (hrest.of_le (Nat.le_succ _)) fun e => Level.step_of_lt hrest e _
  · obtain ⟨before, j, after, rfl, hbefore, hj, hne⟩ := exists_misplaced hplaced
    obtain ⟨not, behind, hnots⟩ := List.exists_cons_of_ne_nil hne
    refine ⟨before, j, after, not, behind, rfl, hbefore, hj, hnots, gives_disjunction ?_⟩
    rw [chainTokens_parted, hnots, List.append_assoc, List.cons_append]
    have hfails : Fails .disjunction (chainTokens nots first before ++
        j.operator.token :: not.1 :: (chainTokens behind j.operand after ++ rest)) _ _ :=
      fails_group hbefore j hj not _ (rank_le_disjunction before)
        (rank_le_disjunction [j] j (.head _)) fun _ => by decide
    exact hfails

/-- A name is an operand. -/
def nameOperand (name : String) : Operand where
  run := [⟨.identifier, name, 1, 1⟩]
  tree := .identifier name
  tested := ⟨4, rfl⟩

/-- The chain of `a or not b == c`, behind its first operand. -/
def sampleChain : List Joined :=
  [⟨⟨⟨.kwOr, "or", 1, 1⟩, .disjunction, rfl⟩, [⟨⟨.kwNot, "not", 1, 1⟩, rfl⟩], nameOperand "b"⟩,
    ⟨⟨⟨.comparison, "==", 1, 1⟩, .comparison, rfl⟩, [], nameOperand "c"⟩]

/-- In `a or not b == c` the `not` keeps the comparison together. -/
theorem sampleChain_gives : Stops (Level.disjunction.rank + 1) [] ∧ WellPlaced sampleChain ∧
    Gives Parser.disjunction (chainTokens [] (nameOperand "a") sampleChain)
      (.ok (.binary "or" (.identifier "a") (.unary "not"
        (.binary "==" (.identifier "b") (.identifier "c")))) []) := by
  have hrest : Stops (Level.disjunction.rank + 1) [] := by decide
  have hplaced : WellPlaced sampleChain := by
    refine List.forall_mem_cons.mpr ⟨fun _ => .inr rfl, List.forall_mem_cons.mpr ⟨?_, ?_⟩⟩
    · exact fun h => absurd rfl h
    · exact fun _ hk => nomatch hk
  have hgives := (disjunction_gives_group [] (nameOperand "a") sampleChain hrest).1 hplaced
  refine ⟨hrest, hplaced, ?_⟩
  rw [List.append_nil] at hgives
  have hgroup : group [] (nameOperand "a") sampleChain = .binary "or" (.identifier "a")
      (.unary "not" (.binary "==" (.identifier "b") (.identifier "c"))) := by
    rw [sampleChain, group_of_some rfl, group_operand rfl, group_not rfl, group_of_some rfl,
      group_operand rfl, group_operand rfl]
    rfl
  rwa [hgroup] at hgives

end Stencil.Grammar
