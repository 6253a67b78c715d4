import Stencil.Proofs.Grammar.Precedence

/-!
# Grammar — slices

Parts with a colon between neighbours, each an expression or absent, are a slice (`derives_slice`).
The slice holds its parts in order, as long as there are no more than three of them; where there are
more, the rule fails at the closing bracket and tells their count (`index_gives_slice`).

An absent part behind the last colon is not among the parts that are counted (`counted`).  So a
fourth part is refused when an expression stands there, and goes unnoticed when it is absent.
-/

namespace Stencil.Grammar
open Stencil.Parser Filter

/-! ### Parts and colons -/

/-- Tokens that are taken whole as an expression. -/
structure Whole where
  run : List Token
  tree : Node
  taken : ∃ d, (Parser.expression d).run run = .ok tree []

theorem Whole.derives (e : Whole) : Derives (.level .expression) e.run e.tree := by
  obtain ⟨d, hd⟩ := e.taken
  obtain ⟨used, hrun, h⟩ := (rules_sound d).level .expression hd
  rw [List.append_nil] at hrun
  rwa [hrun]

/-- A colon and the part behind it. -/
structure Colon where
  token : Token
  colon : token.kind = .colon
  part : Option Whole

/-- The tokens of a part. -/
def partTokens : Option Whole → List Token
  | none => []
  | some e => e.run

/-- The tokens of parts with colons between them. -/
def sliceTokens (first : Option Whole) (more : List Colon) : List Token :=
  partTokens first ++ more.flatMap fun c => c.token :: partTokens c.part

/-- The trees of the parts. -/
def partTrees (first : Option Whole) (more : List Colon) : List (Option Node) :=
  first.map Whole.tree :: more.map fun c => c.part.map Whole.tree

/-- The parts without an absent one at the end. -/
def counted : List (Option Node) → List (Option Node)
  | [] => []
  | [none] => []
  | part :: parts => part :: counted parts

theorem sliceTokens_cons (first : Option Whole) (c : Colon) (more : List Colon) :
    sliceTokens first (c :: more) = partTokens first ++ c.token :: sliceTokens c.part more := by
  simp [sliceTokens]

theorem counted_cons_cons (part next : Option Node) (parts : List (Option Node)) :
    counted (part :: next :: parts) = part :: counted (next :: parts) := by
  cases part <;> rfl

/-- Only an absent part at the end is not counted. -/
theorem eq_counted (parts : List (Option Node)) :
    parts = counted parts ∨ parts = counted parts ++ [none] := by
  induction parts using counted.induct with
  | case1 => exact .inl rfl
  | case2 => exact .inr rfl
  | case3 part parts hpart ih =>
    rw [counted]
    · exact ih.imp (congrArg _) (congrArg _)
    · exact hpart

/-- What is missing in a slice is absent. -/
theorem sliceOf_counted (parts : List (Option Node)) : sliceOf (counted parts) = sliceOf parts := by
  have absent (ps : List (Option Node)) (i : Nat) : (ps ++ [none])[i]?.join = ps[i]?.join := by
    rcases Nat.lt_trichotomy i ps.length with h | h | h
    · rw [List.getElem?_append_left h]
    · simp [h]
    · rw [List.getElem?_eq_none (by simp; omega), List.getElem?_eq_none h.le]
  rcases eq_counted parts with h | h
  · rw [← h]
  · calc
      sliceOf (counted parts) = sliceOf (counted parts ++ [none]) := by simp only [sliceOf, absent]
      _ = sliceOf parts := by rw [← h]

/-! ### Slices of parts -/

theorem derives_part : ∀ part : Option Whole,
    Derives .part (partTokens part) (part.map Whole.tree)
  | none => .absent
  | some e => .present e.derives

/-- **The grammar derives the parts in order**, without an absent one at the end. -/
theorem derives_slice (first : Option Whole) {more : List Colon} (hmore : more ≠ []) :
    Derives .slice (sliceTokens first more) (counted (partTrees first more)) := by
  induction more generalizing first with
  | nil => exact absurd rfl hmore
  | cons c more ih =>
    rw [sliceTokens_cons, partTrees, List.map_cons, counted_cons_cons]
    rcases more with _ | ⟨next, more⟩
    · obtain ⟨colon, hcolon, last⟩ := c
      cases last with
      | none => exact .sliceEnd (derives_part first) hcolon
      | some e =>
        rw [sliceTokens, List.flatMap_nil, List.append_nil]
        exact .sliceLast (derives_part first) hcolon e.derives
    · exact .sliceMore (derives_part first) c.colon (ih c.part (List.cons_ne_nil _ _))

/-- How many parts are counted. -/
def countOf (more : List Colon) : Nat :=
  if more.getLast?.bind Colon.part = none then more.length else more.length + 1

theorem length_counted (first : Option Whole) {more : List Colon} (hmore : more ≠ []) :
    (counted (partTrees first more)).length = countOf more := by
  induction more generalizing first with
  | nil => exact absurd rfl hmore
  | cons c more ih =>
    rw [partTrees, List.map_cons, counted_cons_cons, List.length_cons]
    rcases more with _ | ⟨next, more⟩
    · obtain ⟨colon, hcolon, last⟩ := c
      cases last <;> rfl
    · have := ih c.part (List.cons_ne_nil next more)
      rw [partTrees] at this
      rw [this, countOf, countOf, List.getLast?_cons_cons]
      split <;> rfl

/-- **Slices are split at their colons.**  In front of the closing bracket the rule takes all parts
and builds the slice of their trees in order, if no more than three are counted.  If there are more,
it fails at the bracket with their count. -/
theorem index_gives_slice (first : Option Whole) {more : List Colon} (hmore : more ≠ [])
    {rest : List Token} (hrest : (front rest).kind = .rightBracket) :
    Gives Parser.index (sliceTokens first more ++ rest)
      (if countOf more ≤ 3 then .ok (sliceOf (partTrees first more)) rest
      else .error (.malformed ⟨.sliceParts (countOf more), some (front rest)⟩) rest) := by
  refine gives_of_eventually (fun hde => (rules_shallower hde).index) ?_
  have hfound : Found .slice _ _ := (derives_slice first hmore).found
  filter_upwards [hfound.slice_counted] with d hd
  rw [hd rest hrest, length_counted first hmore, sliceOf_counted]

/-- A name is an expression. -/
def wholeName (name : String) : Whole where
  run := [⟨.identifier, name, 1, 1⟩]
  tree := .identifier name
  taken := ⟨12, rfl⟩

/-- A colon with a part behind it. -/
def colonThen (part : Option Whole) : Colon where
  token := ⟨.colon, ":", 1, 1⟩
  colon := rfl
  part := part

/-- The closing bracket. -/
def bracket : Token := ⟨.rightBracket, "]", 1, 1⟩

/-- `:a:` is a slice whose first and last parts are absent. -/
theorem index_gives_slice_sample :
    [colonThen (some (wholeName "a")), colonThen none] ≠ [] ∧
    (front [bracket]).kind = .rightBracket ∧
    Gives Parser.index
      (sliceTokens none [colonThen (some (wholeName "a")), colonThen none] ++ [bracket])
      (.ok (.slice none (some (.identifier "a")) none) [bracket]) :=
  ⟨List.cons_ne_nil _ _, rfl, index_gives_slice none (List.cons_ne_nil _ _) rfl⟩

/-- The parts of `a:b:c:` behind the first. -/
def openSlice : List Colon :=
  [colonThen (some (wholeName "b")), colonThen (some (wholeName "c")), colonThen none]

/-- Four parts are not always refused: in `a:b:c:` the last is absent, three are counted, and the
rule builds a slice. -/
theorem not_refuses_four_parts :
    ¬ ∀ (first : Option Whole) (more : List Colon) (rest : List Token),
      3 ≤ more.length → (front rest).kind = .rightBracket →
        Gives Parser.index (sliceTokens first more ++ rest)
          (.error (.malformed ⟨.sliceParts (more.length + 1), some (front rest)⟩) rest) := by
  intro h
  have hrun : (Parser.index 13).run (sliceTokens (some (wholeName "a")) openSlice ++ [bracket]) =
      .ok (.slice (some (.identifier "a")) (some (.identifier "b")) (some (.identifier "c")))
        [bracket] := rfl
  have hgives := (h (some (wholeName "a")) openSlice [bracket] (Nat.le_refl 3) rfl).2 13
  rw [hrun] at hgives
  exact hgives.elim (not_tooDeep_ok _ _) fun heq => nomatch heq

end Stencil.Grammar
