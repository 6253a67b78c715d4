import Mathlib.Algebra.Ring.Int.Defs
import Stencil.Proofs.Grammar.Adjacency
import Stencil.Proofs.Grammar.Nesting

/-!
# Grammar — opened and closed blocks

How many blocks the statement tags of some tokens open and do not close, by the word that leads each
of them (`tagBlocks`).  In a template that is parsed this is none (`tagBlocks_of_parse`): a step of
`OpenBlock.step` changes the height of the stack by what its word counts for.
-/

namespace Stencil.Grammar
open Stencil.Parser Stencil.Lexer

/-- By how much a tag with the leading word changes the count of open blocks. -/
def blocksOf : Token.Kind → Int
  | .kwIf | .kwFor => 1
  | .kwEndif | .kwEndfor => -1
  | _ => 0

/-- How many blocks the statement tags open and do not close. -/
def tagBlocks : List Token → Int
  | [] => 0
  | t :: ts => (if t.kind = .openStatement then blocksOf (front ts).kind else 0) + tagBlocks ts

variable {kind : Token.Kind} {t : Token} {ts us : List Token} {blocks blocks' : List OpenBlock}

/-! ### The height of the stack -/

/-- A tag opens a block or closes one as its keyword is counted. -/
theorem length_of_step (h : OpenBlock.step blocks kind = some blocks') :
    (blocks'.length : Int) = blocks.length + blocksOf kind := by
  unfold OpenBlock.step at h
  split at h
  case h_11 hif hfor _ _ hendif hendfor _ _ _ _ =>
    cases h
    have hnone : blocksOf kind = 0 := by
      cases kind with
      | kwIf => exact (hif rfl).elim
      | kwFor => exact (hfor rfl).elim
      | kwEndif => exact (hendif rfl).elim
      | kwEndfor => exact (hendfor rfl).elim
      | _ => rfl
    rw [hnone, Int.add_zero]
  -- the words that a block is opened, divided or ended with
  all_goals cases h
  all_goals
    simp only [blocksOf, List.length_cons]
    omega

/-- The blocks that are open behind some tags are those before them and the counts of their
keywords. -/
theorem length_of_steps {kinds : List Token.Kind}
    (h : kinds.foldlM OpenBlock.step blocks = some blocks') :
    (blocks'.length : Int) = blocks.length + (kinds.map blocksOf).sum := by
  induction kinds generalizing blocks with
  | nil =>
    cases h
    simp
  | cons kind kinds ih =>
    rw [List.foldlM_cons] at h
    obtain ⟨mid, hstep, h⟩ := Option.bind_eq_some_iff.mp h
    rw [ih h, length_of_step hstep, List.map_cons, List.sum_cons, Int.add_assoc]

/-! ### Tags -/

/-- A token that opens no statement is not counted. -/
theorem tagBlocks_cons (h : t.kind ≠ .openStatement) (ts : List Token) :
    tagBlocks (t :: ts) = tagBlocks ts := by
  rw [tagBlocks, if_neg h, Int.zero_add]

/-- What stands inside a tag is not counted. -/
theorem tagBlocks_inner (h : AllInner ts) (us : List Token) :
    tagBlocks (ts ++ us) = tagBlocks us := by
  induction ts with
  | nil => rfl
  | cons t ts ih =>
    obtain ⟨ht, hts⟩ := allInner_cons.mp h
    rw [List.cons_append, tagBlocks_cons (by rintro he; rw [he] at ht; cases ht), ih hts]

/-- What a passage counts for. -/
theorem tagBlocks_passage {p : Passage} (h : p.Proper) (us : List Token) :
    tagBlocks (p.tokens ++ us) = (p.lead?.map blocksOf).getD 0 + tagBlocks us := by
  cases p with
  | text t =>
    have ht : t.kind = .text := h
    exact (tagBlocks_cons (by rw [ht]; nofun) us).trans (Int.zero_add _).symm
  | tag g opener inner closer =>
    obtain ⟨hopener, hinner, -, hcloser⟩ := h
    have hrest : tagBlocks (inner ++ closer :: us) = tagBlocks us := by
      rw [tagBlocks_inner hinner, tagBlocks_cons (by rw [hcloser]; cases g <;> nofun)]
    rw [Passage.tokens, List.cons_append, List.append_assoc, List.singleton_append, tagBlocks,
      hopener, hrest]
    cases g with
    | expression => rfl
    | statement =>
      cases inner with
      | nil =>
        rw [List.nil_append, front_cons, hcloser]
        rfl
      | cons w inner => rfl

/-- The count of proper passages is that of the keywords that lead them. -/
theorem tagBlocks_passages {passages : List Passage} (h : ∀ p ∈ passages, p.Proper) :
    tagBlocks (passages.flatMap Passage.tokens) =
      ((passages.filterMap Passage.lead?).map blocksOf).sum := by
  induction passages with
  | nil => rfl
  | cons p passages ih =>
    obtain ⟨hp, hpassages⟩ := List.forall_mem_cons.mp h
    rw [List.flatMap_cons, tagBlocks_passage hp, ih hpassages]
    cases hlead : p.lead? <;> simp [hlead]

/-- **In a template that is parsed as many blocks are closed as opened.** -/
theorem tagBlocks_of_parse {n : Node} (h : parse ts = .ok n) : tagBlocks (dropEnd ts) = 0 := by
  rw [← parseWithin_depthLimit] at h
  obtain ⟨body, -, hbody⟩ := derives_of_parseWithin h
  obtain ⟨passages, hts, hproper, hsteps⟩ := hbody.parted []
  rw [hts, tagBlocks_passages hproper]
  have hlength := length_of_steps hsteps
  rw [List.length_nil] at hlength
  omega

end Stencil.Grammar
