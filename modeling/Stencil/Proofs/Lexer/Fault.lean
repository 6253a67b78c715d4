import Stencil.Proofs.Lexer.Cutting

/-!
# Lexer — faults of the text

Where the lexer fails, the text has a fault: a comment, a string or a tag does not end, or a
character begins no token (`fault_of_tokenize`).  Taking a character is an error where none is left
(`Error.pastEnd`); but the lexer takes those only that it has seen before, so that this error is none
of its own.
-/

namespace Stencil.Lexer

variable {α β : Type} {p : Lexing α} {f : α → Lexing β} {lexer mid : Lexer} {a : α} {e : Error}

/-- The error is a fault of the text. -/
def Error.IsFault : Error → Prop
  | .pastEnd _ => False
  | _ => True

/-- Here the operation fails only over a fault of the text. -/
def Blames (p : Lexing α) (lexer : Lexer) : Prop :=
  ∀ ⦃e : Error⦄ ⦃lexer' : Lexer⦄, p.run lexer = .error e lexer' → e.IsFault

/-- An operation that succeeds blames nothing. -/
theorem blames_of_ok (h : p.run lexer = .ok a mid) : Blames p lexer := by
  intro e lexer' he
  rw [h] at he
  cases he

theorem blames_throw (he : e.IsFault) : Blames (throw e : Lexing α) lexer := by
  rintro _ _ ⟨⟩
  exact he

/-- A sequence blames the text only if its first part does, and its second wherever the first has
led to. -/
theorem Blames.bind (h : Blames p lexer)
    (hf : ∀ a mid, p.run lexer = .ok a mid → Blames (f a) mid) : Blames (p >>= f) lexer := by
  intro e lexer' he
  rcases bind_eq_error.mp he with he | ⟨a, mid, hp, he⟩
  · exact h he
  · exact hf a mid hp he

/-- An operation that comes to a result is no matter. -/
theorem blames_bind_of_ok (hp : p.run lexer = .ok a mid) (hf : Blames (f a) mid) :
    Blames (p >>= f) lexer := by
  intro e lexer' he
  rw [bind_of_ok hp] at he
  exact hf he

/-! ### Outside tags -/

/-- The two characters that start a comment are there, and so is the mark at its end. -/
theorem blames_skipComment {cs : List Char} (hrest : lexer.cursor.rest = '{' :: '#' :: cs) :
    Blames skipComment lexer := by
  intro e lexer' he
  rw [skipComment_run hrest] at he
  split at he <;> cases he
  exact trivial

theorem blames_skipComments (rounds : Nat) : ∀ lexer, Blames (skipComments rounds) lexer := by
  induction rounds with
  | zero => exact fun lexer => blames_of_ok (pure_run () lexer)
  | succ rounds ih =>
    intro lexer
    refine blames_bind_of_ok (remaining_run lexer) ?_
    split
    · rename_i hrest
      exact (blames_skipComment hrest).bind fun _ mid _ => ih mid
    · exact blames_of_ok (pure_run () lexer)

/-- A tag is opened where the mark that opens it was seen. -/
theorem blames_nextOutside (lexer : Lexer) : Blames nextOutside lexer := by
  refine blames_bind_of_ok (remaining_run lexer) ((blames_skipComments _ _).bind fun _ mid _ => ?_)
  refine blames_bind_of_ok (place_run mid) (blames_bind_of_ok (remaining_run mid) ?_)
  split
  · exact blames_of_ok (pure_run _ _)
  · rename_i hrest
    exact blames_of_ok (enter_run .statement hrest _)
  · rename_i hrest
    exact blames_of_ok (enter_run .expression hrest _)
  · exact blames_of_ok (readText_run mid)

/-! ### Inside tags -/

/-- Behind `not`, the word `in` is taken where it was seen. -/
theorem blames_readWord (line column : Int) : Blames (readWord line column) lexer := by
  refine blames_bind_of_ok (remaining_run _)
    (blames_bind_of_ok (pass_run List.takeWhile_append_dropWhile.symm) ?_)
  split
  · rename_i spacing rest hmember
    split at hmember
    · exact blames_of_ok (take_run (eq_of_memberWord? hmember).1 _ _ _ _)
    · cases hmember
  · exact blames_of_ok rfl

/-- The quote was seen; and the literal was read up to the quote at its end. -/
theorem blames_readString {c : Char} {cs : List Char} (hrest : lexer.cursor.rest = c :: cs)
    (line column : Int) : Blames (readString line column) lexer := by
  intro e lexer' he
  rw [readString_run hrest] at he
  split at he <;> cases he
  exact trivial

/-- Where no operator is at hand the character is unexpected, which is a fault of the text. -/
theorem blames_readOperator (c : Char) (start : Place) : Blames (readOperator c start) lexer := by
  refine Blames.bind ?_ fun found mid _ => ?_
  · intro e lexer' he
    rw [matchOperator_run] at he
    split at he <;> cases he
  · cases found with
    | some token => exact blames_of_ok rfl
    | none => exact blames_throw trivial

/-- A tag is closed where the mark that closes it was seen, and a minus sign is taken where it was. -/
theorem blames_nextInside (tag : Tag) (lexer : Lexer) : Blames (nextInside tag) lexer := by
  refine blames_bind_of_ok (skipSpacing_run lexer) (blames_bind_of_ok (get_run _) ?_)
  split
  · exact blames_throw trivial
  rename_i c cs hrest
  split
  · rename_i hclosing
    exact blames_of_ok (leave_run (hrest ▸ eq_of_closing? hclosing) _)
  split_ifs
  · exact blames_readWord _ _
  · exact blames_of_ok (readNumber_run _ _ _ _)
  · exact blames_bind_of_ok (advance_run hrest) (blames_of_ok (readNumber_run _ _ _ _))
  · exact blames_readString hrest _ _
  · exact blames_readOperator _ _

/-! ### The whole text -/

theorem blames_next (lexer : Lexer) : Blames next lexer := by
  refine blames_bind_of_ok (get_run lexer) ?_
  split
  · exact blames_nextOutside lexer
  · exact blames_nextInside _ lexer

/-- By induction on the rounds: no round passes a character that is not there. -/
theorem blames_drain (rounds : Nat) : ∀ lexer, Blames (drain rounds) lexer := by
  induction rounds with
  | zero => exact fun lexer => blames_of_ok (pure_run [] lexer)
  | succ rounds ih =>
    intro lexer
    refine (blames_next lexer).bind fun token mid _ => ?_
    split
    · exact blames_of_ok (pure_run _ _)
    · exact (ih mid).bind fun _ _ _ => blames_of_ok (pure_run _ _)

/-- **A text that cannot be cut into tokens has a fault.** -/
theorem fault_of_tokenize {source : String} (h : tokenize source = .error e) : e.IsFault := by
  unfold tokenize at h
  split at h
  · cases h
  · rename_i made lexer' hrun
    cases h
    exact blames_drain _ _ hrun

end Stencil.Lexer
