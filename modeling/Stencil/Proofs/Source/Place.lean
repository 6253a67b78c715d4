import Mathlib.Data.List.DropRight
import Stencil.Source.Stream

/-!
# Source — the places of a text

What the place of a position in a text is (`IsPlaceOf`): its line is one more than the newlines before
the position, and its column one more than the characters since the last of them.

A cursor is `Within` a text if it stands behind characters of it, with the rest of the text in front.
It does at the start (`within_start`), and then wherever characters take it (`Within.past`); so it
always has the place of its position (`Within.isPlaceOf`).
-/

namespace Stencil

variable {source passed rest : List Char} {p : Place} {c : Cursor}

/-- The column counts the characters behind the last line break, and one. -/
theorem Place.column_after_start (cs : List Char) :
    (start.after cs).column = 1 + (cs.rtakeWhile (· ≠ '\n')).length := by
  induction cs using List.reverseRecOn with
  | nil => rfl
  | append_singleton cs c ih =>
    rw [after_append, after_cons, after_nil, List.rtakeWhile_concat, next]
    by_cases hc : c = '\n'
    · simp [hc]
    · simp only [hc, if_false, ih, ne_eq, not_false_eq_true, decide_true, if_true, List.length_append,
        List.length_singleton]
      omega

/-- The place is that of its position in the text. -/
structure IsPlaceOf (source : List Char) (p : Place) : Prop where
  position_le : p.position ≤ source.length
  line_eq : p.line = 1 + (source.take p.position).count '\n'
  column_eq : p.column = 1 + ((source.take p.position).rtakeWhile (· ≠ '\n')).length

namespace Cursor

/-- The cursor stands in the text, behind what it has passed from the start. -/
def Within (source : List Char) (c : Cursor) : Prop :=
  ∃ before, source = before ++ c.rest ∧ c.place = Place.start.after before

namespace Within

/-- Characters at hand may be passed within the text. -/
theorem past (h : c.Within source) (hrest : c.rest = passed ++ rest) :
    (c.past passed rest).Within source := by
  obtain ⟨before, rfl, hplace⟩ := h
  refine ⟨before ++ passed, ?_, ?_⟩
  · rw [hrest, List.append_assoc]
    rfl
  · rw [Place.after_append, ← hplace]
    rfl

/-- What is left depends on the position alone. -/
theorem rest_eq (h : c.Within source) : c.rest = source.drop c.place.position := by
  obtain ⟨before, rfl, hplace⟩ := h
  rw [hplace, Place.position_after, show Place.start.position = 0 from rfl, Nat.zero_add,
    List.drop_left]

/-- **Within a text, a cursor has the place of its position.** -/
theorem isPlaceOf (h : c.Within source) : IsPlaceOf source c.place := by
  obtain ⟨before, rfl, hplace⟩ := h
  have hposition : c.place.position = before.length := by
    rw [hplace, Place.position_after]
    exact Nat.zero_add _
  have htake : (before ++ c.rest).take c.place.position = before := by
    rw [hposition, List.take_left]
  refine ⟨?_, ?_, ?_⟩
  · rw [hposition, List.length_append]
    exact Nat.le_add_right _ _
  · rw [htake, hplace, Place.line_after]
    rfl
  · rw [htake, hplace, Place.column_after_start]

end Within

end Cursor

end Stencil
