/-!
# Source — Place

A place in a text: the count of characters before it, and its line and column, which count from
one.  Only a newline starts a line (`line_after`).  `after` moves a place over characters, one after
the other (`after_append`).
-/

namespace Stencil

/-- A place in a text.  Lines and columns count on from wherever the reading was started. -/
structure Place where
  position : Nat
  line : Int
  column : Int
  deriving DecidableEq

namespace Place

/-- The first place of a text. -/
def start : Place := ⟨0, 1, 1⟩

/-- The place behind a character. -/
def next (p : Place) (c : Char) : Place :=
  if c = '\n' then ⟨p.position + 1, p.line + 1, 1⟩ else ⟨p.position + 1, p.line, p.column + 1⟩

/-- The place behind some characters. -/
def after (p : Place) (cs : List Char) : Place := cs.foldl next p

@[simp] theorem after_nil (p : Place) : p.after [] = p := rfl

@[simp] theorem after_cons (p : Place) (c : Char) (cs : List Char) :
    p.after (c :: cs) = (p.next c).after cs := rfl

theorem after_append (p : Place) (cs ds : List Char) :
    p.after (cs ++ ds) = (p.after cs).after ds := by
  simp [after]

@[simp] theorem position_next (p : Place) (c : Char) : (p.next c).position = p.position + 1 := by
  unfold next
  split <;> rfl

@[simp] theorem position_after (p : Place) (cs : List Char) :
    (p.after cs).position = p.position + cs.length := by
  induction cs generalizing p with
  | nil => rfl
  | cons c cs ih => simp [ih]; omega

theorem line_after (p : Place) (cs : List Char) : (p.after cs).line = p.line + cs.count '\n' := by
  induction cs generalizing p with
  | nil => simp
  | cons c cs ih =>
    rw [after_cons, ih, next, List.count_cons]
    by_cases h : c = '\n' <;> simp [h]; omega

end Place

end Stencil
