/-!
# Text — Newline

Line ends of a text file.  A return, alone or before a newline, counts as one newline, so the text
that comes out has no return (`not_mem_unifyNewlines`).
-/

namespace Stencil.Text

/-- The text with every line end written as one newline. -/
def unifyNewlines : List Char → List Char
  | [] => []
  | '\r' :: '\n' :: rest => '\n' :: unifyNewlines rest
  | c :: rest => (if c = '\r' then '\n' else c) :: unifyNewlines rest

theorem not_mem_unifyNewlines (cs : List Char) : '\r' ∉ unifyNewlines cs := by
  fun_induction unifyNewlines cs with
  | case1 => simp
  | case2 rest ih => simp [ih]
  | case3 c rest _ ih =>
    by_cases h : c = '\r'
    · simp [h, ih]
    · simp [h, ih, Ne.symm h]

end Stencil.Text
