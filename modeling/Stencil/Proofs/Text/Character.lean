import Stencil.Text.Blank
import Stencil.Text.Word

/-!
# Text — which characters are which

A digit is no letter, no blank, and no spacing is part of a word.  That two classes have no character
in common is seen by going through their ranges side by side (`Ranges.not_covers_of_apart`).
-/

namespace Stencil.Text

/-! ### Ranges -/

namespace Ranges

/-- Two rows of ranges in rising order, of which no range meets one of the other row. -/
def apart : Ranges → Ranges → Bool
  | [], _ => true
  | (lo, hi) :: rs, ss =>
    let above := ss.dropWhile fun s => decide (s.2 < lo)
    above.head?.all (fun s => decide (hi < s.1)) && apart rs above

/-- Ranges that end too early do not cover a code point. -/
theorem covers_dropWhile {lo n : Nat} (hlo : lo ≤ n) {ss : Ranges} (h : ss.covers n = true) :
    covers (ss.dropWhile fun s => decide (s.2 < lo)) n = true := by
  induction ss with
  | nil => cases h
  | cons s ss ih =>
    rw [List.dropWhile_cons]
    split
    · rename_i hs
      have hlt : s.2 < lo := of_decide_eq_true hs
      simp only [covers, Bool.and_eq_true, Bool.or_eq_true, decide_eq_true_eq] at h
      exact ih (h.2.resolve_left (by omega))
    · exact h

/-- Ranges that lie apart have no code point in common. -/
theorem not_covers_of_apart {n : Nat} {rs : Ranges} : ∀ {ss : Ranges}, apart rs ss = true →
    rs.covers n = true → ss.covers n = false := by
  induction rs with
  | nil => exact fun _ hn => nomatch hn
  | cons r rs ih =>
    obtain ⟨lo, hi⟩ := r
    intro ss h hn
    simp only [apart, Bool.and_eq_true] at h
    simp only [covers, Bool.and_eq_true, Bool.or_eq_true, decide_eq_true_eq] at hn
    rw [← Bool.not_eq_true]
    intro hss
    have habove := covers_dropWhile hn.1 hss
    rcases hn.2 with hhi | hn'
    · generalize (ss.dropWhile fun s => decide (s.2 < lo)) = above at h habove
      cases above with
      | nil => cases habove
      | cons s above =>
        have hlt : hi < s.1 := of_decide_eq_true h.1
        simp only [covers, Bool.and_eq_true, decide_eq_true_eq] at habove
        omega
    · cases (ih h.2 hn').symm.trans habove

end Ranges

/-! ### Characters -/

variable {c : Char}

/-- No digit is blank. -/
theorem isBlank_of_isDigit (h : isDigit c = true) : isBlank c = false := by
  rw [isDigit, Bool.or_eq_true] at h
  rcases h with h | h
  · exact Ranges.not_covers_of_apart (by decide +kernel) h
  · exact Ranges.not_covers_of_apart (by decide +kernel) h

/-- No digit is a letter. -/
theorem isLetter_of_isDigit (h : isDigit c = true) : isLetter c = false := by
  rw [isDigit, Bool.or_eq_true] at h
  rcases h with h | h
  · exact Ranges.not_covers_of_apart (by decide +kernel) h
  · exact Ranges.not_covers_of_apart (by decide +kernel) h

/-- No word starts with a blank. -/
theorem isBlank_of_startsWord (h : startsWord c = true) : isBlank c = false := by
  rw [startsWord, Bool.or_eq_true, beq_iff_eq] at h
  rcases h with h | rfl
  · exact Ranges.not_covers_of_apart (by decide +kernel) h
  · decide +kernel

theorem startsWord_of_isDigit (h : isDigit c = true) : startsWord c = false := by
  have hunderscore : c ≠ '_' := by
    rintro rfl
    have hno : isDigit '_' = false := by decide +kernel
    cases h.symm.trans hno
  rw [startsWord, isLetter_of_isDigit h, Bool.false_or, beq_eq_false_iff_ne]
  exact hunderscore

theorem isWord_of_isDigit (h : isDigit c = true) : isWord c = true := by
  rw [isWord, isNumeric_of_isDigit h, Bool.or_true, Bool.true_or]

/-- No spacing is part of a word. -/
theorem isWord_of_isSpacing (h : isSpacing c = true) : isWord c = false := by
  unfold isSpacing at h
  split at h
  · decide +kernel
  · decide +kernel
  · decide +kernel
  · decide +kernel
  · cases h

end Stencil.Text
