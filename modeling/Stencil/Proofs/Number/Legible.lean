import Mathlib.Data.List.TakeWhile
import Stencil.Proofs.Lexer.Segment
import Stencil.Proofs.Number.Readable
import Stencil.Proofs.Text.Character

/-!
# Number — which numerals can be read

The lexer takes a sign, digits, and perhaps a point and more digits for a number.  It takes any
digit, and as many as there are; a numeral is read from decimal digits alone, and an integer from no
more of them than `digitLimit`.  So a number of the lexer is read exactly if it is `Legible`
(`refused_iff_not_legible`).

A digit that is not decimal ends a run of digits, and nothing of a numeral goes on behind it: it is
no underscore, no point and no exponent, and no blank that could be dropped (`isMargin_of_isDigit`).
-/

namespace Stencil

namespace Numeral

/-! ### Digits -/

/-- No digit is a blank that may stand around a numeral. -/
theorem isMargin_of_isDigit {c : Char} (h : Text.isDigit c = true) : isMargin c = false := by
  rw [isMargin, Text.isBlank_of_isDigit h, Bool.false_and]

/-- What else than digits stands in numerals. -/
def marks : List Char := ['+', '-', '_', '.', 'e', 'E']

/-- No mark is a digit, and none is a blank. -/
theorem not_of_mem_marks {c : Char} (h : c ∈ marks) :
    Text.isDigit c = false ∧ isMargin c = false := by
  simp only [marks, List.mem_cons, List.not_mem_nil, or_false] at h
  rcases h with rfl | rfl | rfl | rfl | rfl | rfl <;> decide +kernel

theorem ne_mark {c d : Char} (h : Text.isDigit c = true) (hd : d ∈ marks) : c ≠ d := by
  rintro rfl
  cases h.symm.trans (not_of_mem_marks hd).1

/-- Does the character stand for a decimal digit? -/
def isDecimal (c : Char) : Bool := (Text.decimalValue? c).isSome

theorem moreDigits_of_decimal {c : Char} {d : Nat} (hd : Text.decimalValue? c = some d)
    (cs : List Char) : moreDigits (c :: cs) = (d :: (moreDigits cs).1, (moreDigits cs).2) := by
  cases cs with
  | nil => simp only [moreDigits, hd]
  | cons next rest => simp only [moreDigits, hd]

theorem moreDigits_of_not_decimal {c : Char} (hc : isDecimal c = false) (hne : c ≠ '_')
    (cs : List Char) : moreDigits (c :: cs) = ([], c :: cs) := by
  have hd : Text.decimalValue? c = none := by simpa [isDecimal] using hc
  cases cs with
  | nil => simp only [moreDigits, hd]
  | cons next rest =>
    rw [moreDigits, hd]
    exact fun _ he => absurd he hne

/-- A run of digits is read up to the first that is not decimal. -/
theorem exists_moreDigits {ds rest : List Char} (hds : ∀ c ∈ ds, Text.isDigit c = true)
    (hrest : moreDigits rest = ([], rest)) :
    ∃ values, moreDigits (ds ++ rest) = (values, ds.dropWhile isDecimal ++ rest) ∧
      values.length = (ds.takeWhile isDecimal).length := by
  induction ds with
  | nil => exact ⟨[], hrest, rfl⟩
  | cons c ds ih =>
    obtain ⟨hc, hds⟩ := List.forall_mem_cons.mp hds
    by_cases hdecimal : isDecimal c = true
    · obtain ⟨d, hd⟩ := Option.isSome_iff_exists.mp hdecimal
      obtain ⟨values, hrun, hlength⟩ := ih hds
      refine ⟨d :: values, ?_, ?_⟩
      · rw [List.cons_append, moreDigits_of_decimal hd, hrun,
          List.dropWhile_cons_of_pos hdecimal]
      · rw [List.takeWhile_cons_of_pos hdecimal, List.length_cons, List.length_cons, hlength]
    · refine ⟨[], ?_, ?_⟩
      · have hne := ne_mark (d := '_') hc (by simp [marks])
        rw [List.cons_append, moreDigits_of_not_decimal (Bool.eq_false_iff.mpr hdecimal) hne,
          List.dropWhile_cons_of_neg hdecimal, List.cons_append]
      · rw [List.takeWhile_cons_of_neg hdecimal]
        rfl

theorem exists_digitRun {ds rest : List Char} (hds : Lexer.AllDigits ds)
    (hrest : moreDigits rest = ([], rest)) :
    ∃ values, digitRun (ds ++ rest) = (values, ds.dropWhile isDecimal ++ rest) ∧
      values.length = (ds.takeWhile isDecimal).length := by
  obtain ⟨hne, hall⟩ := hds
  obtain ⟨c, ds, rfl⟩ := List.exists_cons_of_ne_nil hne
  have hc := ne_mark (d := '_') (hall c (.head _)) (by simp [marks])
  have hrun : digitRun (c :: ds ++ rest) = moreDigits (c :: ds ++ rest) := by
    rw [List.cons_append]
    unfold digitRun
    split
    · rename_i heq
      exact absurd (List.cons.inj heq).1 hc
    · rfl
  rw [hrun]
  exact exists_moreDigits hall hrest

/-- What is left of a run of digits is empty, or begins with a digit that is not decimal. -/
theorem dropWhile_isDecimal {ds : List Char} (hds : ∀ c ∈ ds, Text.isDigit c = true) :
    (∀ c ∈ ds, isDecimal c = true) ∧ ds.dropWhile isDecimal = [] ∨
      (¬ ∀ c ∈ ds, isDecimal c = true) ∧
        ∃ c cs, ds.dropWhile isDecimal = c :: cs ∧ Text.isDigit c = true := by
  by_cases hall : ∀ c ∈ ds, isDecimal c = true
  · exact .inl ⟨hall, List.dropWhile_eq_nil_iff.mpr hall⟩
  · obtain ⟨c, cs, hcs⟩ := List.exists_cons_of_ne_nil (mt List.dropWhile_eq_nil_iff.mp hall)
    have hmem : c ∈ ds := (List.dropWhile_suffix isDecimal).subset (by rw [hcs]; exact .head _)
    exact .inr ⟨hall, c, cs, hcs, hds c hmem⟩

/-! ### Numbers of the lexer -/

/-- The sign that the lexer may take with a number. -/
theorem sign_append {sg ds : List Char} (hsg : sg = [] ∨ sg = ['-']) (hds : Lexer.AllDigits ds)
    (rest : List Char) : ∃ negative, sign (sg ++ ds ++ rest) = (negative, ds ++ rest) := by
  obtain ⟨hne, hall⟩ := hds
  obtain ⟨c, ds, rfl⟩ := List.exists_cons_of_ne_nil hne
  have hc := hall c (.head _)
  rcases hsg with rfl | rfl
  · refine ⟨false, ?_⟩
    rw [List.nil_append, List.cons_append]
    unfold sign
    split
    · rename_i heq
      exact absurd (List.cons.inj heq).1 (ne_mark hc (by simp [marks]))
    · rename_i heq
      exact absurd (List.cons.inj heq).1 (ne_mark hc (by simp [marks]))
    · rfl
  · exact ⟨true, rfl⟩

/-- The sign of a number of the lexer is a mark. -/
theorem mem_marks_of_sign {sg : List Char} (hsg : sg = [] ∨ sg = ['-']) : ∀ c ∈ sg, c ∈ marks := by
  rcases hsg with rfl | rfl <;> simp [marks]

/-- An integer of the lexer is read if its digits are decimal and not too many. -/
theorem integer_refused_iff {sg ds : List Char} (hsg : sg = [] ∨ sg = ['-'])
    (hds : Lexer.AllDigits ds) : (∃ e, integer (String.ofList (sg ++ ds)) = .error e) ↔
      ¬ ((∀ c ∈ ds, isDecimal c = true) ∧ ds.length ≤ digitLimit) := by
  have htrim : Text.trim isMargin (sg ++ ds) = sg ++ ds := trim_of_forall fun c hc =>
    (List.mem_append.mp hc).elim (fun hc => (not_of_mem_marks (mem_marks_of_sign hsg c hc)).2)
      fun hc => isMargin_of_isDigit (hds.2 c hc)
  obtain ⟨negative, hsign⟩ := sign_append hsg hds []
  obtain ⟨values, hrun, hlength⟩ := exists_digitRun hds (show moreDigits [] = ([], []) from rfl)
  simp only [List.append_nil] at hsign hrun
  rw [integer, String.toList_ofList, htrim, hsign]
  dsimp only
  rw [hrun]
  dsimp only
  -- all digits are decimal, or the first one that is not ends the run with text left over
  rcases dropWhile_isDecimal hds.2 with ⟨hall, hrest⟩ | ⟨hall, c, cs, hrest, hc⟩
  · have htake : ds.takeWhile isDecimal = ds := List.takeWhile_eq_self_iff.mpr hall
    have hvalues : values ≠ [] := by
      rintro rfl
      rw [htake] at hlength
      exact hds.1 (List.length_eq_zero_iff.mp hlength.symm)
    rw [hrest, hlength, htake]
    by_cases hlong : digitLimit < ds.length
    · simp [hlong, Nat.not_le_of_lt hlong]
    · simp [hlong, Nat.le_of_not_lt hlong, hvalues]
      exact hall
  · have hne := ne_mark (d := '_') hc (by simp [marks])
    rw [hrest]
    refine iff_of_true ?_ fun h => hall h.1
    split_ifs
    · exact ⟨_, rfl⟩
    · exact ⟨_, rfl⟩
    · exact ⟨_, rfl⟩
    · simp_all

theorem exponent?_of_isDigit {c : Char} (hc : Text.isDigit c = true) (cs : List Char) :
    exponent? (c :: cs) = none := by
  have he := ne_mark (d := 'e') hc (by simp [marks])
  have he' := ne_mark (d := 'E') hc (by simp [marks])
  rw [exponent?, if_neg (by simp [he, he'])]

/-- A double of the lexer is read if its digits are decimal. -/
theorem decimal?_eq_none_iff {ds part : List Char} (hds : Lexer.AllDigits ds)
    (hpart : Lexer.AllDigits part) : decimal? (ds ++ '.' :: part) = none ↔
      ¬ ∀ c ∈ ds ++ part, isDecimal c = true := by
  have hpoint : moreDigits ('.' :: part) = ([], '.' :: part) :=
    moreDigits_of_not_decimal (by decide +kernel) (by decide) part
  obtain ⟨whole, hwhole, hlength⟩ := exists_digitRun hds hpoint
  obtain ⟨behind, hbehind, -⟩ := exists_digitRun hpart (show moreDigits [] = ([], []) from rfl)
  simp only [List.append_nil] at hbehind
  rw [decimal?, hwhole]
  dsimp only
  rw [List.forall_mem_append]
  -- the digits before the point, and then those behind it, are read up to one that is not decimal
  rcases dropWhile_isDecimal hds.2 with ⟨hall, hrest⟩ | ⟨hall, c, cs, hrest, hc⟩
  · have hne : whole ≠ [] := by
      rintro rfl
      rw [List.takeWhile_eq_self_iff.mpr hall] at hlength
      exact hds.1 (List.length_eq_zero_iff.mp hlength.symm)
    rw [hrest, List.nil_append]
    simp only [hbehind]
    rcases dropWhile_isDecimal hpart.2 with ⟨hall', hrest'⟩ | ⟨hall', c, cs, hrest', hc⟩
    · simp only [hrest', exponent?, Option.map_some, List.isEmpty_iff, hne, false_and, if_false]
      exact iff_of_false (Option.some_ne_none _) (not_not_intro ⟨hall, hall'⟩)
    · simp [hrest', hne, exponent?_of_isDigit hc, hall']
  · have hne := ne_mark (d := '.') hc (by simp [marks])
    refine iff_of_true ?_ fun h => hall h.1
    rw [hrest, List.cons_append]
    split
    · rename_i heq
      exact absurd (List.cons.inj heq).1 hne
    · simp [exponent?_of_isDigit hc]

theorem float_refused_iff {sg ds part : List Char} (hsg : sg = [] ∨ sg = ['-'])
    (hds : Lexer.AllDigits ds) (hpart : Lexer.AllDigits part) :
    (∃ e, float (String.ofList (sg ++ ds ++ '.' :: part)) = .error e) ↔
      ¬ ∀ c ∈ ds ++ part, isDecimal c = true := by
  have htrim : Text.trim isMargin (sg ++ ds ++ '.' :: part) = sg ++ ds ++ '.' :: part := by
    refine trim_of_forall fun c hc => ?_
    simp only [List.mem_append, List.mem_cons] at hc
    rcases hc with (hc | hc) | rfl | hc
    · exact (not_of_mem_marks (mem_marks_of_sign hsg c hc)).2
    · exact isMargin_of_isDigit (hds.2 c hc)
    · exact (not_of_mem_marks (by simp [marks])).2
    · exact isMargin_of_isDigit (hpart.2 c hc)
  obtain ⟨negative, hsign⟩ := sign_append hsg hds ('.' :: part)
  rw [← decimal?_eq_none_iff hds hpart, float, String.toList_ofList, htrim, hsign]
  dsimp only
  cases decimal? (ds ++ '.' :: part) <;> simp

/-- The digits of the number are decimal, and if it is an integer they are not too many. -/
def Legible (value : List Char) : Prop :=
  (∀ c ∈ value, Text.isDigit c = true → isDecimal c = true) ∧
    ('.' ∉ value → (value.filter Text.isDigit).length ≤ digitLimit)

instance (value : List Char) : Decidable (Legible value) := inferInstanceAs (Decidable (_ ∧ _))

theorem map_eq_error {α β : Type} {f : α → β} {x : Except Error α} :
    (∃ e, x.map f = .error e) ↔ ∃ e, x = .error e := by
  cases x <;> simp [Except.map]

/-- **A number of the lexer is refused if it is not legible**, and only then. -/
theorem refused_iff_not_legible {spelling value : List Char}
    (h : Lexer.Lexical spelling .number value) :
    (∃ e, read (String.ofList value) = .error e) ↔ ¬ Legible value := by
  have hpoint : Text.isDigit '.' = false := (not_of_mem_marks (by simp [marks])).1
  have signs {sg : List Char} (hsg : sg = [] ∨ sg = ['-']) :
      '.' ∉ sg ∧ ∀ c ∈ sg, Text.isDigit c = false :=
    ⟨by rcases hsg with rfl | rfl <;> simp,
      fun c hc => (not_of_mem_marks (mem_marks_of_sign hsg c hc)).1⟩
  have digits {ds : List Char} (hds : Lexer.AllDigits ds) :
      '.' ∉ ds ∧ ds.filter Text.isDigit = ds :=
    ⟨fun hmem => absurd (hds.2 '.' hmem) (by simp [hpoint]), List.filter_eq_self.mpr hds.2⟩
  -- only two of the spellings are numbers: with a point and without one
  generalize hkind : Token.Kind.number = kind at h
  cases h with
  | @whole sg ds hsg hds =>
    obtain ⟨hsign, hdigit⟩ := signs hsg
    obtain ⟨hno, hfilter⟩ := digits hds
    have hmem : '.' ∉ (String.ofList (sg ++ ds)).toList := by simp [hsign, hno]
    rw [read, if_neg hmem, map_eq_error, integer_refused_iff hsg hds, Legible,
      List.filter_append, List.filter_eq_nil_iff.mpr (by simpa using hdigit), List.nil_append,
      hfilter, List.forall_mem_append]
    -- without a point the digits are bounded in number as well
    refine not_congr (and_congr ⟨fun h => ⟨?_, fun c hc _ => h c hc⟩, fun h c hc => ?_⟩ ?_)
    · exact fun c hc hd => absurd hd (by simp [hdigit c hc])
    · exact h.2 c hc (hds.2 c hc)
    · exact ⟨fun h _ => h, fun h => h (by simp [hsign, hno])⟩
  | @pointed sg ds part hsg hds hpart =>
    obtain ⟨-, hdigit⟩ := signs hsg
    have hmem : '.' ∈ (String.ofList (sg ++ ds ++ '.' :: part)).toList := by simp
    rw [read, if_pos hmem, map_eq_error, float_refused_iff hsg hds hpart, Legible]
    refine not_congr
      ⟨fun h => ⟨fun c hc hd => ?_, fun hno => absurd (by simp) hno⟩, fun h c hc => ?_⟩
    · simp only [List.mem_append, List.mem_cons] at hc
      rcases hc with (hc | hc) | rfl | hc
      · exact absurd hd (by simp [hdigit c hc])
      · exact h c (List.mem_append_left _ hc)
      · exact absurd hd (by simp [hpoint])
      · exact h c (List.mem_append_right _ hc)
    · rcases List.mem_append.mp hc with hc | hc
      · exact h.1 c (by simp [hc]) (hds.2 c hc)
      · exact h.1 c (by simp [hc]) (hpart.2 c hc)
  | word =>
    have reserved : ∀ entry ∈ Vocabulary.keywords, Token.Kind.number ≠ entry.2 := by decide
    exact absurd hkind (Lexer.wordKind_of_forall (P := (.number ≠ ·)) (by decide) reserved _)
  | operator h =>
    have reserved : ∀ entry ∈ Vocabulary.operators, Token.Kind.number ≠ entry.2 := by decide
    exact absurd hkind (reserved _ h)
  | notIn | string => cases hkind

end Numeral

end Stencil
