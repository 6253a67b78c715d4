import Stencil.Json.Printer

/-!
# Json — characters

Which characters are in the text of a value.  All that the printer adds to the strings and numbers of
a value is ASCII: brackets, colons, words, escapes.  So any other character is in the text if a string
or a number of the value has it (`Json.Mentions`), and only then; whether the text is on one line
(`mem_compact`) or over several (`mem_indented`).
-/

namespace Stencil.Json

variable {c : Char}

mutual

/-- Is the character in a string, in a number or in the name of a field? -/
def Mentions (c : Char) : Json → Prop
  | null | boolean _ => False
  | number n => c ∈ (numberText n).toList
  | string s => c ∈ s.toList
  | array elements => ElementsMention c elements
  | object fields => FieldsMention c fields
termination_by structural j => j

def ElementsMention (c : Char) : List Json → Prop
  | [] => False
  | j :: rest => Mentions c j ∨ ElementsMention c rest
termination_by structural js => js

def FieldsMention (c : Char) : List (String × Json) → Prop
  | [] => False
  | (name, j) :: rest => c ∈ name.toList ∨ Mentions c j ∨ FieldsMention c rest
termination_by structural fields => fields

end

/-! ### Pieces of the text -/

/-- A character beyond ASCII is none of some that are ASCII. -/
theorem not_mem_of_ascii {cs : List Char} (hc : 0x80 ≤ c.toNat)
    (hcs : cs.all (·.toNat < 0x80) = true) : c ∉ cs := by
  intro hmem
  have h := List.all_eq_true.mp hcs c hmem
  simp only [decide_eq_true_eq] at h
  omega

/-- Beyond ASCII a character is written as it is. -/
theorem escaped_of_le {d : Char} (hd : 0x80 ≤ d.toNat) : escaped d = [d] := by
  have hne {x : Char} (hx : x.toNat < 0x80) : d ≠ x := by rintro rfl; omega
  have hcode : ¬ d.toNat < 0x20 := by omega
  simp (disch := decide) only [escaped, hne, hcode, if_false]

/-- Escapes are written in ASCII. -/
theorem escaped_ascii {d : Char} (hd : d.toNat < 0x80) :
    (escaped d).all (·.toNat < 0x80) = true := by
  have hall : ∀ n < 0x80, (escaped (Char.ofNat n)).all (·.toNat < 0x80) = true := by
    decide +kernel
  simpa using hall d.toNat hd

/-- A character beyond ASCII comes of no escape. -/
theorem mem_escaped (hc : 0x80 ≤ c.toNat) (d : Char) : c ∈ escaped d ↔ c = d := by
  by_cases hd : d.toNat < 0x80
  · exact iff_of_false (not_mem_of_ascii hc (escaped_ascii hd)) (by rintro rfl; omega)
  · rw [escaped_of_le (Nat.le_of_not_lt hd), List.mem_singleton]

/-- The escapes of a string are all ASCII. -/
theorem mem_stringText (hc : 0x80 ≤ c.toNat) (s : String) :
    c ∈ (stringText s).toList ↔ c ∈ s.toList := by
  have hmark : c ≠ '\x22' := by rintro rfl; revert hc; decide
  simp [stringText, hmark, mem_escaped hc]

theorem not_mem_null (hc : 0x80 ≤ c.toNat) : c ∉ "null".toList :=
  not_mem_of_ascii hc (by decide)

theorem not_mem_booleanText (hc : 0x80 ≤ c.toNat) (b : Bool) : c ∉ (booleanText b).toList :=
  not_mem_of_ascii hc (by cases b <;> decide)

/-- An integer is written with digits, and with a sign if it is negative. -/
theorem integerText_ascii (n : Int) :
    (numberText (.integer n)).toList.all (·.toNat < 0x80) = true := by
  have hdigits (m : Nat) : ∀ d ∈ m.repr.toList, d.toNat < 0x80 := by
    intro d hd
    rw [Nat.toList_repr] at hd
    have h := Nat.isDigit_of_mem_toDigits (by decide) (by decide) hd
    simp only [Char.isDigit, Bool.and_eq_true, decide_eq_true_eq, UInt32.le_iff_toNat_le] at h
    exact Nat.lt_of_le_of_lt h.2 (by decide)
  cases n with
  | ofNat m => simpa [numberText, Int.toString_eq_repr, Int.repr] using hdigits m
  | negSucc m => simpa [numberText, Int.toString_eq_repr, Int.repr] using hdigits (m + 1)

/-- Between separators without it, a character is in one of the items. -/
theorem mem_intercalate {sep : String} (hsep : c ∉ sep.toList) (l : List String) :
    c ∈ (sep.intercalate l).toList ↔ ∃ s ∈ l, c ∈ s.toList := by
  induction l with
  | nil => simp
  | cons s rest ih =>
    cases rest with
    | nil => simp
    | cons t rest =>
      rw [String.intercalate_cons_cons]
      simp only [List.mem_cons (l := t :: rest), exists_eq_or_imp, ← ih, String.toList_append,
        List.mem_append, hsep, or_false]

/-- A new line and its margin are ASCII. -/
theorem lineAt_ascii (level : Nat) : (lineAt level).toList.all (·.toNat < 0x80) = true := by
  simp [lineAt]

/-- Of the items between brackets none is lost, and only ASCII is added to them. -/
theorem mem_block (hc : 0x80 ≤ c.toNat) {opening closing : String} (ho : c ∉ opening.toList)
    (hcl : c ∉ closing.toList) (level : Nat) (items : List String) :
    c ∈ (block level opening closing items).toList ↔ ∃ s ∈ items, c ∈ s.toList := by
  have hline (level : Nat) : c ∉ (lineAt level).toList :=
    not_mem_of_ascii hc (lineAt_ascii level)
  have hcomma : c ≠ ',' := by rintro rfl; revert hc; decide
  have hsep : c ∉ ("," ++ lineAt (level + 1)).toList := by simp [hcomma, hline]
  cases items with
  | nil => simp [block, ho, hcl]
  | cons s rest =>
    rw [block]
    · simp only [String.toList_append, List.mem_append, ho, hline, hcl, false_or, or_false]
      exact mem_intercalate hsep _
    · simp

/-- A row of items with commas between them, and brackets or braces around it. -/
theorem mem_row (hc : 0x80 ≤ c.toNat) {opening closing : String} (ho : c ∉ opening.toList)
    (hcl : c ∉ closing.toList) (items : List String) :
    c ∈ (opening ++ ", ".intercalate items ++ closing).toList ↔ ∃ s ∈ items, c ∈ s.toList := by
  simp only [String.toList_append, List.mem_append, ho, hcl, false_or, or_false]
  exact mem_intercalate (not_mem_of_ascii hc (by decide)) _

/-- A field with its name. -/
theorem mem_field (hc : 0x80 ≤ c.toNat) (name text : String) :
    c ∈ (stringText name ++ ": " ++ text).toList ↔ c ∈ name.toList ∨ c ∈ text.toList := by
  have hcolon : c ∉ ": ".toList := not_mem_of_ascii hc (by decide)
  simp only [String.toList_append, List.mem_append, mem_stringText hc, hcolon, or_false]

/-! ### Whole texts -/

mutual

/-- A character beyond ASCII is in the text on one line just where the value mentions it. -/
theorem mem_compact (hc : 0x80 ≤ c.toNat) : ∀ j : Json, c ∈ j.compact.toList ↔ j.Mentions c
  | null => iff_of_false (not_mem_null hc) id
  | boolean b => iff_of_false (not_mem_booleanText hc b) id
  | number _ => Iff.rfl
  | string s => mem_stringText hc s
  | array elements => by
    rw [compact, mem_row hc (not_mem_of_ascii hc (by decide)) (not_mem_of_ascii hc (by decide))]
    exact mem_compactElements hc elements
  | object fields => by
    rw [compact, mem_row hc (not_mem_of_ascii hc (by decide)) (not_mem_of_ascii hc (by decide))]
    exact mem_compactFields hc fields

theorem mem_compactElements (hc : 0x80 ≤ c.toNat) : ∀ elements : List Json,
    (∃ s ∈ compactElements elements, c ∈ s.toList) ↔ ElementsMention c elements
  | [] => by simp [compactElements, ElementsMention]
  | j :: rest => by
    simp only [compactElements, List.mem_cons, exists_eq_or_imp, mem_compact hc j,
      mem_compactElements hc rest, ElementsMention]

theorem mem_compactFields (hc : 0x80 ≤ c.toNat) : ∀ fields : List (String × Json),
    (∃ s ∈ compactFields fields, c ∈ s.toList) ↔ FieldsMention c fields
  | [] => by simp [compactFields, FieldsMention]
  | (name, j) :: rest => by
    simp only [compactFields, List.mem_cons, exists_eq_or_imp, mem_field hc, mem_compact hc j,
      mem_compactFields hc rest, FieldsMention, or_assoc]

end

mutual

/-- The same for the text over several lines, at every level. -/
theorem mem_indentedAt (hc : 0x80 ≤ c.toNat) (level : Nat) :
    ∀ j : Json, c ∈ (j.indentedAt level).toList ↔ j.Mentions c
  | null => iff_of_false (not_mem_null hc) id
  | boolean b => iff_of_false (not_mem_booleanText hc b) id
  | number _ => Iff.rfl
  | string s => mem_stringText hc s
  | array elements => by
    rw [indentedAt, mem_block hc (not_mem_of_ascii hc (by decide)) (not_mem_of_ascii hc (by decide))]
    exact mem_indentedElements hc (level + 1) elements
  | object fields => by
    rw [indentedAt, mem_block hc (not_mem_of_ascii hc (by decide)) (not_mem_of_ascii hc (by decide))]
    exact mem_indentedFields hc (level + 1) fields

theorem mem_indentedElements (hc : 0x80 ≤ c.toNat) (level : Nat) : ∀ elements : List Json,
    (∃ s ∈ indentedElements level elements, c ∈ s.toList) ↔ ElementsMention c elements
  | [] => by simp [indentedElements, ElementsMention]
  | j :: rest => by
    simp only [indentedElements, List.mem_cons, exists_eq_or_imp, mem_indentedAt hc level j,
      mem_indentedElements hc level rest, ElementsMention]

theorem mem_indentedFields (hc : 0x80 ≤ c.toNat) (level : Nat) :
    ∀ fields : List (String × Json),
      (∃ s ∈ indentedFields level fields, c ∈ s.toList) ↔ FieldsMention c fields
  | [] => by simp [indentedFields, FieldsMention]
  | (name, j) :: rest => by
    simp only [indentedFields, List.mem_cons, exists_eq_or_imp, mem_field hc,
      mem_indentedAt hc level j, mem_indentedFields hc level rest, FieldsMention, or_assoc]

end

/-- Beyond ASCII, the text over several lines has the characters that the value mentions. -/
theorem mem_indented (hc : 0x80 ≤ c.toNat) (j : Json) :
    c ∈ j.indented.toList ↔ j.Mentions c := mem_indentedAt hc 0 j

end Stencil.Json
