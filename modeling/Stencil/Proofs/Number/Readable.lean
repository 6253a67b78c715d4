import Mathlib.Data.Nat.Digits.Lemmas
import Stencil.Number.Numeral

/-!
# Number — which numbers there are

Some numeral stands for every integer with as many digits as an integer may have, and for every
double but the one that is no number (`Number.readable_iff_exists_numeral`).  An integer is written
with its decimal digits.  A finite magnitude is a count of units of 2⁻¹⁰⁷⁴, so it is a whole count of
10⁻¹⁰⁷⁴, and written so it is read back without rounding (`nearestRank_units`).
-/

namespace Stencil

open Numeral Binary64

/-- A number that some numeral stands for. -/
def Number.Readable : Number → Prop
  | .integer n => n.natAbs < 10 ^ digitLimit
  | .float x => x ≠ .nan

/-! ### Decimal digits -/

namespace Numeral

/-- A digit is written and read as one and the same. -/
theorem decimalValue?_digitChar : ∀ d < 10, Text.decimalValue? d.digitChar = some d := by decide

theorem lt_of_decimalValue? {c : Char} {d : Nat} (h : Text.decimalValue? c = some d) : d < 10 := by
  obtain ⟨_, _, rfl⟩ := Option.map_eq_some_iff.mp h
  exact Nat.mod_lt _ (by decide)

theorem moreDigits_lt (cs : List Char) : ∀ d ∈ (moreDigits cs).1, d < 10 := by
  fun_induction moreDigits cs with
  | case1 | case3 | case6 => exact fun _ hd => nomatch hd
  | case2 c d hd => exact List.forall_mem_singleton.mpr (lt_of_decimalValue? hd)
  | case4 c next rest d hd ds after hmore ih =>
    rw [hmore] at ih
    exact List.forall_mem_cons.mpr ⟨lt_of_decimalValue? hd, ih⟩
  | case5 next rest d hd ds after hmore _ ih =>
    rw [hmore] at ih
    exact List.forall_mem_cons.mpr ⟨lt_of_decimalValue? hd, ih⟩

theorem digitRun_lt (cs : List Char) : ∀ d ∈ (digitRun cs).1, d < 10 := by
  unfold digitRun
  split
  · exact fun _ hd => nomatch hd
  · exact moreDigits_lt cs

/-- A digit in front of others goes on with them, and no separator comes between. -/
theorem moreDigits_digitChar {d : Nat} (hd : d < 10) (cs : List Char) :
    moreDigits (d.digitChar :: cs) = (d :: (moreDigits cs).1, (moreDigits cs).2) := by
  cases cs with
  | nil => simp only [moreDigits, decimalValue?_digitChar d hd]
  | cons c cs => simp only [moreDigits, decimalValue?_digitChar d hd]

/-- Digits are read up to where no digit goes on. -/
theorem moreDigits_append {rest : List Char} (hrest : moreDigits rest = ([], rest)) :
    ∀ {ds : List Nat}, (∀ d ∈ ds, d < 10) →
      moreDigits (ds.map Nat.digitChar ++ rest) = (ds, rest)
  | [], _ => hrest
  | d :: ds, h => by
      obtain ⟨hd, hds⟩ := List.forall_mem_cons.mp h
      rw [List.map_cons, List.cons_append, moreDigits_digitChar hd, moreDigits_append hrest hds]

/-- The decimal digits of a number, the first one first. -/
def digitsOf (n : Nat) : List Nat := if n = 0 then [0] else (Nat.digits 10 n).reverse

/-- The digits of a number are decimal digits. -/
theorem digitsOf_lt (n : Nat) : ∀ d ∈ digitsOf n, d < 10 := by
  unfold digitsOf
  split
  · decide
  · exact fun d hd => Nat.digits_lt_base (by decide) (List.mem_reverse.mp hd)

theorem digitsOf_ne_nil (n : Nat) : digitsOf n ≠ [] := by
  unfold digitsOf
  split
  · decide
  · rename_i hn
    simpa [Nat.digits_eq_nil_iff_eq_zero] using hn

/-- The value of digits is that of the library, which has the lowest one first. -/
theorem digitsValue_reverse (ds : List Nat) : digitsValue ds.reverse = Nat.ofDigits 10 ds := by
  rw [digitsValue, List.foldl_reverse, Nat.ofDigits_eq_foldr]
  simp only [Nat.cast_id, Nat.add_comm]

/-- The digits of a number have the number for their value. -/
theorem digitsValue_digitsOf (n : Nat) : digitsValue (digitsOf n) = n := by
  unfold digitsOf
  split
  · rename_i hn
    rw [hn]
    rfl
  · rw [digitsValue_reverse, Nat.ofDigits_digits]

/-- A number has so many digits at most iff it is below that power of ten. -/
theorem length_digitsOf_le {n k : Nat} (hk : 0 < k) : (digitsOf n).length ≤ k ↔ n < 10 ^ k := by
  unfold digitsOf
  split
  · rename_i hn
    rw [hn]
    exact iff_of_true hk (Nat.pow_pos (by decide))
  · rw [List.length_reverse, Nat.digits_length_le_iff (by decide)]

/-- So many digits stay below that power of ten. -/
theorem digitsValue_lt {ds : List Nat} (h : ∀ d ∈ ds, d < 10) :
    digitsValue ds < 10 ^ ds.length := by
  have hlt := Nat.ofDigits_lt_base_pow_length (l := ds.reverse) (b := 10) (by decide) fun d hd =>
    h d (List.mem_reverse.mp hd)
  rwa [← digitsValue_reverse, List.reverse_reverse, List.length_reverse] at hlt

/-- The digits of a number as characters. -/
def digitChars (n : Nat) : List Char := (digitsOf n).map Nat.digitChar

/-- The characters that a number is written with: a minus sign or none, and digits. -/
def signedChars (negative : Bool) (n : Nat) : List Char :=
  if negative then '-' :: digitChars n else digitChars n

/-- No digit is taken for a sign, a separator, a point or a margin. -/
theorem digitChar_ne : ∀ d < 10, d.digitChar ≠ '-' ∧ d.digitChar ≠ '+' ∧ d.digitChar ≠ '_' ∧
    d.digitChar ≠ '.' ∧ isMargin d.digitChar = false := by decide

theorem exists_digitChars_cons (n : Nat) :
    ∃ d cs, d < 10 ∧ digitChars n = d.digitChar :: cs := by
  obtain ⟨d, ds, hds⟩ := List.exists_cons_of_ne_nil (digitsOf_ne_nil n)
  refine ⟨d, ds.map Nat.digitChar, digitsOf_lt n d (hds ▸ .head ds), ?_⟩
  rw [digitChars, hds, List.map_cons]

/-- The digits of a number are read up to where no more follow. -/
theorem digitRun_digitChars {rest : List Char} (hrest : moreDigits rest = ([], rest)) (n : Nat) :
    digitRun (digitChars n ++ rest) = (digitsOf n, rest) := by
  obtain ⟨d, cs, hd, hcs⟩ := exists_digitChars_cons n
  have hrun : digitRun (digitChars n ++ rest) = moreDigits (digitChars n ++ rest) := by
    rw [hcs, List.cons_append]
    unfold digitRun
    split
    · rename_i heq
      exact absurd (List.cons.inj heq).1 (digitChar_ne d hd).2.2.1
    · rfl
  rw [hrun, digitChars, moreDigits_append hrest (digitsOf_lt n)]

/-- The sign that is written is the sign that is read. -/
theorem sign_signedChars (negative : Bool) (n : Nat) (rest : List Char) :
    sign (signedChars negative n ++ rest) = (negative, digitChars n ++ rest) := by
  cases negative with
  | true => rfl
  | false =>
    obtain ⟨d, cs, hd, hcs⟩ := exists_digitChars_cons n
    rw [signedChars, if_neg Bool.false_ne_true, hcs, List.cons_append]
    unfold sign
    split
    · rename_i heq
      exact absurd (List.cons.inj heq).1 (digitChar_ne d hd).1
    · rename_i heq
      exact absurd (List.cons.inj heq).1 (digitChar_ne d hd).2.1
    · rfl

theorem signedChars_ne (negative : Bool) (n : Nat) :
    ∀ c ∈ signedChars negative n, c ≠ '.' ∧ isMargin c = false := by
  have digits : ∀ c ∈ digitChars n, c ≠ '.' ∧ isMargin c = false := fun c hc => by
    obtain ⟨d, hd, rfl⟩ := List.mem_map.mp hc
    exact (digitChar_ne d (digitsOf_lt n d hd)).2.2.2
  cases negative with
  | true => exact List.forall_mem_cons.mpr ⟨by decide, digits⟩
  | false => exact digits

/-- Nothing is trimmed where nothing is to be dropped. -/
theorem trim_of_forall {drop : Char → Bool} {cs : List Char} (h : ∀ c ∈ cs, drop c = false) :
    Text.trim drop cs = cs := by
  have keep {cs : List Char} (h : ∀ c ∈ cs, drop c = false) : cs.dropWhile drop = cs := by
    cases cs with
    | nil => rfl
    | cons c cs => exact List.dropWhile_cons_of_neg (by simp [h c (.head cs)])
  rw [Text.trim, keep h, keep fun c hc => h c (List.mem_reverse.mp hc), List.reverse_reverse]

/-! ### Integers -/

/-- A whole number within the limit is read back from its digits, with its sign. -/
theorem read_signedChars (negative : Bool) {n : Nat} (hn : n < 10 ^ digitLimit) :
    read (String.ofList (signedChars negative n)) =
      .ok (.integer (if negative then -(n : Int) else n)) := by
  have hpoint : '.' ∉ signedChars negative n := fun h => (signedChars_ne negative n _ h).1 rfl
  have htrim : Text.trim isMargin (signedChars negative n) = signedChars negative n :=
    trim_of_forall fun c hc => (signedChars_ne negative n c hc).2
  have hsign := sign_signedChars negative n []
  have hrun := @digitRun_digitChars [] rfl n
  simp only [List.append_nil] at hsign hrun
  have hlength : (digitsOf n).length ≤ digitLimit := (length_digitsOf_le (by decide)).mpr hn
  rw [read, String.toList_ofList, if_neg hpoint, integer, String.toList_ofList, htrim, hsign]
  simp only [hrun, List.head?_nil, reduceCtorEq, if_false, Nat.not_lt_of_le hlength,
    List.isEmpty_iff, digitsOf_ne_nil, List.isEmpty_nil, not_true_eq_false, or_self,
    digitsValue_digitsOf]
  rfl

/-- Every whole number that is read is within the limit, so that it can be written back. -/
theorem natAbs_integer_lt {text : String} {n : Int} (h : integer text = .ok n) :
    n.natAbs < 10 ^ digitLimit := by
  unfold integer at h
  dsimp only at h
  split at h
  · cases h
  split at h
  · cases h
  split at h
  · cases h
  rename_i hlength _
  have hlt := digitsValue_lt (digitRun_lt (sign (Text.trim isMargin text.toList)).2)
  have hle := Nat.pow_le_pow_right (show 0 < 10 by decide) (Nat.le_of_not_lt hlength)
  cases h
  split
  · rw [Int.natAbs_neg]
    exact Nat.lt_of_lt_of_le hlt hle
  · exact Nat.lt_of_lt_of_le hlt hle

end Numeral

/-! ### Doubles -/

namespace Binary64

/-- A quotient without a remainder is not rounded. -/
theorem roundHalfEven_mul (q : Nat) {d : Nat} (hd : 0 < d) : roundHalfEven (q * d) d = q := by
  rw [roundHalfEven, Nat.mul_div_cancel q hd, Nat.mul_mod_left]
  exact if_pos hd

/-- A normal magnitude is its significand, with the hidden bit, shifted by its exponent. -/
theorem units_of_le {rank : Nat} (h : fractions ≤ rank) :
    units rank = (fractions + rank % fractions) * 2 ^ (rank / fractions - 1) := by
  rw [units, if_neg (Nat.not_lt_of_le h), Nat.shiftLeft_eq]

/-- The significand of a normal magnitude takes 53 binary digits, above those of the shift. -/
theorem log2_units {rank : Nat} (h : fractions ≤ rank) :
    (units rank).log2 = 52 + (rank / fractions - 1) := by
  have hmod := Nat.mod_lt rank (show 0 < fractions by decide)
  have hpow := Nat.two_pow_pos (rank / fractions - 1)
  have hfractions : fractions = 2 ^ 52 := rfl
  rw [units_of_le h]
  generalize rank / fractions - 1 = s at *
  have hne := Nat.mul_pos (Nat.add_pos_left (show 0 < fractions by decide) (rank % fractions)) hpow
  rw [Nat.log2_eq_iff (Nat.ne_of_gt hne), Nat.pow_add, Nat.add_right_comm, Nat.pow_add, ← hfractions,
    Nat.pow_succ 2 52, ← hfractions]
  exact ⟨Nat.mul_le_mul_right _ (by omega), Nat.mul_lt_mul_of_pos_right (by omega) hpow⟩

/-- A magnitude is nearest to itself. -/
theorem nearestRank_units (rank : Nat) {d : Nat} (hd : 0 < d) :
    nearestRank (units rank * d) d = rank := by
  rw [nearestRank, Nat.mul_div_cancel _ hd]
  by_cases h : rank < fractions
  · have hlog : rank.log2 - 52 = 0 := by
      rcases Nat.eq_zero_or_pos rank with rfl | hpos
      · rfl
      · have := (Nat.log2_lt (Nat.ne_of_gt hpos)).mpr (show rank < 2 ^ 52 from h)
        omega
    rw [units_of_lt (by omega), hlog, Nat.shiftLeft_zero, roundHalfEven_mul _ hd]
    omega
  · have hle := Nat.le_of_not_lt h
    have hdiv := Nat.div_pos hle (show 0 < fractions by decide)
    have hmod := Nat.div_add_mod rank fractions
    rw [log2_units hle, units_of_le hle, Nat.add_sub_cancel_left, Nat.shiftLeft_eq, Nat.mul_assoc,
      Nat.mul_comm _ d, roundHalfEven_mul _ (Nat.mul_pos hd (Nat.two_pow_pos _)), Nat.sub_mul,
      Nat.mul_comm (rank / fractions)]
    have hone : fractions ≤ fractions * (rank / fractions) := Nat.le_mul_of_pos_right _ hdiv
    omega

/-- Digits are read as a number or an infinity. -/
theorem ofDecimal_ne_nan (negative : Bool) (digits : List Nat) (exponent : Int) :
    ofDecimal negative digits exponent ≠ nan := by
  rw [ofDecimal]
  split
  · exact nofun
  split
  · exact nofun
  · rw [ofRatio]
    split <;> exact nofun

/-- The units of a finite magnitude take 53 binary digits, shifted by 2045 at most. -/
theorem units_lt {rank : Nat} (h : rank < ranks) : units rank < 2 ^ (53 + 2045) := by
  by_cases hle : fractions ≤ rank
  · have hmod := Nat.mod_lt rank (show 0 < fractions by decide)
    have hdiv : rank / fractions < 2047 := (Nat.div_lt_iff_lt_mul (by decide)).mpr h
    have hshift (k : Nat) (hk : rank / fractions - 1 ≤ k) : units rank < 2 ^ (53 + k) := by
      rw [units_of_le hle, Nat.pow_add]
      exact Nat.mul_lt_mul_of_lt_of_le (show _ < 2 * fractions by omega)
        (Nat.pow_le_pow_right (by decide) hk) (Nat.two_pow_pos _)
    exact hshift 2045 (by omega)
  · rw [units_of_lt (by omega)]
    exact Nat.lt_trans (Nat.lt_of_not_le hle) (by decide +kernel)

/-- A rank above zero is a magnitude above zero. -/
theorem units_pos {rank : Nat} (h : 0 < rank) : 0 < units rank := by
  by_cases hle : fractions ≤ rank
  · rw [units_of_le hle]
    exact Nat.mul_pos (Nat.add_pos_left (by decide) _) (Nat.two_pow_pos _)
  · rwa [units_of_lt (by omega)]

/-- A magnitude as a whole count of 10⁻¹⁰⁷⁴. -/
def decimalUnits (rank : Nat) : Nat := units rank * 5 ^ 1074

/-- A rank above zero makes a count above zero. -/
theorem decimalUnits_pos {rank : Nat} (h : 0 < rank) : 0 < decimalUnits rank := by
  have hpow (k : Nat) : 0 < 5 ^ k := Nat.pow_pos (by decide)
  exact Nat.mul_pos (units_pos h) (hpow _)

/-- The units of 2⁻¹⁰⁷⁴ are units of 10⁻¹⁰⁷⁴ times 5¹⁰⁷⁴. -/
theorem decimalUnits_mul_one (rank : Nat) :
    decimalUnits rank * one = units rank * 10 ^ 1074 := by
  have hpow (n k : Nat) : n * 5 ^ k * 1 <<< k = n * 10 ^ k := by
    rw [Nat.one_shiftLeft, Nat.mul_assoc, ← Nat.mul_pow]
  exact hpow (units rank) 1074

/-- No magnitude above zero has so few or so many digits that its value is not looked at. -/
theorem length_digitsOf_decimalUnits {rank : Nat} (h : rank < ranks) (hpos : 0 < rank) :
    743 < (digitsOf (decimalUnits rank)).length ∧
      (digitsOf (decimalUnits rank)).length ≤ 1384 := by
  have hlower : 10 ^ 743 ≤ 5 ^ 1074 := by decide +kernel
  have hupper : 2 ^ (53 + 2045) * 5 ^ 1074 ≤ 10 ^ 1384 := by decide +kernel
  constructor
  · rw [← Nat.not_le, length_digitsOf_le (by decide), Nat.not_lt]
    exact Nat.le_trans hlower (Nat.le_mul_of_pos_left _ (units_pos hpos))
  · rw [length_digitsOf_le (by decide)]
    have hpow (k : Nat) : 0 < 5 ^ k := Nat.pow_pos (by decide)
    exact Nat.lt_of_lt_of_le (Nat.mul_lt_mul_of_pos_right (units_lt h) (hpow _)) hupper

theorem dropWhile_digitsOf {n : Nat} (hn : n ≠ 0) :
    (digitsOf n).dropWhile (· == 0) = digitsOf n := by
  have hne := List.reverse_ne_nil_iff.mpr (Nat.digits_ne_nil_iff_ne_zero (b := 10) |>.mpr hn)
  obtain ⟨d, ds, hds⟩ := List.exists_cons_of_ne_nil hne
  have hhead := Nat.getLast_digit_ne_zero 10 hn
  rw [← List.head_reverse hne] at hhead
  simp only [hds, List.head_cons] at hhead
  rw [digitsOf, if_neg hn, hds]
  exact List.dropWhile_cons_of_neg (by simpa using hhead)

/-- A double is nearest to the ratio that it is itself. -/
theorem ofRatio_decimalUnits (negative : Bool) (rank : Fin ranks) :
    ofRatio negative (decimalUnits rank) (10 ^ 1074) = finite negative rank := by
  have hrank : nearestRank (decimalUnits rank * one) (10 ^ 1074) = rank := by
    rw [decimalUnits_mul_one, nearestRank_units _ (Nat.pow_pos (by decide))]
  rw [ofRatio, hrank]
  exact dif_pos rank.isLt

/-- A double is read back from all its decimal digits. -/
theorem ofDecimal_decimalUnits (negative : Bool) (rank : Fin ranks) :
    ofDecimal negative (digitsOf (decimalUnits rank)) (-1074) = finite negative rank := by
  rcases Nat.eq_zero_or_pos rank with hzero | hpos
  · obtain rfl : rank = ⟨0, by decide⟩ := Fin.ext hzero
    rw [decimalUnits, show units 0 = 0 by rfl, Nat.zero_mul]
    rfl
  · have hne : decimalUnits rank ≠ 0 := Nat.ne_of_gt (decimalUnits_pos hpos)
    obtain ⟨hlower, hupper⟩ := length_digitsOf_decimalUnits rank.isLt hpos
    rw [ofDecimal, dropWhile_digitsOf hne]
    have hsmall : ¬ ((digitsOf (decimalUnits rank)).isEmpty = true ∨
        ((digitsOf (decimalUnits rank)).length : Int) + -1074 < -330) := by
      rw [List.isEmpty_iff]
      exact not_or.mpr ⟨digitsOf_ne_nil _, by omega⟩
    have hlarge : ¬ ((digitsOf (decimalUnits rank)).length : Int) + -1074 > 310 := by omega
    have hpower (n : Nat) : tenPower n = 10 ^ n := rfl
    rw [if_neg hsmall, if_neg hlarge, digitsValue_digitsOf, show tenPower (-1074) = 1 by rfl,
      Nat.mul_one]
    exact (congrArg _ (hpower 1074)).trans (ofRatio_decimalUnits negative rank)

end Binary64

namespace Numeral

/-- The end of the text of a magnitude: a point and the exponent of 10⁻¹⁰⁷⁴. -/
def unitChars : List Char := ['.', 'e', '-', '1', '0', '7', '4']

/-- The digits of a double are read with the exponent that they are written with. -/
theorem read_float (negative : Bool) (n : Nat) :
    read (String.ofList (signedChars negative n ++ unitChars)) =
      .ok (.float (ofDecimal negative (digitsOf n) (-1074))) := by
  have hpoint : '.' ∈ signedChars negative n ++ unitChars :=
    List.mem_append_right _ (.head _)
  have hunit : unitChars.all (fun c => !isMargin c) = true := rfl
  have htrim : Text.trim isMargin (signedChars negative n ++ unitChars) =
      signedChars negative n ++ unitChars := by
    refine trim_of_forall fun c hc => ?_
    rcases List.mem_append.mp hc with hc | hc
    · exact (signedChars_ne negative n c hc).2
    · exact Bool.not_eq_true' _ ▸ List.all_eq_true.mp hunit c hc
  have hdecimal : decimal? (digitChars n ++ unitChars) = some (digitsOf n, -1074) := by
    have hpart : digitRun ['e', '-', '1', '0', '7', '4'] = ([], ['e', '-', '1', '0', '7', '4']) := by
      rfl
    have hexponent : exponent? ['e', '-', '1', '0', '7', '4'] = some (-1074) := by rfl
    rw [decimal?, digitRun_digitChars (by rfl)]
    simp only [unitChars, hpart, hexponent, List.isEmpty_iff, digitsOf_ne_nil, false_and, if_false,
      Option.map_some, List.append_nil, List.length_nil, Int.ofNat_zero, Int.sub_zero]
  rw [read, String.toList_ofList, if_pos hpoint, float, String.toList_ofList, htrim,
    sign_signedChars]
  simp only [hdecimal, Except.map]

/-- No text is read as a float that is not a number. -/
theorem float_ne_nan {text : String} {x : Binary64} (h : float text = .ok x) : x ≠ .nan := by
  unfold float at h
  dsimp only at h
  split at h
  · cases h
    exact ofDecimal_ne_nan _ _ _
  · cases h

/-- An infinity is read from a text whose exponent is too great for a double. -/
theorem read_infinite (negative : Bool) :
    read (if negative then "-1.e999" else "1.e999") = .ok (.float (.infinite negative)) := by
  cases negative <;> rfl

end Numeral

/-- **Some numeral stands for every readable number, and for no other.** -/
theorem Number.readable_iff_exists_numeral {v : Number} :
    v.Readable ↔ ∃ text, Numeral.read text = .ok v := by
  constructor
  · intro h
    cases v with
    | integer n =>
      rcases Int.natAbs_eq n with hn | hn
      · exact ⟨_, (read_signedChars false h).trans (by rw [if_neg Bool.false_ne_true, ← hn])⟩
      · exact ⟨_, (read_signedChars true h).trans (by rw [if_pos rfl, ← hn])⟩
    | float x =>
      cases x with
      | finite negative rank =>
        exact ⟨_, (read_float negative (decimalUnits rank)).trans
          (by rw [ofDecimal_decimalUnits])⟩
      | infinite negative => exact ⟨_, read_infinite negative⟩
      -- what is not a number is not readable
      | nan => exact absurd rfl h
  · rintro ⟨text, h⟩
    unfold Numeral.read at h
    split at h
    · cases hx : Numeral.float text with
      | error e => rw [hx] at h; cases h
      | ok x =>
        rw [hx] at h
        cases h
        exact float_ne_nan hx
    · cases hn : Numeral.integer text with
      | error e => rw [hn] at h; cases h
      | ok n =>
        rw [hn] at h
        cases h
        exact natAbs_integer_lt hn

end Stencil
