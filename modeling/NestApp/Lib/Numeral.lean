import Mathlib.Data.List.TakeWhile
import NestApp.Lib.Number

/-!
# `Lib.Numeral` — the numbers that texts write in JavaScript

`parseInt(text, 10)` reads a run of digits and stops; `parseFloat` reads the longest decimal literal,
with fraction and exponent. Both skip leading blanks and ignore what is behind. A number writes itself
in such a way that `parseFloat` reads it back (`NumberText`).

`Decimal.parseInt_eq_iff`: of a literal that writes an integer, `parseInt` reads the same integer iff
there is a digit before the point and the exponent is zero, or the integer is.
-/

namespace Js

/-- White space and line terminators. -/
def isBlank (c : Char) : Bool :=
  c.val ∈ [9, 10, 11, 12, 13, 32, 0xA0, 0x1680, 0x2028, 0x2029, 0x202F, 0x205F, 0x3000, 0xFEFF] ||
    (0x2000 ≤ c.val && c.val ≤ 0x200A)

/-- The number that a run of digits writes. -/
def ofDigits (digits : List Char) : Nat := Nat.ofDigitChars 10 digits 0

/-- Is there a minus sign, and what is behind the sign? -/
def splitSign : List Char → Bool × List Char
  | '-' :: cs => (true, cs)
  | '+' :: cs => (false, cs)
  | cs        => (false, cs)

def signed (negative : Bool) (x : ℚ) : ℚ := if negative then -x else x

/-- `parseInt(text, 10)`: blanks, a sign, and the digits up to the first other character. Without digits
    it is NaN. -/
def parseInt (text : List Char) : Number :=
  let (negative, cs) := splitSign (text.dropWhile isBlank)
  let digits := cs.takeWhile Char.isDigit
  if digits = [] then .nan else .ofRat (signed negative (ofDigits digits))

/-! ## Decimal literals

The grammar of `StrDecimalLiteral`, without `Infinity`. The longest literal at the start of a text
counts: an exponent without digits is no exponent, and a point without digits on either side is no
point. -/

/-- A decimal literal: sign, digits before and behind the point, exponent. -/
structure Decimal where
  negative : Bool
  whole    : List Char
  fraction : List Char
  exponent : ℤ
deriving DecidableEq

/-- The exponent part, if there is one, and what is behind it. -/
def exponentPart : List Char → ℤ × List Char
  | []      => (0, [])
  | c :: cs =>
      let (negative, rest) := splitSign cs
      let digits := rest.takeWhile Char.isDigit
      if (c = 'e' ∨ c = 'E') ∧ digits ≠ [] then
        (if negative then -ofDigits digits else ofDigits digits, rest.dropWhile Char.isDigit)
      else (0, c :: cs)

/-- The digits behind a point, if there is one, and what is behind them. -/
def fractionPart : List Char → List Char × List Char
  | '.' :: cs => (cs.takeWhile Char.isDigit, cs.dropWhile Char.isDigit)
  | cs        => ([], cs)

/-- The longest decimal literal at the start of the text, and what is behind it. -/
def decimal (text : List Char) : Option (Decimal × List Char) :=
  let (negative, cs)   := splitSign text
  let whole            := cs.takeWhile Char.isDigit
  let (fraction, rest) := fractionPart (cs.dropWhile Char.isDigit)
  if whole = [] ∧ fraction = [] then none
  else
    let (exponent, rest) := exponentPart rest
    some (⟨negative, whole, fraction, exponent⟩, rest)

namespace Decimal

def magnitude (d : Decimal) : ℚ :=
  ofDigits (d.whole ++ d.fraction) * (10 : ℚ) ^ (d.exponent - d.fraction.length)

/-- The exact value. -/
def value (d : Decimal) : ℚ := signed d.negative d.magnitude

end Decimal

/-- `parseFloat(text)`: blanks, and the longest literal behind them. Without one it is NaN. -/
def parseFloat (text : List Char) : Number :=
  let text := text.dropWhile isBlank
  let (negative, cs) := splitSign text
  if "Infinity".toList.isPrefixOf cs then if negative then .negInfinity else .infinity
  else match decimal text with
    | some (d, _) => .ofRat d.value
    | none        => .nan

variable {text rest digits : List Char} {d : Decimal}

/-! ## Digits

A run of digits is read by both functions as the number it writes, whatever is behind it that is no
digit. These lemmas are what the round trips below go through. -/

theorem ofDigits_append (digits digits' : List Char) :
    ofDigits (digits ++ digits') = 10 ^ digits'.length * ofDigits digits + ofDigits digits' := by
  unfold ofDigits
  rw [Nat.ofDigitChars_append, Nat.ofDigitChars_eq_ofDigitChars_zero]

theorem ofDigits_lt (h : ∀ c ∈ digits, c.isDigit = true) : ofDigits digits < 10 ^ digits.length := by
  induction digits with
  | nil => decide
  | cons c cs ih =>
      have hrest := ih fun c' hc' => h c' (List.mem_cons_of_mem c hc')
      have hc : c.toNat - '0'.toNat ≤ 9 := by
        have hdigit := h c List.mem_cons_self
        rw [Char.isDigit, Bool.and_eq_true, decide_eq_true_eq, decide_eq_true_eq] at hdigit
        have hle : c.toNat ≤ 57 := hdigit.2
        have hzero : '0'.toNat = 48 := rfl
        omega
      have hcons : ofDigits (c :: cs) = 10 ^ cs.length * (c.toNat - '0'.toNat) + ofDigits cs := by
        unfold ofDigits
        rw [Nat.ofDigitChars_cons, Nat.ofDigitChars_eq_ofDigitChars_zero, Nat.mul_zero, Nat.zero_add]
      rw [hcons, List.length_cons, pow_succ]
      have hmul := Nat.mul_le_mul_left (10 ^ cs.length) hc
      omega

/-- A digit is no blank, sign or point. -/
theorem digit_cases {c : Char} (h : c.isDigit = true) : isBlank c = false ∧ c ≠ '-' ∧ c ≠ '+' := by
  refine ⟨?_, ?_, ?_⟩
  · rw [Char.isDigit, Bool.and_eq_true, decide_eq_true_eq, decide_eq_true_eq] at h
    have hzero : '0'.val.toNat = 48 := rfl
    have hnine : '9'.val.toNat = 57 := rfl
    rw [ge_iff_le, UInt32.le_iff_toNat_le, UInt32.le_iff_toNat_le] at h
    simp only [isBlank, List.mem_cons, List.not_mem_nil, or_false, ← UInt32.toNat_inj,
      UInt32.le_iff_toNat_le, UInt32.reduceToNat,
      Bool.or_eq_false_iff, decide_eq_false_iff_not, Bool.and_eq_false_iff]
    omega
  · rintro rfl
    exact absurd h (by decide)
  · rintro rfl
    exact absurd h (by decide)

/-- There is nothing in front of a run of digits. -/
theorem digits_start (hne : digits ≠ []) (h : ∀ c ∈ digits, c.isDigit = true) (rest : List Char) :
    (digits ++ rest).dropWhile isBlank = digits ++ rest ∧ splitSign
    (digits ++ rest) = (false, digits ++ rest) := by
  cases digits with
  | nil => exact absurd rfl hne
  | cons c cs =>
      obtain ⟨hblank, hminus, hplus⟩ := digit_cases (h c List.mem_cons_self)
      rw [List.cons_append]
      refine ⟨List.dropWhile_cons_of_neg (by rw [hblank]; exact Bool.false_ne_true), ?_⟩
      unfold splitSign
      split
      · simp_all
      · simp_all
      · rfl

/-- `parseInt` of a run of digits. -/
theorem parseInt_digits (hne : digits ≠ []) (h : ∀ c ∈ digits, c.isDigit = true) :
    parseInt digits = .ofRat (ofDigits digits) := by
  obtain ⟨hblank, hsign⟩ := digits_start hne h []
  rw [List.append_nil] at hblank hsign
  unfold parseInt
  rw [hblank, hsign]
  simp only [List.takeWhile_eq_self_iff.mpr h, if_neg hne]
  rfl

/-- `parseFloat` of a run of digits. -/
theorem parseFloat_digits (hne : digits ≠ []) (h : ∀ c ∈ digits, c.isDigit = true) :
    parseFloat digits = .ofRat (ofDigits digits) := by
  obtain ⟨hblank, hsign⟩ := digits_start hne h []
  rw [List.append_nil] at hblank hsign
  have hdecimal : decimal digits = some (⟨false, digits, [], 0⟩, []) := by
    have hrest : digits.dropWhile Char.isDigit = [] := List.dropWhile_eq_nil_iff.mpr h
    unfold decimal
    rw [hsign]
    simp only [List.takeWhile_eq_self_iff.mpr h, hrest, fractionPart, exponentPart, hne,
      false_and, if_false]
  have hinfinity : "Infinity".toList.isPrefixOf digits = false := by
    rw [Bool.eq_false_iff]
    intro hprefix
    obtain ⟨rest, rfl⟩ := List.isPrefixOf_iff_prefix.mp hprefix
    exact absurd (h 'I' (by simp)) (by decide)
  simp only [parseFloat, hblank, hsign, hinfinity, hdecimal, Bool.false_eq_true, if_false,
    Decimal.value, Decimal.magnitude,
    signed, List.append_nil, List.length_nil]
  norm_num

/-- Digits, and an exponent below zero. -/
def scientific (negative : Bool) (digits exponent : List Char) : List Char :=
  (if negative then ['-'] else []) ++ (digits ++ 'e' :: '-' :: exponent)

section Scientific

variable {exponent : List Char}

theorem scientific_start (hne : digits ≠ []) (h : ∀ c ∈ digits, c.isDigit = true) (negative : Bool) :
    (scientific negative digits exponent).dropWhile isBlank = scientific negative digits exponent ∧
      splitSign (scientific negative digits exponent) =
        (negative, digits ++ 'e' :: '-' :: exponent) := by
  cases negative with
  | true  => exact ⟨List.dropWhile_cons_of_neg (by decide), rfl⟩
  | false => exact digits_start hne h _

theorem decimal_scientific (hne : digits ≠ []) (h : ∀ c ∈ digits, c.isDigit = true)
    (hne' : exponent ≠ [])
    (h' : ∀ c ∈ exponent, c.isDigit = true) (negative : Bool) :
    decimal (scientific negative digits exponent) =
      some (⟨negative, digits, [], -ofDigits exponent⟩, []) := by
  have hstop : ¬ 'e'.isDigit = true := by decide
  have hwhole : (digits ++ 'e' :: '-' :: exponent).takeWhile Char.isDigit = digits := by
    rw [List.takeWhile_append_of_pos h, List.takeWhile_cons_of_neg hstop, List.append_nil]
  have hrest : (digits ++ 'e' :: '-' :: exponent).dropWhile Char.isDigit = 'e' :: '-' :: exponent := by
    rw [List.dropWhile_append_of_pos h, List.dropWhile_cons_of_neg hstop]
  have hexponent : exponentPart ('e' :: '-' :: exponent) = (-(ofDigits exponent : ℤ), []) := by
    simp only [exponentPart, splitSign, List.takeWhile_eq_self_iff.mpr h',
      List.dropWhile_eq_nil_iff.mpr h', true_or, true_and,
      ne_eq, hne', not_false_eq_true, if_true]
  have hfraction : fractionPart ('e' :: '-' :: exponent) = ([], 'e' :: '-' :: exponent) := rfl
  unfold decimal
  rw [(scientific_start hne h negative).2]
  simp only [hwhole, hrest, hfraction, hexponent, hne, false_and, if_false]

theorem parseFloat_scientific (hne : digits ≠ []) (h : ∀ c ∈ digits, c.isDigit = true)
    (hne' : exponent ≠ [])
    (h' : ∀ c ∈ exponent, c.isDigit = true) (negative : Bool) :
    parseFloat (scientific negative digits exponent) =
      .ofRat (signed negative (ofDigits digits * 10 ^ (-(ofDigits exponent : ℤ)))) := by
  obtain ⟨hblank, hsign⟩ : _ ∧ splitSign (scientific negative digits exponent) = _ :=
    scientific_start hne h negative
  have hinfinity : "Infinity".toList.isPrefixOf (digits ++ 'e' :: '-' :: exponent) = false := by
    cases digits with
    | nil => exact absurd rfl hne
    | cons c cs =>
        rw [Bool.eq_false_iff]
        intro hprefix
        obtain ⟨rest, hrest⟩ := List.isPrefixOf_iff_prefix.mp hprefix
        have hc : 'I' = c := (List.cons.inj hrest).1
        rw [← hc] at h
        exact absurd (h 'I' List.mem_cons_self) (by decide)
  simp only [parseFloat, hblank, hsign, hinfinity, decimal_scientific hne h hne' h',
    Bool.false_eq_true, if_false, Decimal.value,
    Decimal.magnitude, List.append_nil, List.length_nil, Nat.cast_zero, sub_zero]

end Scientific

/-! ## The text of a number

What `String(x)` writes is not fixed by a formula here; it is any text that reads back as the number.
That there is such a text for every double is shown by writing out all its digits. -/

/-- What `String(x)` writes for a finite number: the digits of a natural number below `2 ^ 53`, and
    always something that `parseFloat` reads as this number. -/
structure NumberText where
  text    : ℚ → List Char
  natural : ∀ n : ℕ, n < 2 ^ 53 → text n = Nat.toDigits 10 n
  reads   : ∀ x : ℚ, |nearest x| < 2 ^ 1024 → parseFloat (text (nearest x)) = .finite (nearest x)

/-- The digits of a natural number are read as the number. -/
theorem parse_toDigits (n : ℕ) :
    parseInt (Nat.toDigits 10 n) = .ofRat n ∧ parseFloat (Nat.toDigits 10 n) = .ofRat n := by
  have hne : Nat.toDigits 10 n ≠ [] := Nat.toDigits_ne_nil
  have hdigits : ∀ c ∈ Nat.toDigits 10 n, c.isDigit = true := fun c hc =>
    Nat.isDigit_of_mem_toDigits (by decide) (by decide) hc
  have hvalue : ofDigits (Nat.toDigits 10 n) = n := Nat.ofDigitChars_ten_toDigits
  rw [parseInt_digits hne hdigits, parseFloat_digits hne hdigits, hvalue]
  exact ⟨rfl, rfl⟩

/-- The exponent of the smallest double. -/
def lastExponent : ℕ := 1074

/-- A text with all digits of a double. -/
def exactText (y : ℚ) : List Char :=
  if 0 ≤ y ∧ y.den = 1 then Nat.toDigits 10 y.num.toNat
  else scientific (y < 0) (Nat.toDigits 10 (|y| * 10 ^ lastExponent).num.toNat)
    (Nat.toDigits 10 lastExponent)

/-- A double is a multiple of the smallest one. -/
theorem exists_natCast_eq (x : ℚ) : ∃ n : ℕ, |nearest x| * 10 ^ lastExponent = n := by
  have hexp : 0 ≤ exponent x + lastExponent := by
    unfold exponent lastExponent
    omega
  obtain ⟨k, hk⟩ := Int.eq_ofNat_of_zero_le hexp
  have hpow : (2 : ℚ) ^ exponent x * 10 ^ lastExponent = ((2 ^ k * 5 ^ lastExponent : ℕ) : ℚ) := by
    have hten : (10 : ℚ) ^ lastExponent = 2 ^ lastExponent * 5 ^ lastExponent := by
      rw [← mul_pow]; norm_num
    have htwo : (2 : ℚ) ^ exponent x * 2 ^ lastExponent = 2 ^ k := by
      rw [← zpow_natCast, ← zpow_natCast, ← zpow_add₀ (by norm_num), hk]
    rw [hten, ← mul_assoc, htwo]
    push_cast
    rfl
  have hunit : (0 : ℚ) < 2 ^ exponent x := zpow_pos two_pos _
  refine ⟨(roundEven (x / 2 ^ exponent x)).natAbs * (2 ^ k * 5 ^ lastExponent), ?_⟩
  rw [nearest, abs_mul, abs_of_pos hunit, mul_assoc, hpow, Nat.cast_mul _ (2 ^ k * 5 ^ lastExponent),
    Nat.cast_natAbs, Int.cast_abs]

/-- **There is a text for each number.** -/
def exactNumberText : NumberText where
  text := exactText
  natural n _ := by
    have hnonneg : 0 ≤ (n : ℚ) := Nat.cast_nonneg n
    rw [exactText, if_pos ⟨hnonneg, Rat.den_natCast n⟩, Rat.num_natCast, Int.toNat_natCast]
  reads x hsize := by
    have hread : Number.ofRat (nearest x) = .finite (nearest x) := by
      rw [Number.ofRat, nearest_nearest, if_pos hsize]
    have hdigits : ∀ n, ∀ c ∈ Nat.toDigits 10 n, c.isDigit = true := fun n c hc =>
      Nat.isDigit_of_mem_toDigits (by decide) (by decide) hc
    obtain ⟨n, hn⟩ := exists_natCast_eq x
    unfold exactText
    split_ifs with hnatural
    · have hvalue : ((nearest x).num.toNat : ℚ) = nearest x := by
        have hnum : ((nearest x).num.toNat : ℤ) = (nearest x).num :=
          Int.toNat_of_nonneg (Rat.num_nonneg.mpr hnatural.1)
        calc ((nearest x).num.toNat : ℚ) = (((nearest x).num.toNat : ℤ) : ℚ) := (Int.cast_natCast _).symm
          _ = ((nearest x).num : ℚ) := by rw [hnum]
          _ = nearest x := Rat.coe_int_num_of_den_eq_one hnatural.2
      rw [(parse_toDigits _).2, hvalue, hread]
    · rw [hn, Rat.num_natCast, Int.toNat_natCast,
        parseFloat_scientific Nat.toDigits_ne_nil (hdigits n) Nat.toDigits_ne_nil (hdigits lastExponent),
          ofDigits, ofDigits,
        Nat.ofDigitChars_ten_toDigits, Nat.ofDigitChars_ten_toDigits, ← hn, zpow_neg, zpow_natCast,
        mul_inv_cancel_right₀ (by positivity), ← hread]
      congr 1
      rw [signed]
      by_cases hneg : nearest x < 0
      · rw [decide_eq_true hneg, if_pos rfl, abs_of_neg hneg, neg_neg]
      · rw [decide_eq_false hneg, if_neg Bool.false_ne_true, abs_of_nonneg (not_lt.mp hneg)]

/-! ## The digits before the point

`parseInt` stops at the point or at the `e`, so it reads the whole part of the literal. The exponent is
what makes the difference: `3e5` is read as 3. -/

/-- What `parseInt` reads of a literal, and what is in its fraction. -/
theorem decimal_spec (h : decimal text = some (d, rest)) :
    splitSign text = (d.negative, (splitSign text).2) ∧
      d.whole = (splitSign text).2.takeWhile Char.isDigit ∧
      ∀ c ∈ d.fraction, c.isDigit = true := by
  have hfraction : ∀ cs, ∀ c ∈ (fractionPart cs).1, c.isDigit = true := by
    intro cs c hc
    unfold fractionPart at hc
    split at hc
    · exact List.mem_takeWhile_imp hc
    · exact absurd hc List.not_mem_nil
  unfold decimal at h
  simp only at h
  split_ifs at h
  obtain ⟨rfl, -⟩ := Prod.mk.inj (Option.some.inj h)
  exact ⟨rfl, rfl, hfraction _⟩

namespace Decimal

/-- The value before the exponent lies between the whole part and the next integer. -/
theorem whole_le_magnitude (d : Decimal) : (ofDigits d.whole : ℚ) * 10 ^ d.exponent ≤ d.magnitude := by
  have hten : (0 : ℚ) < 10 ^ d.exponent := zpow_pos (by norm_num) _
  have hscale : (0 : ℚ) < 10 ^ d.fraction.length := by positivity
  unfold magnitude
  rw [ofDigits_append, zpow_sub₀ (by norm_num), zpow_natCast, mul_div_assoc', le_div_iff₀ hscale]
  push_cast
  nlinarith [(Nat.cast_nonneg _ : (0 : ℚ) ≤ (ofDigits d.fraction : ℚ))]

theorem magnitude_lt (hd : ∀ c ∈ d.fraction, c.isDigit = true) :
    d.magnitude < (ofDigits d.whole + 1 : ℚ) * 10 ^ d.exponent := by
  have hten : (0 : ℚ) < 10 ^ d.exponent := zpow_pos (by norm_num) _
  have hscale : (0 : ℚ) < 10 ^ d.fraction.length := by positivity
  have hlt : (ofDigits d.fraction : ℚ) < 10 ^ d.fraction.length := by exact_mod_cast ofDigits_lt hd
  unfold magnitude
  rw [ofDigits_append, zpow_sub₀ (by norm_num), zpow_natCast, mul_div_assoc', div_lt_iff₀ hscale]
  push_cast
  nlinarith

/-- **The digits before the point** write the integer that the literal writes iff the exponent or the
    integer is zero. -/
theorem whole_eq_iff (hd : ∀ c ∈ d.fraction, c.isDigit = true) {m : ℕ} (hm : d.magnitude = m) :
    ofDigits d.whole = m ↔ d.exponent = 0 ∨ m = 0 := by
  have hle := d.whole_le_magnitude
  have hlt := magnitude_lt hd
  rw [hm] at hle hlt
  have hten : (0 : ℚ) < 10 ^ d.exponent := zpow_pos (by norm_num) _
  constructor
  · intro hw
    rw [hw] at hle hlt
    by_contra hne
    rw [not_or] at hne
    have hpos : (0 : ℚ) < m := by exact_mod_cast Nat.pos_of_ne_zero hne.2
    rcases lt_or_gt_of_ne hne.1 with he | he
    · -- a negative exponent makes the value smaller
      have htenth : (10 : ℚ) ^ d.exponent ≤ 10 ^ (-1 : ℤ) := zpow_le_zpow_right₀ (by norm_num) (by omega)
      have hbound : (m : ℚ) < (m + 1) * 10 ^ (-1 : ℤ) :=
        hlt.trans_le (mul_le_mul_of_nonneg_left htenth (by positivity))
      have hone : (1 : ℚ) ≤ m := by exact_mod_cast Nat.pos_of_ne_zero hne.2
      norm_num at hbound
      linarith
    · -- a positive exponent makes it larger
      have htimes : (10 : ℚ) ^ (1 : ℤ) ≤ 10 ^ d.exponent := zpow_le_zpow_right₀ (by norm_num) (by omega)
      have hbound : (m : ℚ) * 10 ^ (1 : ℤ) ≤ m := (mul_le_mul_of_nonneg_left htimes hpos.le).trans hle
      norm_num at hbound
      linarith
  · rintro (he | rfl)
    · rw [he, zpow_zero, mul_one] at hle hlt
      have hle' : ofDigits d.whole ≤ m := by exact_mod_cast hle
      have hlt' : m < ofDigits d.whole + 1 := by exact_mod_cast hlt
      omega
    · by_contra hne
      have hpos : (0 : ℚ) < ofDigits d.whole := by exact_mod_cast Nat.pos_of_ne_zero hne
      have hprod := mul_pos hpos hten
      push_cast at hle
      linarith

end Decimal

/-! ## Reading a literal

The two readings side by side, for a text that begins with a literal. -/

theorem Number.ofRat_natCast_eq_iff {k m : ℕ} (hm : m < 2 ^ 53) :
    Number.ofRat k = Number.ofRat m ↔ k = m := by
  constructor
  · intro h
    have hfinite : Number.ofRat m = .finite m := by
      exact_mod_cast Number.ofRat_intCast (n := m) (by rw [Nat.abs_cast]; exact_mod_cast hm.le)
    rw [hfinite, Number.ofRat] at h
    split_ifs at h with hsize
    have hnearest : nearest (k : ℚ) = m := by simpa using h
    rcases lt_trichotomy k m with hlt | heq | hgt
    · have hexact := nearest_intCast (n := k) (by rw [Nat.abs_cast]; exact_mod_cast (hlt.trans hm).le)
      rw [Int.cast_natCast, hnearest] at hexact
      exact_mod_cast hexact.symm
    · exact heq
    · -- the next integer is a double
      have hnext := le_nearest (n := (m : ℤ) + 1) (x := k)
        (by rw [abs_of_nonneg (by omega)]; exact_mod_cast hm)
        (by exact_mod_cast hgt)
      rw [hnearest] at hnext
      push_cast at hnext
      linarith
  · rintro rfl
    rfl

/-- The opposite of a natural number is read as zero for zero only. -/
theorem Number.ofRat_neg_eq_iff {k : ℕ} : Number.ofRat (-k) = Number.ofRat (0 : ℕ) ↔ k = 0 := by
  constructor
  · intro h
    have hfinite : Number.ofRat (0 : ℕ) = .finite 0 := by
      exact_mod_cast Number.ofRat_intCast (n := 0) (by norm_num)
    rw [hfinite, Number.ofRat, nearest_neg] at h
    split_ifs at h
    have hnearest : nearest (k : ℚ) = 0 := by simpa using h
    by_contra hne
    have hone := le_nearest (n := 1) (x := k) (by norm_num) (by exact_mod_cast Nat.pos_of_ne_zero hne)
    rw [hnearest] at hone
    norm_num at hone
  · rintro rfl
    simp

theorem Number.ofRat_ne_nan (x : ℚ) : Number.ofRat x ≠ .nan := by
  unfold Number.ofRat
  split_ifs <;> simp

/-- A text that starts with a literal is read as its value. -/
theorem parseFloat_of_decimal (h : decimal (text.dropWhile isBlank) = some (d, rest)) :
    parseFloat text = .ofRat d.value := by
  rcases hsign : splitSign (text.dropWhile isBlank) with ⟨negative, cs⟩
  have hinfinity : "Infinity".toList.isPrefixOf cs = false := by
    rw [Bool.eq_false_iff]
    intro hprefix
    obtain ⟨rest', rfl⟩ := List.isPrefixOf_iff_prefix.mp hprefix
    -- a literal does not start with a letter
    have hnone : decimal (text.dropWhile isBlank) = none := by
      unfold decimal
      rw [hsign]
      rfl
    rw [hnone] at h
    cases h
  simp only [parseFloat, hsign, hinfinity, h, Bool.false_eq_true, if_false]

/-- **`parseInt` of a literal** that writes a natural number. -/
theorem parseInt_eq_iff (h : decimal (text.dropWhile isBlank) = some (d, rest)) {m : ℕ}
    (hm : d.value = m) (hsafe : m < 2 ^ 53) :
    parseInt text = .ofRat m ↔ d.whole ≠ [] ∧ (d.exponent = 0 ∨ m = 0) := by
  obtain ⟨hsign, hwhole, hfraction⟩ := decimal_spec h
  -- a minus sign is there for zero only
  have hmagnitude : d.magnitude = m ∧ (d.negative = true → m = 0) := by
    have hnonneg : 0 ≤ d.magnitude := mul_nonneg (Nat.cast_nonneg _) (zpow_nonneg (by norm_num) _)
    have hcast : (0 : ℚ) ≤ m := Nat.cast_nonneg m
    unfold Decimal.value signed at hm
    split_ifs at hm with hneg
    · have hzero : (m : ℚ) = 0 := by linarith
      exact ⟨by linarith, fun _ => by exact_mod_cast hzero⟩
    · exact ⟨hm, fun h => absurd h hneg⟩
  have hread : parseInt text = if d.whole = [] then .nan
    else .ofRat (signed d.negative (ofDigits d.whole)) := by
    unfold parseInt
    rw [hsign, hwhole]
  rw [hread]
  by_cases hempty : d.whole = []
  · rw [if_pos hempty]
    exact iff_of_false (Number.ofRat_ne_nan m).symm fun h => h.1 hempty
  · rw [if_neg hempty, ← Decimal.whole_eq_iff hfraction hmagnitude.1, and_iff_right hempty]
    cases hneg : d.negative with
    | false => exact Number.ofRat_natCast_eq_iff hsafe
    | true =>
        rw [hmagnitude.2 hneg]
        exact Number.ofRat_neg_eq_iff

end Js
