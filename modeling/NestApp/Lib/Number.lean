import Mathlib.Data.Int.Log
import Mathlib.Data.Nat.Factorization.Basic
import Mathlib.Data.Rat.Floor
import Mathlib.Tactic.FieldSimp
import Mathlib.Tactic.Linarith
import Mathlib.Tactic.Positivity

/-!
# `Lib.Number` — the numbers of JavaScript

A **number** is an IEEE double: a rational, one of the two infinities, or NaN. An operation rounds the
exact result to the nearest double, ties to even (`nearest`). The sign of a zero is left out.

* `nearest_intCast` — the integers up to `2 ^ 53` are doubles;
* `le_nearest`, `nearest_le` — rounding keeps the order between a rational and such an integer;
* `nearest_mono`, `abs_nearest_sub_le` — rounding keeps the order of any two rationals, and is off by
  at most half a unit in the last place;
* `nearest_natCast_iff` — a natural number is a double iff 53 bits write it, up to trailing zeros.
-/

namespace Js

/-! ## Rounding

A double has 53 bits and an exponent. A rational is scaled by the power of two that gives it 53 bits
before the point, rounded to an integer, and scaled back; what is below the smallest exponent loses
bits. Overflow is treated afterwards, in `Number.ofRat`. -/

/-- The nearest integer, and of two the even one. -/
def roundEven (x : ℚ) : ℤ :=
  if Int.fract x < 1 / 2 then ⌊x⌋
  else if 1 / 2 < Int.fract x then ⌈x⌉
  else if Even ⌊x⌋ then ⌊x⌋
  else ⌈x⌉

/-- The exponent of the last of the 53 bits. -/
def exponent (x : ℚ) : ℤ := max (Int.log 2 |x| - 52) (-1074)

/-- The nearest double, if none of them were too large: to the nearest multiple of the unit in the last
    place, of two to the one with an even last bit. -/
def nearest (x : ℚ) : ℚ := roundEven (x / 2 ^ exponent x) * 2 ^ exponent x

section Rounding

variable {x : ℚ} {n : ℤ}

theorem floor_le_roundEven (x : ℚ) : ⌊x⌋ ≤ roundEven x := by
  have hle := Int.floor_le_ceil x
  unfold roundEven
  split_ifs <;> omega

theorem roundEven_le_ceil (x : ℚ) : roundEven x ≤ ⌈x⌉ := by
  have hle := Int.floor_le_ceil x
  unfold roundEven
  split_ifs <;> omega

theorem le_roundEven (h : (n : ℚ) ≤ x) : n ≤ roundEven x :=
  (Int.le_floor.mpr h).trans (floor_le_roundEven x)

theorem roundEven_le (h : x ≤ n) : roundEven x ≤ n := (roundEven_le_ceil x).trans (Int.ceil_le.mpr h)

@[simp] theorem roundEven_intCast (n : ℤ) : roundEven n = n :=
  le_antisymm (roundEven_le le_rfl) (le_roundEven le_rfl)

theorem roundEven_mono {x y : ℚ} (h : x ≤ y) : roundEven x ≤ roundEven y := by
  rcases (Int.floor_mono h).lt_or_eq with hlt | heq
  · -- an integer lies between the two
    have hceil := Int.ceil_le_floor_add_one x
    exact (roundEven_le_ceil x).trans (le_trans (by omega) (floor_le_roundEven y))
  · have hfract : Int.fract x ≤ Int.fract y := by
      rw [Int.fract, Int.fract, heq]
      linarith
    have hceil := Int.ceil_mono h
    have hfloor := Int.floor_le_ceil y
    unfold roundEven
    rw [heq]
    split_ifs <;> first | omega | (exfalso; linarith)

theorem abs_roundEven_sub_le (x : ℚ) : |(roundEven x : ℚ) - x| ≤ 1 / 2 := by
  have hfloor := Int.floor_add_fract x
  have hceil : (⌈x⌉ : ℚ) ≤ ⌊x⌋ + 1 := by exact_mod_cast Int.ceil_le_floor_add_one x
  have hle := Int.le_ceil x
  unfold roundEven
  rw [abs_le]
  split_ifs <;> constructor <;> linarith [Int.fract_nonneg x]

theorem roundEven_neg (x : ℚ) : roundEven (-x) = -roundEven x := by
  by_cases hint : Int.fract x = 0
  · obtain ⟨n, rfl⟩ := Int.fract_eq_zero_iff.mp hint
    rw [roundEven_intCast, ← Int.cast_neg, roundEven_intCast]
  · -- the two neighbours change places, and with them the distances
    have hceil : ⌈x⌉ = ⌊x⌋ + 1 := Int.ceil_eq_iff.mpr (by
      have hpos := lt_of_le_of_ne (Int.fract_nonneg x) (Ne.symm hint)
      have hsum := Int.floor_add_fract x
      have hlt := Int.fract_lt_one x
      push_cast
      constructor <;> linarith)
    unfold roundEven
    simp only [Int.fract_neg hint, Int.floor_neg, Int.ceil_neg, hceil, even_neg, Int.even_add_one]
    split_ifs <;> first | rfl | omega | (exfalso; linarith)

@[simp] theorem exponent_neg (x : ℚ) : exponent (-x) = exponent x := by
  rw [exponent, exponent, abs_neg]

@[simp] theorem nearest_neg (x : ℚ) : nearest (-x) = -nearest x := by
  rw [nearest, nearest, exponent_neg, neg_div, roundEven_neg]
  push_cast
  ring

/-- An integer is a multiple of a unit in the last place that is at most 1. -/
theorem exists_mul_zpow {e : ℤ} (he : e ≤ 0) (n : ℤ) : ∃ m : ℤ, (m : ℚ) * 2 ^ e = n := by
  obtain ⟨k, rfl⟩ := Int.exists_eq_neg_ofNat he
  refine ⟨n * 2 ^ k, ?_⟩
  push_cast
  rw [zpow_neg, zpow_natCast, mul_assoc, mul_inv_cancel₀ (pow_ne_zero k two_ne_zero), mul_one]

/-- A rational that is not too small fills the 53 bits: the first of them is set. -/
theorem le_abs_of_normal (hx : x ≠ 0) (h : -1074 < exponent x) :
    (2 : ℚ) ^ 52 * 2 ^ exponent x ≤ |x| := by
  have hlog : exponent x = Int.log 2 |x| - 52 := by
    unfold exponent at h ⊢
    omega
  have hle := Int.zpow_log_le_self (b := 2) (by norm_num) (abs_pos.mpr hx)
  rw [hlog, ← zpow_natCast, ← zpow_add₀ (by norm_num)]
  simpa using hle

/-- Where the unit in the last place is more than 1, there are 53 bits before the point. -/
theorem le_abs_of_exponent (h : 0 < exponent x) : (2 : ℚ) ^ 52 * 2 ^ exponent x ≤ |x| := by
  refine le_abs_of_normal ?_ (by omega)
  rintro rfl
  rw [exponent, abs_zero, Int.log_zero_right] at h
  omega

/-- A multiple of the unit below the rational is below the double. -/
theorem mul_le_nearest {m : ℤ} (h : (m : ℚ) * 2 ^ exponent x ≤ x) :
    (m : ℚ) * 2 ^ exponent x ≤ nearest x := by
  have hpos : (0 : ℚ) < 2 ^ exponent x := zpow_pos two_pos _
  have hm : m ≤ roundEven (x / 2 ^ exponent x) := le_roundEven ((le_div_iff₀ hpos).mpr h)
  unfold nearest
  exact mul_le_mul_of_nonneg_right (by exact_mod_cast hm) hpos.le

/-- **Rounding up past an integer**: a double is not below the integers that the rational is not
    below. -/
theorem le_nearest (hn : |n| ≤ 2 ^ 53) (h : n ≤ x) : n ≤ nearest x := by
  by_cases he : exponent x ≤ 0
  · obtain ⟨m, hm⟩ := exists_mul_zpow he n
    rw [← hm] at h ⊢
    exact mul_le_nearest h
  · -- the rational is at least as large as the largest of these integers, or it is the smallest one
    rw [not_le] at he
    have hbig := le_abs_of_exponent he
    have hunit : (2 : ℚ) ^ 53 ≤ 2 ^ 52 * 2 ^ exponent x := by
      have hone : (2 : ℚ) ^ (1 : ℤ) ≤ 2 ^ exponent x := zpow_le_zpow_right₀ (by norm_num) he
      have : (2 : ℚ) ^ 53 = 2 ^ 52 * 2 ^ (1 : ℤ) := by norm_num
      rw [this]
      exact mul_le_mul_of_nonneg_left hone (by positivity)
    have hrange : -(2 : ℚ) ^ 53 ≤ n ∧ (n : ℚ) ≤ 2 ^ 53 := by
      rw [abs_le] at hn
      exact ⟨by exact_mod_cast hn.1, by exact_mod_cast hn.2⟩
    by_cases hx : 0 ≤ x
    · rw [abs_of_nonneg hx] at hbig
      have hround := mul_le_nearest (m := 2 ^ 52) (x := x) (by push_cast; exact hbig)
      push_cast at hround
      linarith [hrange.2]
    · rw [not_le] at hx
      rw [abs_of_neg hx] at hbig
      have hround := mul_le_nearest (m := -2 ^ 52) (x := x) (by push_cast; linarith [hrange.1])
      push_cast at hround
      linarith

theorem nearest_le (hn : |n| ≤ 2 ^ 53) (h : x ≤ n) : nearest x ≤ n := by
  have hneg : ((-n : ℤ) : ℚ) ≤ nearest (-x) := le_nearest (by rwa [abs_neg]) (by push_cast; linarith)
  rw [nearest_neg] at hneg
  push_cast at hneg
  linarith

/-- **The integers up to `2 ^ 53` are doubles.** -/
theorem nearest_intCast (hn : |n| ≤ 2 ^ 53) : nearest n = n :=
  le_antisymm (nearest_le hn le_rfl) (le_nearest hn le_rfl)

/-- **Rounding is off by at most half a unit** in the last place. -/
theorem abs_nearest_sub_le (x : ℚ) : |nearest x - x| ≤ 2 ^ exponent x / 2 := by
  have hpos : (0 : ℚ) < 2 ^ exponent x := zpow_pos two_pos _
  have hunits : nearest x - x = (roundEven (x / 2 ^ exponent x) - x / 2 ^ exponent x) *
    2 ^ exponent x := by
    rw [nearest, sub_mul, div_mul_cancel₀ _ hpos.ne']
  have hhalf := abs_roundEven_sub_le (x / 2 ^ exponent x)
  calc |nearest x - x| = |(roundEven (x / 2 ^ exponent x) : ℚ) - x / 2 ^ exponent x| * 2
    ^ exponent x := by
        rw [hunits, abs_mul, abs_of_pos hpos]
    _ ≤ 1 / 2 * 2 ^ exponent x := mul_le_mul_of_nonneg_right hhalf hpos.le
    _ = 2 ^ exponent x / 2 := by ring

/-! ### Which rationals are doubles -/

/-- A double has 53 bits. -/
theorem abs_roundEven_le (x : ℚ) : |roundEven (x / 2 ^ exponent x)| ≤ 2 ^ 53 := by
  have hpos : (0 : ℚ) < 2 ^ exponent x := zpow_pos two_pos _
  have hsize : |x| ≤ 2 ^ 53 * 2 ^ exponent x := by
    have hlt : |x| < 2 ^ (Int.log 2 |x| + 1) := Int.lt_zpow_succ_log_self (by norm_num) |x|
    have hle : (2 : ℚ) ^ (Int.log 2 |x| + 1) ≤ 2 ^ (53 + exponent x) := by
      apply zpow_le_zpow_right₀ (by norm_num)
      unfold exponent
      omega
    rw [zpow_add₀ (by norm_num) 53] at hle
    exact hlt.le.trans hle
  obtain ⟨hlo, hhi⟩ := abs_le.mp hsize
  apply abs_le.mpr
  constructor
  · apply le_roundEven
    rw [le_div_iff₀ hpos]
    push_cast
    linarith
  · apply roundEven_le
    rw [div_le_iff₀ hpos]
    exact_mod_cast hhi

theorem exponent_mono {x y : ℚ} (hx : 0 < x) (h : x ≤ y) : exponent x ≤ exponent y := by
  have hlog : Int.log 2 |x| ≤ Int.log 2 |y| := by
    rw [abs_of_pos hx, abs_of_pos (hx.trans_le h)]
    exact Int.log_mono_right hx h
  unfold exponent
  omega

theorem nearest_mono_of_pos {x y : ℚ} (hx : 0 < x) (h : x ≤ y) : nearest x ≤ nearest y := by
  have hpos : (0 : ℚ) < 2 ^ exponent x := zpow_pos two_pos _
  rcases (exponent_mono hx h).lt_or_eq with hlt | heq
  · -- the next power of two lies between the two
    have hmin : -1074 ≤ exponent x := le_max_right _ _
    have hup := le_abs_of_normal (hx.trans_le h).ne' (by omega)
    rw [abs_of_pos (hx.trans_le h)] at hup
    have hy : ((2 ^ 52 : ℤ) : ℚ) * 2 ^ exponent y ≤ nearest y := mul_le_nearest (by push_cast; exact hup)
    have hbits : ((roundEven (x / 2 ^ exponent x) : ℤ) : ℚ) ≤ 2 ^ 53 := by
      exact_mod_cast (abs_le.mp (abs_roundEven_le x)).2
    have hunit : (2 : ℚ) * 2 ^ exponent x ≤ 2 ^ exponent y := by
      rw [mul_comm, ← zpow_add_one₀ (by norm_num)]
      exact zpow_le_zpow_right₀ (by norm_num) (by omega)
    calc nearest x ≤ 2 ^ 53 * 2 ^ exponent x := mul_le_mul_of_nonneg_right hbits hpos.le
      _ = 2 ^ 52 * (2 * 2 ^ exponent x) := by ring
      _ ≤ 2 ^ 52 * 2 ^ exponent y := mul_le_mul_of_nonneg_left hunit (by positivity)
      _ ≤ nearest y := by push_cast at hy; exact hy
  · have hquot : x / 2 ^ exponent x ≤ y / 2 ^ exponent x := div_le_div_of_nonneg_right h hpos.le
    have hround : ((roundEven (x / 2 ^ exponent x) : ℤ) : ℚ) ≤ roundEven (y / 2 ^ exponent x) := by
      exact_mod_cast roundEven_mono hquot
    rw [nearest, nearest, ← heq]
    exact mul_le_mul_of_nonneg_right hround hpos.le

/-- **Rounding keeps the order** of any two rationals. -/
theorem nearest_mono {x y : ℚ} (h : x ≤ y) : nearest x ≤ nearest y := by
  have hzero : |(0 : ℤ)| ≤ 2 ^ 53 := by norm_num
  rcases lt_or_ge 0 x with hx | hx
  · exact nearest_mono_of_pos hx h
  rcases lt_or_ge y 0 with hy | hy
  · have hneg := nearest_mono_of_pos (neg_pos.mpr hy) (neg_le_neg h)
    rw [nearest_neg, nearest_neg] at hneg
    linarith
  · have hle : nearest x ≤ (0 : ℤ) := nearest_le hzero (by exact_mod_cast hx)
    have hge : ((0 : ℤ) : ℚ) ≤ nearest y := le_nearest hzero (by exact_mod_cast hy)
    exact hle.trans hge

theorem nearest_eq_of_mul {m : ℤ} (h : (m : ℚ) * 2 ^ exponent x = x) : nearest x = x := by
  have hpos : (0 : ℚ) < 2 ^ exponent x := zpow_pos two_pos _
  have hquot : x / 2 ^ exponent x = m := by rw [div_eq_iff hpos.ne', h]
  rw [nearest, hquot, roundEven_intCast, h]

/-- **The doubles**: 53 bits and an exponent. -/
theorem nearest_mul_zpow {r e : ℤ} (hr : |r| ≤ 2 ^ 53) (he : -1074 ≤ e) :
    nearest (r * 2 ^ e) = r * 2 ^ e := by
  have hpos : (0 : ℚ) < 2 ^ e := zpow_pos two_pos _
  have habs : |(r : ℚ) * 2 ^ e| = |(r : ℚ)| * 2 ^ e := by rw [abs_mul, abs_of_pos hpos]
  rcases eq_or_ne r 0 with rfl | hne
  · exact nearest_eq_of_mul (m := 0) (by simp)
  have hy : 0 < |(r : ℚ) * 2 ^ e| := abs_pos.mpr (mul_ne_zero (by exact_mod_cast hne) hpos.ne')
  have hlog : Int.log 2 |(r : ℚ) * 2 ^ e| < 54 + e := by
    rw [← Int.lt_zpow_iff_log_lt (by norm_num) hy, habs, Nat.cast_ofNat, zpow_add₀ (by norm_num)]
    apply mul_lt_mul_of_pos_right _ hpos
    have hr' : |(r : ℚ)| ≤ 2 ^ 53 := by exact_mod_cast hr
    exact hr'.trans_lt (by norm_num)
  by_cases hexp : exponent (r * 2 ^ e) ≤ e
  · obtain ⟨k, hk⟩ := Int.eq_ofNat_of_zero_le (sub_nonneg.mpr hexp)
    apply nearest_eq_of_mul (m := r * 2 ^ k)
    push_cast
    rw [← zpow_natCast, mul_assoc, ← zpow_add₀ (by norm_num)]
    congr 2
    omega
  · -- one bit too many: it is the largest 53 bits, a power of two
    have hexp' : exponent (r * 2 ^ e) = e + 1 := by
      unfold exponent at hexp ⊢
      omega
    have hlarge : (2 : ℚ) ^ 53 ≤ |(r : ℚ)| := by
      have hle : ((2 : ℕ) : ℚ) ^ (53 + e) ≤ |(r : ℚ) * 2 ^ e| := by
        rw [Int.zpow_le_iff_le_log (by norm_num) hy]
        unfold exponent at hexp'
        omega
      rw [habs, Nat.cast_ofNat, zpow_add₀ (by norm_num)] at hle
      exact_mod_cast le_of_mul_le_mul_right hle hpos
    have hsize : |r| = 2 ^ 53 := le_antisymm hr (by exact_mod_cast hlarge)
    obtain ⟨m, rfl⟩ : ∃ m : ℤ, r = m * 2 := by
      rcases abs_eq (by norm_num) |>.mp hsize with rfl | rfl
      · exact ⟨2 ^ 52, by norm_num⟩
      · exact ⟨-2 ^ 52, by norm_num⟩
    apply nearest_eq_of_mul (m := m)
    rw [hexp', zpow_add₀ (by norm_num), zpow_one]
    push_cast
    ring

/-- Rounding twice is rounding once. -/
theorem nearest_nearest (x : ℚ) : nearest (nearest x) = nearest x :=
  nearest_mul_zpow (abs_roundEven_le x) (le_max_right _ _)

/-- A natural number that something is rounded to. -/
theorem exists_of_nearest_eq {k : ℕ} (h : nearest x = k) : ∃ m e : ℕ, m ≤ 2 ^ 53 ∧ k = m * 2 ^ e := by
  have hbound := abs_roundEven_le x
  unfold nearest at h
  generalize roundEven (x / 2 ^ exponent x) = r at h hbound
  have hk : (0 : ℚ) ≤ k := Nat.cast_nonneg k
  have hr : 0 ≤ r := by
    by_contra hneg
    have hneg' : (r : ℚ) < 0 := by exact_mod_cast not_le.mp hneg
    have hprod : (r : ℚ) * 2 ^ exponent x < 0 := mul_neg_of_neg_of_pos hneg' (zpow_pos two_pos _)
    linarith
  obtain ⟨m, rfl⟩ := Int.eq_ofNat_of_zero_le hr
  have hm : m ≤ 2 ^ 53 := by
    rw [Nat.abs_cast] at hbound
    exact_mod_cast hbound
  rw [Int.cast_natCast] at h
  rcases le_total 0 (exponent x) with he | he
  · obtain ⟨e, he⟩ := Int.eq_ofNat_of_zero_le he
    rw [he, zpow_natCast] at h
    exact ⟨m, e, hm, by exact_mod_cast h.symm⟩
  · -- the number is at most its 53 bits
    have hone : (2 : ℚ) ^ exponent x ≤ 1 := by
      have hle : (2 : ℚ) ^ exponent x ≤ 2 ^ (0 : ℤ) := zpow_le_zpow_right₀ (by norm_num) he
      simpa using hle
    have hle : (k : ℚ) ≤ m := by
      rw [← h]
      exact mul_le_of_le_one_right (Nat.cast_nonneg m) hone
    have hle' : k ≤ m := by exact_mod_cast hle
    exact ⟨k, 0, hle'.trans hm, by simp⟩

/-- **A natural number is a double** iff 53 bits write it, up to trailing zeros. -/
theorem nearest_natCast_iff {k : ℕ} : nearest k = k ↔ ∃ m e : ℕ, m ≤ 2 ^ 53 ∧ k = m * 2 ^ e := by
  constructor
  · exact exists_of_nearest_eq
  · rintro ⟨m, e, hm, rfl⟩
    have hm' : |(m : ℤ)| ≤ 2 ^ 53 := by
      rw [Nat.abs_cast]
      exact_mod_cast hm
    have hdouble := nearest_mul_zpow hm' (show -1074 ≤ (e : ℤ) by omega)
    rw [zpow_natCast] at hdouble
    exact_mod_cast hdouble

/-- What is rounded to a natural number makes it a double. -/
theorem nearest_of_nearest_eq {k : ℕ} (h : nearest x = k) : nearest k = k := by
  rw [← h, nearest_nearest]

/-- The factors of a double are doubles. -/
theorem nearest_of_mul {n u : ℕ} (hu : 0 < u) (h : nearest (n * u : ℕ) = (n * u : ℕ)) :
    nearest n = n := by
  rw [nearest_natCast_iff] at h ⊢
  obtain ⟨m, e, hm, hprod⟩ := h
  rcases Nat.eq_zero_or_pos n with rfl | hn
  · exact ⟨0, 0, by norm_num, by norm_num⟩
  · -- the odd part of the factor divides the 53 bits
    obtain ⟨a, b, hodd, rfl⟩ := Nat.exists_eq_two_pow_mul_odd hn.ne'
    have hdvd : b ∣ m * 2 ^ e := by
      rw [← hprod]
      exact ⟨2 ^ a * u, by ring⟩
    have hcoprime : Nat.Coprime b (2 ^ e) := hodd.coprime_two_right.pow_right e
    have hm0 : 0 < m := by
      by_contra hzero
      have hzero' : m = 0 := by omega
      rw [hzero', Nat.zero_mul] at hprod
      have hne := Nat.mul_pos hn hu
      omega
    exact ⟨b, a, (Nat.le_of_dvd hm0 (hcoprime.dvd_of_dvd_mul_right hdvd)).trans hm, by ring⟩

end Rounding

/-! ## Numbers

The operations work on the exact values and round once, as IEEE 754 asks. Only what a development uses
is here; the sign of a zero is left out, as nothing here divides by a zero. -/

/-- A number of JavaScript. A finite one carries its exact value. -/
inductive Number where
  | finite (value : ℚ)
  | infinity
  | negInfinity
  | nan
deriving DecidableEq

namespace Number

/-- The number an exact result is rounded to. -/
def ofRat (x : ℚ) : Number :=
  if |nearest x| < 2 ^ 1024 then .finite (nearest x) else if 0 < x then .infinity else .negInfinity

/-- A number that is neither finite nor zero, by the sign it would have. -/
def ofSign (sign : Int) : Number := if sign = 0 then .nan else if 0 < sign then .infinity
    else .negInfinity

def sign : Number → Int
  | .finite x    => if x = 0 then 0 else if 0 < x then 1 else -1
  | .infinity    => 1
  | .negInfinity => -1
  | .nan         => 0

/-- `a + b` -/
def add : Number → Number → Number
  | .finite x, .finite y                                     => ofRat (x + y)
  | .nan, _ | _, .nan                                        => .nan
  | .infinity, .negInfinity | .negInfinity, .infinity        => .nan
  | .infinity, _ | _, .infinity                              => .infinity
  | .negInfinity, _ | _, .negInfinity                        => .negInfinity

/-- `a * b` -/
def mul : Number → Number → Number
  | .finite x, .finite y => ofRat (x * y)
  | .nan, _ | _, .nan    => .nan
  | a, b                 => ofSign (a.sign * b.sign)

/-- `a / b`, where `b` is a finite number other than zero. -/
def div (a : Number) (y : ℚ) : Number :=
  match a with
  | .finite x => ofRat (x / y)
  | .nan      => .nan
  | a         => ofSign (a.sign * (finite y).sign)

/-- `Math.round(a)`: of two neighbours the larger one. -/
def round : Number → Number
  | .finite x => .finite ⌊x + 1 / 2⌋
  | a         => a

/-- `Math.abs(a) <= bound` -/
def within (bound : ℚ) : Number → Bool
  | .finite x => |x| ≤ bound
  | _         => false

variable {x : ℚ} {n : ℤ} {k : ℕ}

theorem ofRat_intCast (hn : |n| ≤ 2 ^ 53) : ofRat n = .finite n := by
  have hlt : |(n : ℚ)| < 2 ^ 1024 := by
    have hle : |(n : ℚ)| ≤ 2 ^ 53 := by exact_mod_cast hn
    exact hle.trans_lt (pow_lt_pow_right₀ (by norm_num) (by norm_num))
  unfold ofRat
  rw [nearest_intCast hn, if_pos hlt]

/-- Rounding does not leave the range of the exact integers. -/
theorem abs_nearest_le (hx : |x| ≤ 2 ^ 53) : |nearest x| ≤ 2 ^ 53 := by
  obtain ⟨hmin, hmax⟩ := abs_le.mp hx
  have hge := le_nearest (n := -(2 : ℤ) ^ 53) (x := x) (by norm_num) (by push_cast; exact hmin)
  have hle := nearest_le (n := (2 : ℤ) ^ 53) (x := x) (by norm_num) (by push_cast; exact hmax)
  push_cast at hge hle
  exact abs_le.mpr ⟨hge, hle⟩

/-- The quotient of two integers whose size is at most `2 ^ 53`, rounded, lies between the integers the
    quotient lies between. -/
theorem round_ofRat {lo hi : ℤ} (hx : |x| ≤ 2 ^ 53) (hlo : lo ≤ x) (hhi : x ≤ hi) :
    ∃ r : ℤ, (ofRat x).round = .finite r ∧ lo ≤ r ∧ r ≤ hi := by
  obtain ⟨hmin, hmax⟩ := abs_le.mp hx
  obtain ⟨hge, hle⟩ := abs_le.mp (abs_nearest_le hx)
  have hlt : |nearest x| < 2 ^ 1024 :=
    (abs_nearest_le hx).trans_lt (pow_lt_pow_right₀ (by norm_num) (by norm_num))
  refine ⟨⌊nearest x + 1 / 2⌋, ?_, ?_, ?_⟩
  · unfold ofRat
    rw [if_pos hlt]
    rfl
  · apply Int.le_floor.mpr
    by_cases hsmall : lo < -2 ^ 53
    · have hlo' : (lo : ℚ) < -2 ^ 53 := by exact_mod_cast hsmall
      linarith
    · -- the lower bound is a double
      have habs : |lo| ≤ 2 ^ 53 := abs_le.mpr ⟨not_lt.mp hsmall, by exact_mod_cast hlo.trans hmax⟩
      linarith [le_nearest habs hlo]
  · have hbelow : nearest x < hi + 1 / 2 := by
      by_cases hbig : 2 ^ 53 < hi
      · have hhi' : (2 : ℚ) ^ 53 < hi := by exact_mod_cast hbig
        linarith
      · have habs : |hi| ≤ 2 ^ 53 := abs_le.mpr ⟨by exact_mod_cast hmin.trans hhi, not_lt.mp hbig⟩
        linarith [nearest_le habs hhi]
    have hfloor : ⌊nearest x + 1 / 2⌋ < hi + 1 := Int.floor_lt.mpr (by push_cast; linarith)
    omega

/-- A natural number that is a double, and not too large. -/
theorem ofRat_of_nearest (h : nearest k = k) (hsize : (k : ℚ) < 2 ^ 1024) : ofRat k = .finite k := by
  unfold ofRat
  rw [h, Nat.abs_cast, if_pos hsize]

/-- **A product is exact** iff it is a double. -/
theorem mul_eq_iff {u : ℕ} (hu : 0 < u) :
    (ofRat k).mul (.finite u) = .finite (k * u : ℕ) ↔ nearest (k * u : ℕ) = (k * u : ℕ) ∧
      ((k * u : ℕ) : ℚ) < 2 ^ 1024 := by
  constructor
  · intro h
    have hprod : ∀ x : ℚ, ofRat x = .finite (k * u : ℕ) → nearest (k * u : ℕ) = (k * u : ℕ) ∧
      ((k * u : ℕ) : ℚ) < 2 ^ 1024 := by
      intro x hx
      unfold ofRat at hx
      split_ifs at hx with hsize
      have hnearest : nearest x = (k * u : ℕ) := Number.finite.inj hx
      rw [hnearest, Nat.abs_cast] at hsize
      exact ⟨nearest_of_nearest_eq hnearest, hsize⟩
    have hpos : (Number.finite (u : ℚ)).sign = 1 := by
      have hu' : (0 : ℚ) < u := by exact_mod_cast hu
      rw [sign, if_neg hu'.ne', if_pos hu']
    rw [ofRat] at h
    split_ifs at h
    · exact hprod _ h
    · have hinf : mul .infinity (.finite u) = ofSign (sign .infinity * (Number.finite (u : ℚ)).sign) :=
        rfl
      rw [hinf, hpos] at h
      cases h
    · have hinf : mul .negInfinity (.finite u) =
        ofSign (sign .negInfinity * (Number.finite (u : ℚ)).sign) := rfl
      rw [hinf, hpos] at h
      cases h
  · rintro ⟨hdouble, hsize⟩
    have hle : (k : ℚ) ≤ (k * u : ℕ) := by exact_mod_cast Nat.le_mul_of_pos_right k hu
    rw [ofRat_of_nearest (nearest_of_mul hu hdouble) (hle.trans_lt hsize)]
    have hmul : mul (.finite k) (.finite u) = ofRat ((k : ℚ) * u) := rfl
    rw [hmul, ← Nat.cast_mul, ofRat_of_nearest hdouble hsize]

/-- **A bound below the last exact integer** is kept by the rounded integer iff the exact one keeps
    it. -/
theorem within_ofRat_iff {b : ℕ} (hb : b < 2 ^ 53) : (ofRat n).within b = true ↔ |n| ≤ b := by
  constructor
  · intro h
    by_contra hbig
    -- beyond the bound there is another exact integer
    have hnext : (b : ℚ) + 1 ≤ |nearest n| := by
      have hb' : |((b : ℤ) + 1)| ≤ 2 ^ 53 := by
        rw [abs_of_nonneg (by omega)]
        omega
      rcases le_total 0 n with hn | hn
      · rw [abs_of_nonneg hn] at hbig
        have hle := le_nearest (n := (b : ℤ) + 1) (x := n) hb' (by exact_mod_cast not_le.mp hbig)
        push_cast at hle
        exact hle.trans (le_abs_self _)
      · rw [abs_of_nonpos hn] at hbig
        have hle := le_nearest (n := (b : ℤ) + 1) (x := -n) hb' (by exact_mod_cast not_le.mp hbig)
        rw [nearest_neg] at hle
        push_cast at hle
        exact hle.trans (neg_le_abs _)
    unfold ofRat at h
    split_ifs at h
    · rw [within, decide_eq_true_eq] at h
      linarith
    · cases h
    · cases h
  · intro h
    rw [ofRat_intCast (by omega), within, decide_eq_true_eq]
    exact_mod_cast h

end Number

end Js
