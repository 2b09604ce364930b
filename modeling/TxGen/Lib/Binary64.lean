import Mathlib.Algebra.Order.Field.Rat
import Mathlib.Data.Int.Log
import Mathlib.Data.Rat.Floor
import Mathlib.Tactic.Linarith
import Mathlib.Tactic.Positivity

/-!
# Doubles

The doubles of IEEE 754 as rational numbers, and rounding to the nearest of them, a tie
going to the even one. An operation on doubles is the exact one, rounded. Values beyond
the largest double are rounded as if there were larger ones: nothing here is about
infinities.

* `abs_round_sub_le`: the relative error of a normal result is at most `2⁻⁵³`.
* `round_natCast`: integers up to `2⁵³` are doubles.
* `round_mono`: rounding keeps the order.
-/

namespace Lib.Binary64

/-- The nearest integer, ties to the even one. -/
def roundEven (q : ℚ) : ℤ :=
  if q - ⌊q⌋ < 1 / 2 then ⌊q⌋
  else if 1 / 2 < q - ⌊q⌋ then ⌊q⌋ + 1
  else if ⌊q⌋ % 2 = 0 then ⌊q⌋ else ⌊q⌋ + 1

/-- The exponent of the last place of a double of the magnitude of `q`: a significand has
53 bits, and the least positive double is `2⁻¹⁰⁷⁴`. -/
def exponent (q : ℚ) : ℤ := max (Int.log 2 |q| - 52) (-1074)

/-- The unit in the last place. -/
def ulp (q : ℚ) : ℚ := 2 ^ exponent q

/-- The double nearest to `q`. -/
def round (q : ℚ) : ℚ := roundEven (q / ulp q) * ulp q

/-- The least normal double. -/
def leastNormal : ℚ := 2 ^ (-1022 : ℤ)

variable {q : ℚ}

theorem leastNormal_pos : 0 < leastNormal := zpow_pos (by norm_num) _

theorem leastNormal_le_one : leastNormal ≤ 1 :=
  zpow_le_one_of_nonpos₀ (by norm_num) (by norm_num)

theorem ulp_pos (q : ℚ) : 0 < ulp q := zpow_pos (by norm_num) _

theorem roundEven_intCast (n : ℤ) : roundEven n = n := by simp [roundEven]

/-- Rounding to an integer goes no further than a half. -/
theorem abs_roundEven_sub_le (q : ℚ) : |(roundEven q : ℚ) - q| ≤ 1 / 2 := by
  have hfloor := Int.floor_le q
  have hlt := Int.lt_floor_add_one q
  rw [abs_le]
  unfold roundEven
  split_ifs with hlow hhigh heven
  · constructor <;> linarith
  · push_cast
    constructor <;> linarith
  · constructor <;> linarith
  · push_cast
    constructor <;> linarith

/-- Rounding goes no further than half a unit in the last place. -/
theorem abs_round_sub_le_ulp (q : ℚ) : |round q - q| ≤ ulp q / 2 := by
  have hulp := ulp_pos q
  have hscale : round q - q = (roundEven (q / ulp q) - q / ulp q) * ulp q := by
    rw [round, sub_mul, div_mul_cancel₀ _ hulp.ne']
  have hhalf := abs_roundEven_sub_le (q / ulp q)
  calc |round q - q| = |(roundEven (q / ulp q) : ℚ) - q / ulp q| * ulp q := by
        rw [hscale, abs_mul, abs_of_pos hulp]
    _ ≤ 1 / 2 * ulp q := mul_le_mul_of_nonneg_right hhalf hulp.le
    _ = ulp q / 2 := by ring

/-- The exponent of a normal number. -/
theorem exponent_of_normal (h : leastNormal ≤ q) : exponent q = Int.log 2 q - 52 := by
  have hpos : 0 < q := leastNormal_pos.trans_le h
  have hlog : -1022 ≤ Int.log 2 q := by
    have hzpow : ((2 : ℕ) : ℚ) ^ (-1022 : ℤ) ≤ q := h
    exact (Int.zpow_le_iff_le_log (by norm_num) hpos).1 hzpow
  rw [exponent, abs_of_pos hpos, max_eq_left (by omega)]

/-- **The relative error of rounding.** -/
theorem abs_round_sub_le (h : leastNormal ≤ q) : |round q - q| ≤ q / 2 ^ 53 := by
  have hpos : 0 < q := leastNormal_pos.trans_le h
  have hlow : (2 : ℚ) ^ Int.log 2 q ≤ q := by
    exact_mod_cast Int.zpow_log_le_self (b := 2) (by norm_num) hpos
  calc |round q - q| ≤ ulp q / 2 := abs_round_sub_le_ulp q
    _ = 2 ^ Int.log 2 q / 2 ^ 53 := by
        rw [ulp, exponent_of_normal h, zpow_sub₀ (by norm_num)]
        norm_num
        ring
    _ ≤ q / 2 ^ 53 := by gcongr

theorem round_le (h : leastNormal ≤ q) : round q ≤ q * (1 + 1 / 2 ^ 53) := by
  have := (abs_le.1 (abs_round_sub_le h)).2
  linarith

theorem le_round (h : leastNormal ≤ q) : q * (1 - 1 / 2 ^ 53) ≤ round q := by
  have := (abs_le.1 (abs_round_sub_le h)).1
  linarith

/-- **Small integers are doubles.** -/
theorem round_natCast {n : ℕ} (h : n ≤ 2 ^ 53) : round n = n := by
  rcases Nat.eq_zero_or_pos n with rfl | hn
  · simp [round, roundEven]
  have hnormal : leastNormal ≤ n := leastNormal_le_one.trans (by exact_mod_cast hn)
  have hlog : Int.log 2 (n : ℚ) = Nat.log 2 n := Int.log_natCast 2 n
  by_cases hbig : n = 2 ^ 53
  · -- the one case in which the last place is above the units
    have hexp : exponent (n : ℚ) = 1 := by
      rw [exponent_of_normal hnormal, hlog, hbig, Nat.log_pow (by norm_num)]
      norm_num
    rw [round, ulp, hexp, hbig]
    norm_num [roundEven]
  · have hsmall : Nat.log 2 n < 53 := Nat.log_lt_of_lt_pow hn.ne' (lt_of_le_of_ne h hbig)
    have hexp : exponent (n : ℚ) = -((52 - Nat.log 2 n : ℕ) : ℤ) := by
      rw [exponent_of_normal hnormal, hlog]
      omega
    -- the number of units in the last place is an integer
    have hint : (n : ℚ) / ulp n = ((n * 2 ^ (52 - Nat.log 2 n) : ℕ) : ℤ) := by
      rw [ulp, hexp, zpow_neg, zpow_natCast, div_inv_eq_mul]
      push_cast
      ring
    rw [round, hint, roundEven_intCast, ← hint, div_mul_cancel₀ _ (ulp_pos _).ne']

/-! ## Order -/

theorem roundEven_mono {x y : ℚ} (h : x ≤ y) : roundEven x ≤ roundEven y := by
  by_contra hlt
  have hstep : (roundEven y : ℚ) + 1 ≤ roundEven x := by exact_mod_cast not_le.1 hlt
  have hx := (abs_le.1 (abs_roundEven_sub_le x)).2
  have hy := (abs_le.1 (abs_roundEven_sub_le y)).1
  -- only a tie could be rounded both ways, and it is rounded one way
  obtain rfl : x = y := by linarith
  exact hlt le_rfl

/-- A double between two powers of two is rounded to something between them. -/
theorem round_between (h : leastNormal ≤ q) :
    (2 : ℚ) ^ Int.log 2 q ≤ round q ∧ round q ≤ 2 ^ (Int.log 2 q + 1) := by
  have hpos : 0 < q := leastNormal_pos.trans_le h
  have hlow : (2 : ℚ) ^ Int.log 2 q ≤ q := by
    exact_mod_cast Int.zpow_log_le_self (b := 2) (by norm_num) hpos
  have hhigh : q ≤ (2 : ℚ) ^ (Int.log 2 q + 1) := by
    exact_mod_cast (Int.lt_zpow_succ_log_self (b := 2) (by norm_num) q).le
  have hulp : ulp q = 2 ^ (Int.log 2 q - 52) := by rw [ulp, exponent_of_normal h]
  -- both powers are integers in units of the last place
  have hpow : ∀ k : ℕ, (2 : ℚ) ^ (Int.log 2 q - 52 + k) = ((2 ^ k : ℕ) : ℤ) * ulp q := by
    intro k
    rw [zpow_add₀ (by norm_num), zpow_natCast, hulp, mul_comm]
    push_cast
    rfl
  have hlow' := hpow 52
  have hhigh' := hpow 53
  rw [show Int.log 2 q - 52 + (52 : ℕ) = Int.log 2 q by omega] at hlow'
  rw [show Int.log 2 q - 52 + (53 : ℕ) = Int.log 2 q + 1 by omega] at hhigh'
  rw [hlow', ← le_div_iff₀ (ulp_pos q)] at hlow
  rw [hhigh', ← div_le_iff₀ (ulp_pos q)] at hhigh
  rw [hlow', hhigh', round]
  constructor
  · refine mul_le_mul_of_nonneg_right ?_ (ulp_pos q).le
    have hmono := roundEven_mono hlow
    rw [roundEven_intCast] at hmono
    exact_mod_cast hmono
  · refine mul_le_mul_of_nonneg_right ?_ (ulp_pos q).le
    have hmono := roundEven_mono hhigh
    rw [roundEven_intCast] at hmono
    exact_mod_cast hmono

/-- **Rounding keeps the order.** -/
theorem round_mono {x y : ℚ} (hx : leastNormal ≤ x) (h : x ≤ y) : round x ≤ round y := by
  have hpos : 0 < x := leastNormal_pos.trans_le hx
  have hlog : Int.log 2 x ≤ Int.log 2 y := Int.log_mono_right hpos h
  rcases hlog.eq_or_lt with heq | hlt
  · -- the same unit in the last place
    have hulp : ulp x = ulp y := by
      rw [ulp, ulp, exponent_of_normal hx, exponent_of_normal (hx.trans h), heq]
    rw [round, round, hulp]
    have hdiv : x / ulp y ≤ y / ulp y := div_le_div_of_nonneg_right h (ulp_pos y).le
    exact mul_le_mul_of_nonneg_right (by exact_mod_cast roundEven_mono hdiv) (ulp_pos y).le
  · -- a power of two lies between the results
    calc round x ≤ 2 ^ (Int.log 2 x + 1) := (round_between hx).2
      _ ≤ 2 ^ Int.log 2 y := zpow_le_zpow_right₀ (by norm_num) hlt
      _ ≤ round y := (round_between (hx.trans h)).1

end Lib.Binary64
