import Mathlib.Data.Int.Log
import Mathlib.Data.Rat.Floor
import Mathlib.Tactic.FieldSimp
import Mathlib.Tactic.Linarith
import Mathlib.Tactic.NormNum
import Mathlib.Tactic.Positivity
import Mathlib.Tactic.Ring

/-!
# Binary floating point

Numbers with a significand of 53 bits. The result of an operation is the exact one,
rounded to the nearest such number; the exponents are not bounded.
-/

namespace GelCli.Foundation.Binary64

/-- The nearest integer, and of two that are as near the even one. -/
def nearest (q : ℚ) : ℤ :=
  if 2 * (q - ⌊q⌋) < 1 then ⌊q⌋
  else if 1 < 2 * (q - ⌊q⌋) then ⌊q⌋ + 1
  else if ⌊q⌋ % 2 = 0 then ⌊q⌋ else ⌊q⌋ + 1

/-- The last place of the numbers around `q`. -/
def ulp (q : ℚ) : ℚ := 2 ^ (Int.log 2 q - 52)

def round (q : ℚ) : ℚ := nearest (q / ulp q) * ulp q

def ofNat (n : ℕ) : ℚ := round n

def mul (a b : ℚ) : ℚ := round (a * b)

def div (a b : ℚ) : ℚ := round (a / b)

/-- The cast to an unsigned integer. -/
def toNat (q : ℚ) : ℕ := ⌊q⌋.toNat

theorem abs_nearest_sub_le (q : ℚ) : |(nearest q : ℚ) - q| ≤ 1 / 2 := by
  have hfloor := Int.floor_le q
  have hlt := Int.lt_floor_add_one q
  rw [abs_le]
  unfold nearest
  split_ifs with hbelow habove heven
  · constructor <;> linarith
  · push_cast
    constructor <;> linarith
  · constructor <;> linarith
  · push_cast
    constructor <;> linarith

theorem nearest_nonneg {q : ℚ} (h : 0 ≤ q) : 0 ≤ nearest q := by
  have hfloor : 0 ≤ ⌊q⌋ := Int.floor_nonneg.mpr h
  unfold nearest
  split_ifs <;> omega

theorem ulp_pos (q : ℚ) : 0 < ulp q := zpow_pos (by norm_num) _

/-- Half of the last place is small beside the number. -/
theorem ulp_le {q : ℚ} (h : 0 < q) : ulp q / 2 ≤ q / 2 ^ 53 := by
  have hlog : ((2 : ℕ) : ℚ) ^ Int.log 2 q ≤ q := Int.zpow_log_le_self (by norm_num) h
  have hulp : ulp q / 2 = 2 ^ Int.log 2 q / 2 ^ 53 := by
    rw [ulp, zpow_sub₀ (by norm_num)]
    norm_num
    ring
  rw [hulp]
  exact div_le_div_of_nonneg_right (by exact_mod_cast hlog) (by norm_num)

/-- **The relative error of rounding.** -/
theorem abs_round_sub_le {q : ℚ} (h : 0 ≤ q) : |round q - q| ≤ q / 2 ^ 53 := by
  rcases h.eq_or_lt with rfl | hpos
  · simp [round, nearest]
  · have hulp := ulp_pos q
    have hscaled : round q - q = (nearest (q / ulp q) - q / ulp q) * ulp q := by
      rw [round, sub_mul, div_mul_cancel₀ _ hulp.ne']
    calc |round q - q| = |(nearest (q / ulp q) : ℚ) - q / ulp q| * ulp q := by
          rw [hscaled, abs_mul, abs_of_pos hulp]
      _ ≤ 1 / 2 * ulp q := mul_le_mul_of_nonneg_right (abs_nearest_sub_le _) hulp.le
      _ = ulp q / 2 := by ring
      _ ≤ q / 2 ^ 53 := ulp_le hpos

theorem round_nonneg {q : ℚ} (h : 0 ≤ q) : 0 ≤ round q := by
  have hnearest := nearest_nonneg (div_nonneg h (ulp_pos q).le)
  exact mul_nonneg (by exact_mod_cast hnearest) (ulp_pos q).le

theorem round_le {q : ℚ} (h : 0 ≤ q) : round q ≤ q * (1 + 1 / 2 ^ 53) := by
  have hround := (abs_le.mp (abs_round_sub_le h)).2
  linarith

theorem le_round {q : ℚ} (h : 0 ≤ q) : q * (1 - 1 / 2 ^ 53) ≤ round q := by
  have hround := (abs_le.mp (abs_round_sub_le h)).1
  linarith

theorem cast_toNat_le {q : ℚ} (h : 0 ≤ q) : (toNat q : ℚ) ≤ q := by
  have hfloor : 0 ≤ ⌊q⌋ := Int.floor_nonneg.mpr h
  have hcast : ((toNat q : ℤ) : ℚ) = ⌊q⌋ := by
    rw [toNat, Int.toNat_of_nonneg hfloor]
  have hle := Int.floor_le q
  rw [← hcast] at hle
  exact_mod_cast hle

end GelCli.Foundation.Binary64
