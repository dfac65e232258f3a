/-
Rounding to a number of binary digits: to the nearest, and of two that are
as near to the one whose last digit is 0.

There are no bounds on the exponent, so nothing overflows and nothing is
too small; a number is rounded to a multiple of `unit`, the weight its last
digit would have. Integers of that many digits are not rounded
(`nearest_intCast`).
-/
import Mathlib.Data.Int.Log
import Mathlib.Data.Rat.Floor
import Mathlib.Tactic.Linarith
import Mathlib.Tactic.NormNum

namespace Rounding

/-- The integer nearest to a number; of two, the even one. -/
def roundEven (x : ℚ) : ℤ :=
  if Int.fract x < 1 / 2 then ⌊x⌋
  else if 1 / 2 < Int.fract x then ⌊x⌋ + 1
  else if ⌊x⌋ % 2 = 0 then ⌊x⌋ else ⌊x⌋ + 1

/-- The weight of the last of a number's first `p` binary digits. -/
def unit (p : ℕ) (x : ℚ) : ℚ := 2 ^ (Int.log 2 |x| + 1 - p)

/-- The number of `p` binary digits that is nearest. -/
def nearest (p : ℕ) (x : ℚ) : ℚ := roundEven (x / unit p x) * unit p x

theorem roundEven_intCast (n : ℤ) : roundEven n = n := by
  unfold roundEven
  rw [Int.fract_intCast, if_pos (by norm_num), Int.floor_intCast]

/-- The leading digit tells the weight of the last. -/
theorem unit_eq {p : ℕ} {x : ℚ} {e : ℤ} (hle : 2 ^ e ≤ |x|)
    (hlt : |x| < 2 ^ (e + 1)) : unit p x = 2 ^ (e + 1 - p) := by
  have hpos : 0 < |x| := lt_of_lt_of_le (zpow_pos two_pos e) hle
  have hlower : e ≤ Int.log 2 |x| :=
    (Int.zpow_le_iff_le_log one_lt_two hpos).1 (by exact_mod_cast hle)
  have hupper : Int.log 2 |x| < e + 1 :=
    (Int.lt_zpow_iff_log_lt one_lt_two hpos).1 (by exact_mod_cast hlt)
  have hlog : Int.log 2 |x| = e := by omega
  rw [unit, hlog]

/-- A multiple of the weight of its last digit stays. -/
theorem nearest_of_multiple {p : ℕ} {x : ℚ} {n : ℤ} (h : x = n * unit p x) :
    nearest p x = x := by
  have hne : unit p x ≠ 0 := (zpow_pos two_pos _).ne'
  have hdiv : x / unit p x = n := (div_eq_iff hne).2 h
  rw [nearest, hdiv, roundEven_intCast]
  exact h.symm

/-- Integers with no more than `p` digits stay. -/
theorem nearest_intCast {p : ℕ} {n : ℤ} (h : |n| < 2 ^ p) :
    nearest p n = n := by
  rcases eq_or_ne n 0 with rfl | hne
  · exact nearest_of_multiple (n := 0) (by norm_num)
  have hpos : (0 : ℚ) < |(n : ℚ)| := abs_pos.2 (by exact_mod_cast hne)
  have hlt : |(n : ℚ)| < (2 : ℕ) ^ (p : ℤ) := by exact_mod_cast h
  have hlog := (Int.lt_zpow_iff_log_lt one_lt_two hpos).1 hlt
  obtain ⟨k, hk⟩ := Int.eq_ofNat_of_zero_le
    (show 0 ≤ (p : ℤ) - 1 - Int.log 2 |(n : ℚ)| by omega)
  -- the last digit weighs 2 ^ -k
  have hunit : unit p n = (2 ^ k)⁻¹ := by
    have hexp : Int.log 2 |(n : ℚ)| + 1 - p = -k := by omega
    rw [unit, hexp, zpow_neg, zpow_natCast]
  refine nearest_of_multiple (n := n * 2 ^ k) ?_
  rw [hunit]
  push_cast
  rw [mul_inv_cancel_right₀ (by positivity)]

end Rounding
