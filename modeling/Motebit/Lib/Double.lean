/-
  Motebit.Lib.Double — QUOTIENTS IN BINARY64, rounded to the nearest double, ties to even.

  Only the range of the normal numbers is described: no overflow, no subnormals.

  Main results: `abs_nearest_sub_le`, `floor_nearest_div`.
-/

import Mathlib.Algebra.Order.Archimedean.Basic
import Mathlib.Data.Int.Log
import Mathlib.Tactic.Positivity

namespace Motebit.Lib.Double

/-! ## §1. Rounding -/

/-- The nearest integer, the even one of two. -/
def roundEven (q : ℚ) : ℤ :=
  let below := ⌊q⌋
  if q - below < 1 / 2 then below
  else if 1 / 2 < q - below then below + 1
  else if below % 2 = 0 then below
  else below + 1

/-- The distance of neighbouring doubles around a number. -/
def ulp (q : ℚ) : ℚ := 2 ^ (Int.log 2 |q| - 52)

/-- The double nearest to a number. -/
def nearest (q : ℚ) : ℚ := roundEven (q / ulp q) * ulp q

theorem abs_roundEven_sub_le (q : ℚ) : |(roundEven q : ℚ) - q| ≤ 1 / 2 := by
  have hlow := Int.floor_le q
  have hhigh := Int.lt_floor_add_one q
  unfold roundEven
  rw [abs_le]
  dsimp only
  split_ifs <;> push_cast <;> constructor <;> linarith

theorem roundEven_intCast (n : ℤ) : roundEven n = n := by
  simp [roundEven]

theorem ulp_pos (q : ℚ) : 0 < ulp q := by
  unfold ulp
  exact zpow_pos (by norm_num) _

theorem ulp_le {q : ℚ} (h : 0 < q) : ulp q ≤ q / 2 ^ 52 := by
  unfold ulp
  rw [zpow_sub₀ (by norm_num), abs_of_pos h]
  have hlog : (2 : ℚ) ^ Int.log 2 q ≤ q := by
    exact_mod_cast Int.zpow_log_le_self (b := 2) (by norm_num) h
  gcongr
  norm_num

/-- **Rounding moves a number by at most `2⁻⁵³` of it.** -/
theorem abs_nearest_sub_le {q : ℚ} (h : 0 < q) : |nearest q - q| ≤ q / 2 ^ 53 := by
  have hulp := ulp_pos q
  have hle := ulp_le h
  calc |nearest q - q|
      = |(roundEven (q / ulp q) - q / ulp q) * ulp q| := by
        unfold nearest
        congr 1
        field_simp
    _ = |(roundEven (q / ulp q) : ℚ) - q / ulp q| * ulp q := by
        rw [abs_mul, abs_of_pos hulp]
    _ ≤ 1 / 2 * ulp q := by
        gcongr
        exact abs_roundEven_sub_le _
    _ ≤ q / 2 ^ 53 := by linarith

theorem nearest_natCast {n : ℕ} (h : n < 2 ^ 53) : nearest n = n := by
  rcases Nat.eq_zero_or_pos n with rfl | hpos
  · simp [nearest, roundEven]
  -- its exponent is at most 52, so it is a whole number of units in the last place
  obtain ⟨k, hk⟩ : ∃ k : ℕ, Int.log 2 |(n : ℚ)| = 52 - k := by
    have hlog : Int.log 2 |(n : ℚ)| = Nat.log 2 n := by
      rw [Nat.abs_cast, Int.log_natCast]
    have hlt : Nat.log 2 n < 53 := Nat.log_lt_of_lt_pow (by omega) h
    exact ⟨52 - Nat.log 2 n, by omega⟩
  have hulp : ulp n = (2 ^ k : ℚ)⁻¹ := by
    unfold ulp
    rw [hk, show (52 - k - 52 : ℤ) = -k by ring, zpow_neg, zpow_natCast]
  have hwhole : (n : ℚ) / ulp n = ((n * 2 ^ k : ℕ) : ℤ) := by
    rw [hulp]
    push_cast
    field_simp
  unfold nearest
  rw [hwhole, roundEven_intCast, ← hwhole]
  have hpos := ulp_pos n
  field_simp

/-! ## §2. Quotients -/

/-- **The integer part of a rounded quotient** of integers below `2⁵³`: no quotient is rounded
    up to an integer, as the next one is farther than the rounding moves it. -/
theorem floor_nearest_div {n d : ℕ} (hn : n < 2 ^ 53) (hd : 0 < d) :
    ⌊nearest ((n : ℚ) / d)⌋ = (n / d : ℕ) := by
  have hd' : (0 : ℚ) < d := by exact_mod_cast hd
  have hsplit : (n : ℚ) = d * (n / d : ℕ) + (n % d : ℕ) := by
    exact_mod_cast (Nat.div_add_mod n d).symm
  rcases Nat.eq_zero_or_pos (n % d) with hzero | hpos
  · -- the quotient is an integer, and so a double
    have hquot : (n : ℚ) / d = (n / d : ℕ) := by
      rw [hzero] at hsplit
      field_simp
      push_cast at hsplit ⊢
      linarith
    have hlt : n / d < 2 ^ 53 := lt_of_le_of_lt (Nat.div_le_self n d) hn
    rw [hquot, nearest_natCast hlt]
    exact Int.floor_natCast _
  · have hq : 0 < (n : ℚ) / d := by
      have : (0 : ℚ) < n := by
        exact_mod_cast Nat.pos_of_ne_zero fun h => by simp [h] at hpos
      positivity
    have hnear := abs_le.mp (abs_nearest_sub_le hq)
    have hsmall : (n : ℚ) / d / 2 ^ 53 < 1 / d := by
      have hn' : (n : ℚ) < 2 ^ 53 := by exact_mod_cast hn
      rw [div_div, div_lt_div_iff₀ (by positivity) hd']
      nlinarith
    have hquot : (n : ℚ) / d = (n / d : ℕ) + (n % d : ℕ) / d := by
      field_simp
      linarith
    have hrest : (1 : ℚ) / d ≤ (n % d : ℕ) / d := by
      gcongr
      exact_mod_cast hpos
    have hlast : ((n % d : ℕ) : ℚ) / d ≤ 1 - 1 / d := by
      have hmod : ((n % d : ℕ) : ℚ) ≤ d - 1 := by
        have := Nat.mod_lt n hd
        have hle : n % d + 1 ≤ d := by omega
        have : ((n % d : ℕ) : ℚ) + 1 ≤ d := by exact_mod_cast hle
        linarith
      rw [div_le_iff₀ hd']
      field_simp
      linarith
    rw [Int.floor_eq_iff, Int.cast_natCast]
    constructor <;> linarith [hnear.1, hnear.2]

end Motebit.Lib.Double
