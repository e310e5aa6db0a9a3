/-
  Motebit.Lib.HalfUp — ROUNDING HALF UP, to whole numbers and to a grid.

  `halfUp x` is the whole number nearest to `x`, a half going up; `halfUpTo k x` the nearest
  multiple of `1 / k`.

  Main results:
    * `halfUp_eq_iff` — what rounds to a whole number.
    * `halfUp_mono`, `halfUpTo_mono` — rounding keeps the order.
    * `halfUpTo_of_grid` — a multiple of `1 / k` stays.
-/

import Mathlib.Algebra.Order.Floor.Ring
import Mathlib.Tactic.Positivity
import Mathlib.Tactic.Ring

namespace Motebit.Lib

variable {K : Type} [Field K] [LinearOrder K] [IsStrictOrderedRing K] [FloorRing K]

/-! ## §1. To whole numbers -/

/-- The nearest whole number, a half going up. -/
def halfUp (x : K) : ℤ := ⌊x + 1 / 2⌋

theorem halfUp_eq_iff {x : K} {n : ℤ} : halfUp x = n ↔ (n : K) - 1 / 2 ≤ x ∧ x < n + 1 / 2 := by
  unfold halfUp
  rw [Int.floor_eq_iff]
  constructor
  · rintro ⟨hle, hlt⟩
    constructor <;> linarith
  · rintro ⟨hle, hlt⟩
    constructor <;> linarith

theorem halfUp_mono {x y : K} (h : x ≤ y) : halfUp x ≤ halfUp y := by
  apply Int.floor_mono
  linarith

@[simp] theorem halfUp_intCast (n : ℤ) : halfUp (n : K) = n := by
  rw [halfUp_eq_iff]
  constructor <;> linarith

theorem halfUp_add_int (x : K) (n : ℤ) : halfUp (x + n) = halfUp x + n := by
  unfold halfUp
  rw [show x + n + 1 / 2 = x + 1 / 2 + n by ring, Int.floor_add_intCast]

theorem halfUp_nonneg {x : K} (h : 0 ≤ x) : 0 ≤ halfUp x := by
  have h' := halfUp_mono h
  rw [← Int.cast_zero, halfUp_intCast] at h'
  exact h'

/-! ## §2. To a grid -/

/-- The nearest multiple of `1 / k`. -/
def halfUpTo (k : ℕ) (x : K) : K := halfUp (x * k) / k

variable {k : ℕ}

theorem halfUpTo_mono {x y : K} (h : x ≤ y) : halfUpTo k x ≤ halfUpTo k y := by
  have hk : (0 : K) ≤ k := Nat.cast_nonneg k
  apply div_le_div_of_nonneg_right _ hk
  exact_mod_cast halfUp_mono (mul_le_mul_of_nonneg_right h hk)

theorem halfUpTo_of_grid (hk : 0 < k) (m : ℤ) : halfUpTo k ((m : K) / k) = m / k := by
  have hk' : (k : K) ≠ 0 := by exact_mod_cast hk.ne'
  unfold halfUpTo
  rw [div_mul_cancel₀ _ hk', halfUp_intCast]

theorem halfUpTo_intCast (hk : 0 < k) (n : ℤ) : halfUpTo k (n : K) = n := by
  have hk' : (k : K) ≠ 0 := by exact_mod_cast hk.ne'
  have h := halfUpTo_of_grid (K := K) hk (n * k)
  rwa [show (((n * k : ℤ) : K)) / k = n by push_cast; field_simp] at h

theorem halfUpTo_sub (hk : 0 < k) (m : ℤ) (x : K) :
    halfUpTo k ((m : K) / k - halfUpTo k x) = (m : K) / k - halfUpTo k x := by
  have h := halfUpTo_of_grid (K := K) hk (m - halfUp (x * k))
  unfold halfUpTo at h ⊢
  rw [← sub_div]
  rwa [Int.cast_sub] at h

end Motebit.Lib
