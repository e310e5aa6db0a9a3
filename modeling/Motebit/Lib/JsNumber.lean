/-
  Motebit.Lib.JsNumber — JAVASCRIPT NUMBERS, their arithmetic exact.

  A number is a rational one, an infinity or NaN; sums are not rounded.
-/

import Mathlib.Data.Rat.Floor

namespace Motebit.Lib.Js

inductive Number
  | nan
  | infinite (negative : Bool)
  | finite (q : ℚ)
  deriving DecidableEq

namespace Number

def ofNat (n : Nat) : Number := .finite n

def add : Number → ℚ → Number
  | .finite q, k => .finite (q + k)
  | n, _ => n

/-- `n % 2 === 0`. -/
def isEven : Number → Bool
  | .finite q => q == 2 * ((⌊q / 2⌋ : ℤ) : ℚ)
  | _ => false

def floorHalf : Number → Number
  | .finite q => .finite (⌊q / 2⌋ : ℤ)
  | n => n

def lt : Number → Number → Bool
  | .finite a, .finite b => a < b
  | .finite _, .infinite false => true
  | .infinite true, .finite _ => true
  | .infinite true, .infinite false => true
  | _, _ => false

/-- `n >= 0`. -/
def isNonNegative : Number → Bool
  | .finite q => 0 ≤ q
  | .infinite negative => !negative
  | .nan => false

theorem floor_half (n : Nat) : (⌊(n : ℚ) / 2⌋ : ℤ) = ((n / 2 : Nat) : ℤ) := by
  have hfloor := Rat.floor_natCast_div_natCast n 2
  rwa [Nat.cast_ofNat] at hfloor

@[simp] theorem floorHalf_ofNat (n : Nat) : (ofNat n).floorHalf = ofNat (n / 2) := by
  show Number.finite ((⌊(n : ℚ) / 2⌋ : ℤ) : ℚ) = .finite ((n / 2 : Nat) : ℚ)
  rw [floor_half, Int.cast_natCast]

@[simp] theorem isEven_ofNat (n : Nat) : (ofNat n).isEven = decide (n % 2 = 0) := by
  show ((n : ℚ) == 2 * ((⌊(n : ℚ) / 2⌋ : ℤ) : ℚ)) = _
  rw [floor_half, Int.cast_natCast, Bool.eq_iff_iff, beq_iff_eq, decide_eq_true_eq]
  have hcast : (2 : ℚ) * ((n / 2 : Nat) : ℚ) = ((2 * (n / 2) : Nat) : ℚ) := by push_cast; rfl
  rw [hcast, Nat.cast_inj]
  omega

@[simp] theorem add_one_ofNat (n : Nat) : (ofNat n).add 1 = ofNat (n + 1) := by
  show Number.finite ((n : ℚ) + 1) = .finite ((n + 1 : Nat) : ℚ)
  rw [Nat.cast_succ]

theorem sub_one_ofNat {n : Nat} (h : 0 < n) : (ofNat n).add (-1) = ofNat (n - 1) := by
  show Number.finite ((n : ℚ) + -1) = .finite ((n - 1 : Nat) : ℚ)
  rw [Nat.cast_pred h, sub_eq_add_neg]

@[simp] theorem lt_ofNat (m n : Nat) : (ofNat m).lt (ofNat n) = decide (m < n) := by
  show decide ((m : ℚ) < n) = decide (m < n)
  exact decide_eq_decide.mpr Nat.cast_lt

@[simp] theorem isNonNegative_ofNat (n : Nat) : (ofNat n).isNonNegative = true :=
  decide_eq_true (Nat.cast_nonneg n)

end Number

end Motebit.Lib.Js
