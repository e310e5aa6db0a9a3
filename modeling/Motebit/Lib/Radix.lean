/-
  Motebit.Lib.Radix — POSITIONAL NUMBERS THAT KEEP THEIR LEADING ZEROS.

  Digits are listed most significant first.  Converting to another base keeps the number and,
  apart from it, the number of zeros in front, so that nothing is lost.

  Main results: `rebase_rebase`.
-/

import Mathlib.Data.List.TakeWhile
import Mathlib.Data.Nat.Digits.Lemmas

namespace Motebit.Lib.Radix

open List

def value (base : ℕ) (digits : List ℕ) : ℕ := digits.foldl (fun v d => v * base + d) 0

def leadingZeros (digits : List ℕ) : ℕ := (digits.takeWhile (· == 0)).length

/-- The digits in another base, behind as many zeros. -/
def rebase (base base' : ℕ) (digits : List ℕ) : List ℕ :=
  List.replicate (leadingZeros digits) 0 ++ (Nat.digits base' (value base digits)).reverse

theorem value_eq_ofDigits (base : ℕ) (digits : List ℕ) :
    value base digits = Nat.ofDigits base digits.reverse := by
  unfold value
  induction digits using List.reverseRecOn with
  | nil => rfl
  | append_singleton digits d ih =>
    rw [foldl_concat, ih, reverse_append]
    simp only [reverse_singleton, singleton_append, Nat.ofDigits_cons]
    ring

theorem value_replicate_zero_append (base z : ℕ) (rest : List ℕ) :
    value base (List.replicate z 0 ++ rest) = value base rest := by
  rw [value_eq_ofDigits, value_eq_ofDigits, reverse_append, reverse_replicate,
    Nat.ofDigits_append_replicate_zero]

theorem leadingZeros_replicate_append (z : ℕ) {rest : List ℕ} (h : rest.head? ≠ some 0) :
    leadingZeros (List.replicate z 0 ++ rest) = z := by
  have hrest : rest.takeWhile (· == 0) = [] := by
    cases rest with
    | nil => rfl
    | cons => simpa [takeWhile_cons] using h
  unfold leadingZeros
  rw [takeWhile_append_of_pos (by simp), hrest]
  simp

theorem replicate_append_dropWhile (digits : List ℕ) :
    List.replicate (leadingZeros digits) 0 ++ digits.dropWhile (· == 0) = digits := by
  have hzeros : digits.takeWhile (· == 0) = List.replicate (leadingZeros digits) 0 := by
    rw [eq_replicate_iff]
    exact ⟨rfl, fun d hd => by simpa using mem_takeWhile_imp hd⟩
  rw [← hzeros, takeWhile_append_dropWhile]

theorem head?_dropWhile_ne (digits : List ℕ) : (digits.dropWhile (· == 0)).head? ≠ some 0 := by
  intro hhead
  have hnot := head?_dropWhile_not (· == 0) digits
  simp [hhead] at hnot

theorem value_dropWhile (base : ℕ) (digits : List ℕ) :
    value base (digits.dropWhile (· == 0)) = value base digits := by
  conv_rhs => rw [← replicate_append_dropWhile digits]
  rw [value_replicate_zero_append]

variable {digits : List ℕ}

theorem digits_value {base : ℕ} (hbase : 1 < base)
    (hlt : ∀ d ∈ digits, d < base) (h : digits.head? ≠ some 0) :
    (Nat.digits base (value base digits)).reverse = digits := by
  rw [value_eq_ofDigits, Nat.digits_ofDigits base hbase digits.reverse
    (fun d hd => hlt d (mem_reverse.mp hd)), reverse_reverse]
  intro hne hlast
  apply h
  rw [getLast_reverse] at hlast
  rw [head?_eq_some_head (by simpa using hne), hlast]

theorem value_digits (base n : ℕ) : value base (Nat.digits base n).reverse = n := by
  rw [value_eq_ofDigits, reverse_reverse, Nat.ofDigits_digits]

theorem head?_digits (base n : ℕ) : (Nat.digits base n).reverse.head? ≠ some 0 := by
  intro hhead
  rw [head?_reverse] at hhead
  have hmem := mem_of_getLast? hhead
  have hn : n ≠ 0 := by
    rintro rfl
    simp at hmem
  apply Nat.getLast_digit_ne_zero base hn
  rw [getLast?_eq_some_getLast (Nat.digits_ne_nil_iff_ne_zero.mpr hn)] at hhead
  exact Option.some.inj hhead

/-- **Converting there and back is the identity** on proper digits. -/
theorem rebase_rebase {base base' : ℕ} (hbase : 1 < base)
    (hlt : ∀ d ∈ digits, d < base) : rebase base' base (rebase base base' digits) = digits := by
  have hrest : ∀ d ∈ digits.dropWhile (· == 0), d < base := fun d hd =>
    hlt d ((dropWhile_sublist _).mem hd)
  have hback := digits_value hbase hrest (head?_dropWhile_ne digits)
  rw [value_dropWhile] at hback
  unfold rebase
  rw [leadingZeros_replicate_append _ (head?_digits base' _), value_replicate_zero_append,
    value_digits, hback]
  exact replicate_append_dropWhile digits

theorem rebase_lt {base base' : ℕ} (hbase' : 1 < base') (digits : List ℕ) :
    ∀ d ∈ rebase base base' digits, d < base' := by
  intro d hd
  rcases mem_append.mp hd with hzero | hdigit
  · rw [eq_of_mem_replicate hzero]
    omega
  · exact Nat.digits_lt_base hbase' (mem_reverse.mp hdigit)

end Motebit.Lib.Radix
