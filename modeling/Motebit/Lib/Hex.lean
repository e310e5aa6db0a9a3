/-
  Motebit.Lib.Hex — HEXADECIMAL TEXT.

  Addresses, topics and amounts travel as `0x`-prefixed hexadecimal strings.  Two of them are
  compared after lower-casing, and a word is widened by zeros on its left.

  Main results:
    * `toLowerCase_of_hexWord` — lower-casing leaves a lower-case word alone.
    * `padZeros_inj` — words of one length stay apart when widened.
-/

import Mathlib.Tactic.Common

namespace Motebit.Lib

open List

/-- Lower-casing of ASCII text. -/
def toLowerCase (s : String) : String := String.ofList (s.toList.map Char.toLower)

/-- The value of one hexadecimal digit. -/
def hexDigit (c : Char) : Option Nat :=
  if '0' ≤ c ∧ c ≤ '9' then some (c.toNat - '0'.toNat)
  else if 'a' ≤ c ∧ c ≤ 'f' then some (c.toNat - 'a'.toNat + 10)
  else if 'A' ≤ c ∧ c ≤ 'F' then some (c.toNat - 'A'.toNat + 10)
  else none

def hexDigits (soFar : Nat) : List Char → Option Nat
  | [] => some soFar
  | c :: cs => match hexDigit c with
    | some d => hexDigits (16 * soFar + d) cs
    | none => none

/-- A lower-case hexadecimal digit. -/
def isLowerHex (c : Char) : Bool := ('0' ≤ c ∧ c ≤ '9') || ('a' ≤ c ∧ c ≤ 'f')

/-- `0x` and `n` lower-case hexadecimal digits. -/
def isHexWord (n : Nat) (s : String) : Bool :=
  match s.toList with
  | '0' :: 'x' :: ds => ds.length == n && ds.all isLowerHex
  | _ => false

theorem isHexWord_iff {n : Nat} {s : String} :
    isHexWord n s = true ↔
      ∃ ds, s.toList = '0' :: 'x' :: ds ∧ ds.length = n ∧ ∀ c ∈ ds, isLowerHex c = true := by
  unfold isHexWord
  split
  · next ds hs => simp [hs]
  next hno =>
  constructor
  · nofun
  · rintro ⟨ds, hs, -⟩
    exact absurd hs (hno ds)

theorem toLower_of_lowerHex {c : Char} (h : isLowerHex c = true) : c.toLower = c := by
  have hnot : ¬ ('A'.val ≤ c.val ∧ c.val ≤ 'Z'.val) := by
    rintro ⟨hA, hZ⟩
    simp only [isLowerHex, Bool.or_eq_true, decide_eq_true_eq] at h
    rcases h with ⟨-, h9⟩ | ⟨ha, -⟩
    · have hle : 'A'.val ≤ '9'.val := Nat.le_trans hA h9
      exact absurd hle (by decide)
    · have hle : 'a'.val ≤ 'Z'.val := Nat.le_trans ha hZ
      exact absurd hle (by decide)
  unfold Char.toLower
  simp only [ge_iff_le]
  rw [dif_neg hnot]

theorem toLowerCase_of_hexWord {n : Nat} {s : String} (h : isHexWord n s = true) :
    toLowerCase s = s := by
  obtain ⟨ds, hs, -, hds⟩ := isHexWord_iff.mp h
  have hsame : ds.map Char.toLower = ds :=
    (map_congr_left fun c hc => toLower_of_lowerHex (hds c hc)).trans (map_id ds)
  unfold toLowerCase
  rw [hs, map_cons, map_cons, hsame]
  rw [show Char.toLower '0' = '0' by decide, show Char.toLower 'x' = 'x' by decide, ← hs,
    String.ofList_toList]

def padZeros (width : Nat) (ds : List Char) : List Char :=
  List.replicate (width - ds.length) '0' ++ ds

theorem padZeros_inj {width : Nat} {ds ds' : List Char} (hlen : ds.length = ds'.length)
    (h : padZeros width ds = padZeros width ds') : ds = ds' := by
  unfold padZeros at h
  rw [hlen] at h
  exact append_cancel_left h

end Motebit.Lib
