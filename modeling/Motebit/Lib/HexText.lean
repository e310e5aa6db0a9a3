/-
  Motebit.Lib.HexText — BYTES AND THEIR HEXADECIMAL TEXT.

  The reader is lenient, as `parseInt` is: it takes what digits a pair of characters starts
  with, and reads a pair that starts with none as zero.

  Main results:
    * `fromHex_toHex` — bytes read back.
    * `toHex_fromHex` — so does text of pairs of lower-case digits.
-/

import Motebit.Lib.Json

namespace Motebit.Lib

open List

/-! ## §1. Reading -/

/-- White space, as `parseInt` skips it. -/
def isSpaceUnit (u : CodeUnit) : Bool :=
  u.val ∈ [0x09, 0x0A, 0x0B, 0x0C, 0x0D, 0x20, 0xA0, 0x1680, 0x2028, 0x2029, 0x202F, 0x205F,
    0x3000, 0xFEFF] || (0x2000 ≤ u.val && u.val ≤ 0x200A)

/-- The value of a hexadecimal digit of either case. -/
def hexUnit (u : CodeUnit) : Option Nat :=
  if 48 ≤ u.val ∧ u.val ≤ 57 then some (u.val - 48)
  else if 97 ≤ u.val ∧ u.val ≤ 102 then some (u.val - 87)
  else if 65 ≤ u.val ∧ u.val ≤ 70 then some (u.val - 55)
  else none

/-- The number the leading digits stand for, where there are any. -/
def leadingHex (s : Text) : Option Nat :=
  match s.map hexUnit |>.takeWhile Option.isSome with
  | [] => none
  | digits => some (digits.foldl (fun n d => 16 * n + d.getD 0) 0)

/-- Without a `0x` in front. -/
def dropRadix : Text → Text
  | zero :: x :: rest =>
    if zero.val = 48 ∧ (x.val = 120 ∨ x.val = 88) then rest else zero :: x :: rest
  | s => s

/-- `parseInt(s, 16)`; `none` is NaN. -/
def parseHex (s : Text) : Option Int :=
  match s.dropWhile isSpaceUnit with
  | sign :: rest =>
    if sign.val = 45 then (leadingHex (dropRadix rest)).map fun n => -(n : Int)
    else if sign.val = 43 then (leadingHex (dropRadix rest)).map fun n => (n : Int)
    else (leadingHex (dropRadix (sign :: rest))).map fun n => (n : Int)
  | [] => none

/-- The bytes of a text, a pair of characters each: what is stored is taken modulo 256, NaN as
    zero, and a last odd character falls outside the array. -/
def hexBytes : Text → List UInt8
  | a :: b :: rest => UInt8.ofInt ((parseHex [a, b]).getD 0) :: hexBytes rest
  | _ => []

def fromHex (hex : Text) : ByteArray := (hexBytes hex).toByteArray

def toHex (bytes : ByteArray) : Text := toText (bytesToHex bytes)

/-! ## §2. The round trip -/

/-- The two characters of a byte. -/
def hexPair (b : UInt8) : Text := toText [hexChar (b.toNat / 16), hexChar (b.toNat % 16)]

theorem toHex_eq (bytes : ByteArray) : toHex bytes = bytes.data.toList.flatMap hexPair := by
  unfold toHex toText bytesToHex
  rw [flatMap_assoc]
  rfl

theorem utf16_hexChar : ∀ n < 16, utf16 (hexChar n) = [Fin.ofNat 65536 (if n < 10 then 48 + n else 87 + n)] := by
  decide

theorem parseHex_pair : ∀ m < 16, ∀ n < 16,
    parseHex [Fin.ofNat 65536 (if m < 10 then 48 + m else 87 + m),
      Fin.ofNat 65536 (if n < 10 then 48 + n else 87 + n)] = some ((16 * m + n : Nat) : Int) := by
  decide

theorem hexPair_eq (b : UInt8) : hexPair b =
    [Fin.ofNat 65536 (if b.toNat / 16 < 10 then 48 + b.toNat / 16 else 87 + b.toNat / 16),
      Fin.ofNat 65536 (if b.toNat % 16 < 10 then 48 + b.toNat % 16 else 87 + b.toNat % 16)] := by
  have hb := b.toNat_lt
  have hpair : hexPair b = utf16 (hexChar (b.toNat / 16)) ++ utf16 (hexChar (b.toNat % 16)) := by
    simp [hexPair, toText]
  rw [hpair, utf16_hexChar _ (by omega), utf16_hexChar _ (by omega)]
  rfl

theorem parse_hexPair (b : UInt8) : UInt8.ofInt ((parseHex (hexPair b)).getD 0) = b := by
  have hb := b.toNat_lt
  have hvalue : 16 * (b.toNat / 16) + b.toNat % 16 = b.toNat := by omega
  have hmod : ((b.toNat : Int) % 2 ^ 8).toNat = b.toNat := by omega
  rw [hexPair_eq, parseHex_pair _ (by omega) _ (by omega), Option.getD_some, hvalue]
  show UInt8.ofNat ((b.toNat : Int) % 2 ^ 8).toNat = b
  rw [hmod]
  exact UInt8.ofNat_toNat

theorem hexBytes_pair (b : UInt8) (rest : Text) : hexBytes (hexPair b ++ rest) = b :: hexBytes rest := by
  have hread := parse_hexPair b
  rw [hexPair_eq] at hread ⊢
  simp only [cons_append, nil_append, hexBytes, hread]

theorem hexBytes_flatMap (bytes : List UInt8) : hexBytes (bytes.flatMap hexPair) = bytes := by
  induction bytes with
  | nil => rfl
  | cons b bytes ih => rw [flatMap_cons, hexBytes_pair, ih]

/-- **Bytes read back.** -/
@[simp] theorem fromHex_toHex (bytes : ByteArray) : fromHex (toHex bytes) = bytes := by
  unfold fromHex
  rw [toHex_eq, hexBytes_flatMap]
  apply ByteArray.ext
  rw [data_toByteArray]

def isLowerDigit (u : CodeUnit) : Prop := (48 ≤ u.val ∧ u.val ≤ 57) ∨ (97 ≤ u.val ∧ u.val ≤ 102)

theorem isLowerDigit.value {u : CodeUnit} (h : isLowerDigit u) :
    ∃ n < 16, u = Fin.ofNat 65536 (if n < 10 then 48 + n else 87 + n) := by
  rcases h with ⟨hlow, hhigh⟩ | ⟨hlow, hhigh⟩
  · refine ⟨u.val - 48, by omega, Fin.ext ?_⟩
    rw [if_pos (by omega), Fin.val_ofNat]
    omega
  · refine ⟨u.val - 87, by omega, Fin.ext ?_⟩
    rw [if_neg (by omega), Fin.val_ofNat]
    omega

theorem exists_bytes (k : Nat) (s : Text) (hlength : s.length = 2 * k)
    (hdigits : ∀ u ∈ s, isLowerDigit u) : ∃ bytes : List UInt8, s = bytes.flatMap hexPair := by
  induction k generalizing s with
  | zero => exact ⟨[], eq_nil_of_length_eq_zero hlength⟩
  | succ k ih =>
    match s, hlength, hdigits with
    | a :: b :: rest, hlength, hdigits =>
      obtain ⟨m, hm, ha⟩ := (hdigits a mem_cons_self).value
      obtain ⟨n, hn, hb⟩ := (hdigits b (mem_cons_of_mem _ mem_cons_self)).value
      obtain ⟨bytes, hrest⟩ := ih rest (by simp only [length_cons] at hlength; omega)
        fun u hu => hdigits u (mem_cons_of_mem _ (mem_cons_of_mem _ hu))
      refine ⟨UInt8.ofNat (16 * m + n) :: bytes, ?_⟩
      have hvalue : (UInt8.ofNat (16 * m + n)).toNat = 16 * m + n := by
        rw [UInt8.toNat_ofNat']
        omega
      have hpair : hexPair (UInt8.ofNat (16 * m + n)) = [a, b] := by
        unfold hexPair toText
        rw [hvalue, show (16 * m + n) / 16 = m by omega, show (16 * m + n) % 16 = n by omega]
        simp only [flatMap_cons, flatMap_nil, utf16_hexChar m hm, utf16_hexChar n hn]
        rw [← ha, ← hb]
        rfl
      rw [flatMap_cons, hpair, hrest]
      rfl
    | [_], hlength, _ =>
      simp only [length_cons, length_nil] at hlength
      omega
    | [], hlength, _ =>
      simp only [length_nil] at hlength
      omega

/-- **Text of pairs of lower-case digits reads back.** -/
theorem toHex_fromHex {s : Text} {k : Nat} (hlength : s.length = 2 * k)
    (hdigits : ∀ u ∈ s, isLowerDigit u) : toHex (fromHex s) = s := by
  obtain ⟨bytes, rfl⟩ := exists_bytes k s hlength hdigits
  unfold fromHex
  rw [hexBytes_flatMap, toHex_eq, data_toByteArray]

end Motebit.Lib
