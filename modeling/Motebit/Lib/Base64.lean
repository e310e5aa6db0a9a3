/-
  Motebit.Lib.Base64 — BYTES AS STRICT BASE64 TEXT.

  The standard alphabet, padded, nothing else between the characters.

  Main results: `decode_encode`, `isStrict_encode`.
-/

import Motebit.Lib.Json

namespace Motebit.Lib.Base64

open List

/-! ## §1. Characters -/

/-- The character of six bits. -/
def digit (n : Nat) : CodeUnit :=
  Fin.ofNat 65536 (if n < 26 then 65 + n else if n < 52 then 71 + n else if n < 62 then n - 4
    else if n = 62 then 43 else 47)

/-- `[A-Za-z0-9+/]`. -/
def isDigit (u : CodeUnit) : Bool :=
  (65 ≤ u.val && u.val ≤ 90) || (97 ≤ u.val && u.val ≤ 122) || (48 ≤ u.val && u.val ≤ 57) ||
    u.val == 43 || u.val == 47

/-- The six bits of a character. -/
def value (u : CodeUnit) : Nat :=
  if 65 ≤ u.val ∧ u.val ≤ 90 then u.val - 65
  else if 97 ≤ u.val ∧ u.val ≤ 122 then u.val - 71
  else if 48 ≤ u.val ∧ u.val ≤ 57 then u.val + 4
  else if u.val = 43 then 62
  else 63

/-- `=`. -/
def PAD : CodeUnit := 61

theorem value_digit : ∀ n < 64, value (digit n) = n := by decide

theorem isDigit_digit : ∀ n < 64, isDigit (digit n) = true := by decide

theorem digit_ne_pad : ∀ n < 64, digit n ≠ PAD := by decide

/-! ## §2. Texts -/

/-- The text of bytes, three at a time. -/
def encode : List UInt8 → Text
  | a :: b :: c :: rest =>
    digit (a.toNat / 4) :: digit (a.toNat % 4 * 16 + b.toNat / 16) ::
      digit (b.toNat % 16 * 4 + c.toNat / 64) :: digit (c.toNat % 64) :: encode rest
  | [a, b] =>
    [digit (a.toNat / 4), digit (a.toNat % 4 * 16 + b.toNat / 16), digit (b.toNat % 16 * 4), PAD]
  | [a] => [digit (a.toNat / 4), digit (a.toNat % 4 * 16), PAD, PAD]
  | [] => []

/-- The bytes of a strict text; the bits a pad leaves over are dropped. -/
def decode : Text → List UInt8
  | a :: b :: c :: d :: rest =>
    let first := UInt8.ofNat (value a * 4 + value b / 16)
    if c = PAD then [first]
    else
      let second := UInt8.ofNat (value b % 16 * 16 + value c / 4)
      if d = PAD then [first, second]
      else first :: second :: UInt8.ofNat (value c % 4 * 64 + value d) :: decode rest
  | _ => []

/-- `^(?:[A-Za-z0-9+/]{4})*(?:[A-Za-z0-9+/]{2}==|[A-Za-z0-9+/]{3}=)?$`. -/
def isStrict : Text → Bool
  | [] => true
  | a :: b :: c :: d :: rest =>
    isDigit a && isDigit b &&
      ((isDigit c && isDigit d && isStrict rest) ||
        (rest.isEmpty && d == PAD && (c == PAD || isDigit c)))
  | _ => false

/-! ## §3. The round trip -/

/-- **Bytes read back.** -/
theorem decode_encode (bytes : List UInt8) : decode (encode bytes) = bytes := by
  induction bytes using encode.induct with
  | case1 a b c rest ih =>
    have ha := a.toNat_lt
    have hb := b.toNat_lt
    have hc := c.toNat_lt
    rw [encode, decode, ih]
    rw [if_neg (digit_ne_pad _ (by omega)), if_neg (digit_ne_pad _ (by omega)),
      value_digit _ (by omega), value_digit _ (by omega), value_digit _ (by omega),
      value_digit _ (by omega)]
    have hfirst : a.toNat / 4 * 4 + (a.toNat % 4 * 16 + b.toNat / 16) / 16 = a.toNat := by omega
    have hsecond : (a.toNat % 4 * 16 + b.toNat / 16) % 16 * 16 +
        (b.toNat % 16 * 4 + c.toNat / 64) / 4 = b.toNat := by omega
    have hthird : (b.toNat % 16 * 4 + c.toNat / 64) % 4 * 64 + c.toNat % 64 = c.toNat := by omega
    rw [hfirst, hsecond, hthird, UInt8.ofNat_toNat, UInt8.ofNat_toNat, UInt8.ofNat_toNat]
  | case2 a b =>
    have ha := a.toNat_lt
    have hb := b.toNat_lt
    rw [encode, decode]
    dsimp only
    rw [if_neg (digit_ne_pad _ (by omega)), if_pos rfl, value_digit _ (by omega),
      value_digit _ (by omega), value_digit _ (by omega)]
    have hfirst : a.toNat / 4 * 4 + (a.toNat % 4 * 16 + b.toNat / 16) / 16 = a.toNat := by omega
    have hsecond : (a.toNat % 4 * 16 + b.toNat / 16) % 16 * 16 + b.toNat % 16 * 4 / 4 =
        b.toNat := by omega
    rw [hfirst, hsecond, UInt8.ofNat_toNat, UInt8.ofNat_toNat]
  | case3 a =>
    have ha := a.toNat_lt
    rw [encode, decode]
    rw [if_pos rfl, value_digit _ (by omega), value_digit _ (by omega)]
    have hfirst : a.toNat / 4 * 4 + a.toNat % 4 * 16 / 16 = a.toNat := by omega
    rw [hfirst, UInt8.ofNat_toNat]
  | case4 => rfl

/-- **What is written is strict.** -/
theorem isStrict_encode (bytes : List UInt8) : isStrict (encode bytes) = true := by
  induction bytes using encode.induct with
  | case1 a b c rest ih =>
    have ha := a.toNat_lt
    have hb := b.toNat_lt
    have hc := c.toNat_lt
    rw [encode, isStrict, ih, isDigit_digit _ (by omega), isDigit_digit _ (by omega),
      isDigit_digit _ (by omega), isDigit_digit _ (by omega)]
    rfl
  | case2 a b =>
    have ha := a.toNat_lt
    have hb := b.toNat_lt
    rw [encode, isStrict, isDigit_digit _ (by omega), isDigit_digit _ (by omega),
      isDigit_digit _ (by omega)]
    simp [PAD]
  | case3 a =>
    have ha := a.toNat_lt
    rw [encode, isStrict, isDigit_digit _ (by omega), isDigit_digit _ (by omega)]
    simp [PAD]
  | case4 => rfl

theorem encode_ne_nil {bytes : List UInt8} (h : bytes ≠ []) : encode bytes ≠ [] := by
  intro hnil
  apply h
  rw [← decode_encode bytes, hnil]
  rfl

theorem isStrict.plain {s : Text} (h : isStrict s = true) :
    ∀ u ∈ s, isDigit u = true ∨ u = PAD := by
  induction s using isStrict.induct with
  | case1 => simp
  | case2 a b c d rest ih =>
    simp only [isStrict, Bool.and_eq_true, Bool.or_eq_true, beq_iff_eq] at h
    obtain ⟨⟨ha, hb⟩, ⟨⟨hc, hd⟩, hrest⟩ | ⟨⟨hnil, hd⟩, hc⟩⟩ := h
    · intro u hu
      simp only [mem_cons] at hu
      rcases hu with rfl | rfl | rfl | rfl | hu
      · exact .inl ha
      · exact .inl hb
      · exact .inl hc
      · exact .inl hd
      · exact ih hrest u hu
    · obtain rfl := List.isEmpty_iff.mp hnil
      intro u hu
      simp only [mem_cons, not_mem_nil, or_false] at hu
      rcases hu with rfl | rfl | rfl | rfl
      · exact .inl ha
      · exact .inl hb
      · exact hc.symm
      · exact .inr hd
  | case3 => simp [isStrict] at h

end Motebit.Lib.Base64
