/-
  Motebit.Lib.Utf8 — JAVASCRIPT STRINGS AS UTF-8, cut at one character.

  Main results:
    * `splitOn_encodeText` — cutting at an ASCII character, before encoding or after it.
-/

import Motebit.Lib.Json

namespace Motebit.Lib.Utf8

open List

/-! ## §1. Encoding -/

def encode (s : List Char) : List UInt8 := s.flatMap String.utf8EncodeChar

/-- The characters of a string; a lone surrogate becomes the replacement character. -/
def scalars : Text → List Char
  | high :: low :: rest =>
    if high.isHigh && low.isLow then pairChar high low :: scalars rest
    else (if high.isHigh || high.isLow then '\uFFFD' else Char.ofNat high.val) ::
      scalars (low :: rest)
  | [u] => [if u.isHigh || u.isLow then '\uFFFD' else Char.ofNat u.val]
  | [] => []

/-- `Buffer.from(s, "utf8")`. -/
def encodeText (s : Text) : List UInt8 := encode (scalars s)

/-! ## §2. The cut -/

theorem not_mem_of_mem_splitOn {α : Type} [DecidableEq α] {sep : α} {l s : List α}
    (h : s ∈ l.splitOn sep) : sep ∉ s := by
  induction l generalizing s with
  | nil => simp_all
  | cons a l ih =>
    rw [splitOn_cons_eq_if_modifyHead] at h
    split at h
    · rcases mem_cons.mp h with rfl | hs
      · simp
      · exact ih hs
    · next hne =>
      cases hsplit : l.splitOn sep with
      | nil => exact absurd hsplit (splitOn_ne_nil _ _)
      | cons =>
        rw [hsplit] at ih h
        rcases mem_cons.mp h with rfl | hs
        · rw [mem_cons, not_or]
          exact ⟨fun heq => hne (by simp [heq]), ih mem_cons_self⟩
        · exact ih (mem_cons_of_mem _ hs)

/-- An ASCII character that is no surrogate. -/
structure Cut where
  unit : CodeUnit
  byte : UInt8
  char : Char
  unit_eq : unit.val = char.toNat
  byte_eq : byte.toNat = char.toNat
  ascii : char.toNat < 128

theorem Cut.of_mem (cut : Cut) {c : Char} (h : cut.byte ∈ String.utf8EncodeChar c) :
    c = cut.char := by
  have hbyte := cut.byte_eq
  have hascii := cut.ascii
  have hnat : ∀ n, cut.byte = UInt8.ofNat n → n < 256 → n = cut.char.toNat := by
    intro n hn hlt
    rw [← hbyte, hn, UInt8.toNat_ofNat']
    omega
  apply Char.toNat_inj.mp
  show c.val.toNat = _
  unfold String.utf8EncodeChar at h
  dsimp only at h
  split at h
  · exact hnat _ (mem_singleton.mp h) (by omega)
  split at h
  · simp only [mem_cons, not_mem_nil, or_false] at h
    rcases h with h | h <;> have := hnat _ h (by omega) <;> omega
  split at h
  · simp only [mem_cons, not_mem_nil, or_false] at h
    rcases h with h | h | h <;> have := hnat _ h (by omega) <;> omega
  · simp only [mem_cons, not_mem_nil, or_false] at h
    rcases h with h | h | h | h <;> have := hnat _ h (by omega) <;> omega

theorem Cut.utf8EncodeChar (cut : Cut) : String.utf8EncodeChar cut.char = [cut.byte] := by
  have hascii : cut.char.val.toNat ≤ 127 := Nat.le_of_lt_succ cut.ascii
  unfold String.utf8EncodeChar
  rw [if_pos hascii]
  congr 1
  apply UInt8.toNat_inj.mp
  rw [UInt8.toNat_ofNat', cut.byte_eq]
  exact Nat.mod_eq_of_lt (lt_trans cut.ascii (by decide))

theorem Cut.scalars_append (cut : Cut) (s t : Text) :
    scalars (s ++ cut.unit :: t) = scalars s ++ cut.char :: scalars t := by
  have hval := cut.unit_eq
  have hascii := cut.ascii
  have hhigh : cut.unit.isHigh = false := by
    simp only [CodeUnit.isHigh, Bool.and_eq_false_iff, decide_eq_false_iff_not]
    omega
  have hlow : cut.unit.isLow = false := by
    simp only [CodeUnit.isLow, Bool.and_eq_false_iff, decide_eq_false_iff_not]
    omega
  have hchar : Char.ofNat cut.unit.val = cut.char := by rw [hval, Char.ofNat_toNat]
  have hhead : scalars (cut.unit :: t) = cut.char :: scalars t := by
    cases t with
    | nil | cons => simp [scalars, hhigh, hlow, hchar]
  induction s using scalars.induct with
  | case1 high low s hpair ih =>
    simp only [cons_append, scalars, hpair, if_true]
    rw [ih]
  | case2 high low s hpair ih =>
    rw [cons_append] at ih
    simp only [cons_append, scalars, hpair]
    rw [ih]
    rfl
  | case3 => simp [scalars, hlow, hhead]
  | case4 => exact hhead

theorem Cut.encodeText_append (cut : Cut) (s t : Text) :
    encodeText (s ++ cut.unit :: t) = encodeText s ++ cut.byte :: encodeText t := by
  unfold encodeText encode
  rw [cut.scalars_append, flatMap_append, flatMap_cons, cut.utf8EncodeChar]
  rfl

theorem Cut.not_mem_encodeText (cut : Cut) {s : Text} (h : cut.unit ∉ s) :
    cut.byte ∉ encodeText s := by
  have hchar : cut.char ∉ scalars s := by
    have hval := cut.unit_eq
    have hascii := cut.ascii
    have hne : ∀ u ∈ s, (if u.isHigh || u.isLow then '\uFFFD' else Char.ofNat u.val) ≠
        cut.char := by
      intro u hu heq
      split at heq
      · have hbig : ('\uFFFD').toNat < 128 := heq ▸ hascii
        exact absurd hbig (by decide)
      next hsingle =>
      apply h
      have hvalid : u.val.isValidChar := by
        simp only [CodeUnit.isHigh, CodeUnit.isLow, Bool.or_eq_true, Bool.and_eq_true,
          decide_eq_true_eq, not_or] at hsingle
        unfold Nat.isValidChar
        omega
      have hsame : u.val = cut.unit.val := by
        rw [hval, ← heq, toNat_ofNat hvalid]
      rwa [Fin.ext hsame] at hu
    induction s using scalars.induct with
    | case1 high low s hpair ih =>
      simp only [scalars, hpair, if_true, mem_cons, not_or]
      refine ⟨fun heq => ?_, ih (fun hmem => h (by simp [hmem])) fun u hu => hne u (by simp [hu])⟩
      rw [Bool.and_eq_true] at hpair
      have hbig := pairChar_toNat hpair.1 hpair.2
      rw [← heq] at hbig
      omega
    | case2 high low s hpair ih =>
      simp only [scalars, hpair, Bool.false_eq_true, if_false, mem_cons, not_or]
      refine ⟨fun heq => hne high (by simp) heq.symm, ?_⟩
      exact ih (fun hmem => h (mem_cons_of_mem _ hmem)) fun u hu =>
        hne u (mem_cons_of_mem _ hu)
    | case3 u =>
      simp only [scalars, mem_singleton]
      exact fun heq => hne u (by simp) heq.symm
    | case4 => simp [scalars]
  intro hmem
  obtain ⟨c, hc, hbyte⟩ := mem_flatMap.mp hmem
  rw [cut.of_mem hbyte] at hc
  exact hchar hc

/-- **Cutting before encoding or after it.** -/
theorem Cut.splitOn_encodeText (cut : Cut) (s : Text) :
    (encodeText s).splitOn cut.byte = (s.splitOn cut.unit).map encodeText := by
  have hjoin : ∀ parts : List Text, parts ≠ [] → encodeText ([cut.unit].intercalate parts) =
      [cut.byte].intercalate (parts.map encodeText) := by
    intro parts hne
    induction parts with
    | nil => exact absurd rfl hne
    | cons a parts ih =>
      cases parts with
      | nil => simp
      | cons =>
        rw [intercalate_cons_cons, append_assoc, singleton_append,
          cut.encodeText_append, ih (cons_ne_nil _ _)]
        simp
  have hparts := hjoin (s.splitOn cut.unit) (splitOn_ne_nil _ _)
  rw [intercalate_splitOn] at hparts
  rw [hparts, splitOn_intercalate]
  · intro l hl
    obtain ⟨part, hpart, rfl⟩ := mem_map.mp hl
    exact cut.not_mem_encodeText (not_mem_of_mem_splitOn hpart)
  · simp

end Motebit.Lib.Utf8
