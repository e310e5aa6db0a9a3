/-
  Motebit.Encoding.Base58 — BASE58BTC: a carry array, big integers, and the way back.

  Translated from `packages/protocol/src/base58.ts` (`base58Encode`) and
  `packages/crypto/src/signing.ts` (`base58btcEncode`, `base58btcDecode`, and the `did:key`
  form over them).  The carry array works on JavaScript numbers: `<< 8` and `| 0` go through
  32-bit integers, and the quotient is rounded to a double before it is truncated.

  Main results: `carryInto_digits`, `base58btcEncode_eq`, `base58btcDecode_textOf`,
  `base58_codecs`.
-/

import Motebit.Lib.Double
import Motebit.Lib.Radix
import Motebit.Roster.KeyChain

namespace Motebit.Encoding

open Motebit.Lib List
open Motebit.Roster (txt BASE58_ALPHABET)
open Radix

/-! ## §1. Arithmetic on numbers -/

def toInt32 (n : ℤ) : ℤ := Int.bmod n (2 ^ 32)

def shl8 (x : ℤ) : ℤ := toInt32 (toInt32 x * 2 ^ 8)

/-- A number without its fraction. -/
def truncate (q : ℚ) : ℤ := if q < 0 then ⌈q⌉ else ⌊q⌋

def div58 (carry : ℤ) : ℤ := toInt32 (truncate (Double.nearest (carry / 58)))

theorem toInt32_eq {n : ℤ} (h0 : 0 ≤ n) (h : n < 2 ^ 31) : toInt32 n = n := by
  apply Int.bmod_eq_of_le <;> norm_num <;> omega

theorem shl8_eq {x : ℤ} (h0 : 0 ≤ x) (h : x < 2 ^ 23) : shl8 x = x * 256 := by
  unfold shl8
  rw [toInt32_eq h0 (by omega), toInt32_eq (by omega) (by omega)]
  norm_num

theorem div58_eq {c : ℕ} (h : c < 2 ^ 31) : div58 c = (c / 58 : ℕ) := by
  have hfloor : ⌊Double.nearest (((c : ℤ) : ℚ) / 58)⌋ = (c / 58 : ℕ) := by
    have := Double.floor_nearest_div (n := c) (d := 58) (by omega) (by norm_num)
    exact this
  have hpos : 0 ≤ Double.nearest (((c : ℤ) : ℚ) / 58) := by
    rw [← Int.floor_nonneg, hfloor]
    omega
  unfold div58 truncate
  rw [if_neg (not_lt.mpr hpos), hfloor]
  exact toInt32_eq (by omega) (by omega)

theorem div58_lt {carry : ℤ} (h : 0 < carry) : div58 carry < carry := by
  by_cases hsmall : carry < 2 ^ 31
  · obtain ⟨c, rfl⟩ := Int.eq_ofNat_of_zero_le h.le
    rw [div58_eq (by omega)]
    omega
  · have hword : div58 carry < (((2 ^ 32 : ℕ) : ℤ) + 1) / 2 := Int.bmod_lt (by norm_num)
    omega

/-! ## §2. The carry array -/

/-- `ALPHABET` of the protocol package. -/
def ALPHABET : Text := txt "123456789ABCDEFGHJKLMNPQRSTUVWXYZabcdefghijkmnopqrstuvwxyz"

def pushCarry (carry : ℤ) : List ℤ :=
  if carry > 0 then carry.tmod 58 :: pushCarry (div58 carry) else []
termination_by carry.toNat
decreasing_by
  have := @div58_lt carry (by omega)
  omega

/-- The loops of one byte: over the digits, then the pushes behind them. -/
def carryInto (carry : ℤ) : List ℤ → List ℤ
  | [] => pushCarry carry
  | digit :: digits =>
    let sum := carry + shl8 digit
    sum.tmod 58 :: carryInto (div58 sum) digits

def base58Encode (bytes : List UInt8) : Text :=
  if bytes.length = 0 then []
  else
    let zeros := (bytes.takeWhile (· == 0)).length
    let digits := (bytes.drop zeros).foldl (fun digits b => carryInto b.toNat digits) []
    List.replicate zeros 49 ++ digits.reverse.map fun digit => ALPHABET.getD digit.toNat 0

/-- A step of the loops that goes through 32-bit integers. -/
inductive Op
  /-- `digit << 8`. -/
  | shift (digit : ℤ)
  /-- `(carry / 58) | 0`. -/
  | quotient (carry : ℤ)

/-- The operand and what is made of it stay below `2³¹`, and nothing is lost. -/
def Op.Exact : Op → Prop
  | .shift digit => 0 ≤ digit ∧ shl8 digit = digit * 256 ∧ digit * 256 < 2 ^ 31
  | .quotient carry => 0 ≤ carry ∧ carry < 2 ^ 31 ∧ div58 carry = carry / 58

def pushOps (carry : ℤ) : List Op :=
  if carry > 0 then .quotient carry :: pushOps (div58 carry) else []
termination_by carry.toNat
decreasing_by
  have := @div58_lt carry (by omega)
  omega

/-- The steps of `carryInto`. -/
def carryOps (carry : ℤ) : List ℤ → List Op
  | [] => pushOps carry
  | digit :: digits =>
    let sum := carry + shl8 digit
    .shift digit :: .quotient sum :: carryOps (div58 sum) digits

/-- The steps of the outer loop, from some digits on. -/
def encodeOps (digits : List ℤ) : List UInt8 → List Op
  | [] => []
  | b :: bytes => carryOps b.toNat digits ++ encodeOps (carryInto b.toNat digits) bytes

def base58EncodeOps (bytes : List UInt8) : List Op :=
  encodeOps [] (bytes.drop (bytes.takeWhile (· == 0)).length)

/-! ## §3. Big integers -/

/-- The loop of `base58btcEncode`. -/
def encodeValue (value : ℕ) (result : Text) : Text :=
  if value > 0 then encodeValue (value / 58) (BASE58_ALPHABET.getD (value % 58) 0 :: result)
  else result

def base58btcEncode (bytes : List UInt8) : Text :=
  let zeros := (bytes.takeWhile (· == 0)).length
  let value := bytes.foldl (fun value b => value * 256 + b.toNat) 0
  List.replicate zeros (BASE58_ALPHABET.getD 0 0) ++ encodeValue value []

/-- The loop of `base58btcDecode` over the characters; an error is a throw. -/
def decodeValue (value : ℕ) : Text → Except Text ℕ
  | [] => .ok value
  | u :: rest =>
    if u ∈ BASE58_ALPHABET then decodeValue (value * 58 + BASE58_ALPHABET.idxOf u) rest
    else .error (txt "Invalid base58 character: " ++ [u])

/-- The bytes of the value in hexadecimal, put in front one by one. -/
def hexOf (value : ℕ) (hex : List Text) : List Text :=
  if value > 0 then hexOf (value >>> 8) (hexPair (UInt8.ofNat (value &&& 0xff)) :: hex)
  else hex
termination_by value
decreasing_by
  rw [Nat.shiftRight_eq_div_pow]
  omega

def base58btcDecode (str : Text) : Except Text (List UInt8) :=
  let zeros := (str.takeWhile (· == BASE58_ALPHABET.getD 0 0)).length
  (decodeValue 0 str).map fun value =>
    List.replicate zeros 0 ++ (hexOf value []).map fun h => UInt8.ofInt ((parseHex h).getD 0)

/-! ## §4. The carry loop on the digits of a number -/

/-- The digits of a number, least significant first, as the array holds them. -/
def digitsOf (n : ℕ) : List ℤ := (Nat.digits 58 n).map fun d : ℕ => (d : ℤ)

theorem digitsOf_zero : digitsOf 0 = [] := by simp [digitsOf]

theorem digitsOf_pos {n : ℕ} (h : 0 < n) : digitsOf n = ((n % 58 : ℕ) : ℤ) :: digitsOf (n / 58) := by
  unfold digitsOf
  rw [Nat.digits_def' (by norm_num) h, map_cons]

theorem pushCarry_eq {c : ℕ} (h : c < 2 ^ 31) :
    pushCarry c = digitsOf c ∧ ∀ op ∈ pushOps c, op.Exact := by
  induction c using Nat.strongRecOn with
  | ind c ih =>
    rw [pushCarry, pushOps]
    rcases Nat.eq_zero_or_pos c with rfl | hpos
    · simp [digitsOf_zero]
    · have hrest := ih (c / 58) (by omega) (by omega)
      rw [if_pos (by omega), if_pos (by omega), div58_eq h, digitsOf_pos hpos, hrest.1]
      constructor
      · rfl
      · intro op hop
        rcases mem_cons.mp hop with rfl | hop
        · refine ⟨by omega, by omega, ?_⟩
          rw [div58_eq h]
          omega
        · exact hrest.2 op hop

/-- **One byte**: the array of `n` becomes that of `256 · n + c`, exactly. -/
theorem carryInto_digits (n : ℕ) : ∀ c : ℕ, c < 256 →
    carryInto c (digitsOf n) = digitsOf (256 * n + c) ∧
      ∀ op ∈ carryOps c (digitsOf n), op.Exact := by
  induction n using Nat.strongRecOn with
  | ind n ih =>
    intro c hc
    rcases Nat.eq_zero_or_pos n with rfl | hpos
    · rw [digitsOf_zero, carryInto, carryOps, Nat.mul_zero, Nat.zero_add]
      exact pushCarry_eq (by omega)
    · -- the sum and its carry: at most 255 + 57 · 256, and at most 255 again
      have hshift : shl8 ((n % 58 : ℕ) : ℤ) = ((n % 58 : ℕ) : ℤ) * 256 :=
        shl8_eq (by omega) (by omega)
      have hsum : (c : ℤ) + shl8 ((n % 58 : ℕ) : ℤ) = ((c + n % 58 * 256 : ℕ) : ℤ) := by
        rw [hshift]
        push_cast
        rfl
      have hquot := div58_eq (c := c + n % 58 * 256) (by omega)
      have hrest := ih (n / 58) (by omega) ((c + n % 58 * 256) / 58) (by omega)
      rw [digitsOf_pos hpos, carryInto, carryOps, hsum, hquot, hrest.1]
      constructor
      · have hmod : (256 * n + c) % 58 = (c + n % 58 * 256) % 58 := by omega
        have hdiv : (256 * n + c) / 58 = 256 * (n / 58) + (c + n % 58 * 256) / 58 := by omega
        rw [digitsOf_pos (n := 256 * n + c) (by omega), hmod, hdiv]
        rfl
      · intro op hop
        rcases mem_cons.mp hop with rfl | hop
        · exact ⟨by omega, hshift, by omega⟩
        rcases mem_cons.mp hop with rfl | hop
        · refine ⟨by omega, by omega, ?_⟩
          omega
        · exact hrest.2 op hop

/-- **The outer loop**: the array of the number read so far. -/
theorem foldl_carryInto (bytes : List UInt8) : ∀ n : ℕ,
    bytes.foldl (fun digits b => carryInto b.toNat digits) (digitsOf n) =
        digitsOf (bytes.foldl (fun value b => value * 256 + b.toNat) n) ∧
      ∀ op ∈ encodeOps (digitsOf n) bytes, op.Exact := by
  induction bytes with
  | nil =>
    intro n
    exact ⟨rfl, by simp [encodeOps]⟩
  | cons b bytes ih =>
    intro n
    have hbyte := carryInto_digits n b.toNat b.toNat_lt
    have hnext : 256 * n + b.toNat = n * 256 + b.toNat := by omega
    rw [hnext] at hbyte
    have hrest := ih (n * 256 + b.toNat)
    rw [foldl_cons, foldl_cons, encodeOps, hbyte.1]
    refine ⟨hrest.1, ?_⟩
    exact forall_mem_append.mpr ⟨hbyte.2, hrest.2⟩

/-! ## §5. One change of base -/

def textOf (digits : List ℕ) : Text := digits.map fun d => BASE58_ALPHABET.getD d 0

/-- Bytes as base-256 digits. -/
def numbers (bytes : List UInt8) : List ℕ := bytes.map UInt8.toNat

theorem numbers_lt (bytes : List UInt8) : ∀ d ∈ numbers bytes, d < 256 := by
  intro d hd
  obtain ⟨b, -, rfl⟩ := mem_map.mp hd
  exact b.toNat_lt

theorem ofNat_numbers (bytes : List UInt8) : (numbers bytes).map UInt8.ofNat = bytes := by
  unfold numbers
  rw [map_map]
  exact map_id'' (fun _ => UInt8.ofNat_toNat) bytes

variable {digits : List ℕ}

theorem numbers_ofNat (h : ∀ d ∈ digits, d < 256) : numbers (digits.map UInt8.ofNat) = digits := by
  have hid : digits.map (UInt8.toNat ∘ UInt8.ofNat) = digits.map id :=
    map_congr_left fun d hd => UInt8.toNat_ofNat_of_lt' (h d hd)
  unfold numbers
  rw [map_map, hid, map_id]

theorem beq_zero_toNat : ((· == 0) ∘ UInt8.toNat) = fun b : UInt8 => b == 0 := by
  funext b
  rw [Function.comp_apply, Bool.eq_iff_iff, beq_iff_eq, beq_iff_eq, ← UInt8.toNat_inj]
  rfl

theorem leadingZeros_numbers (bytes : List UInt8) :
    leadingZeros (numbers bytes) = (bytes.takeWhile (· == 0)).length := by
  unfold leadingZeros numbers
  rw [takeWhile_map, length_map, beq_zero_toNat]

theorem foldl_bytes (bytes : List UInt8) :
    bytes.foldl (fun value b => value * 256 + b.toNat) 0 = value 256 (numbers bytes) := by
  rw [value, numbers, foldl_map]

theorem encodeValue_eq (value : ℕ) : ∀ result : Text,
    encodeValue value result = textOf (Nat.digits 58 value).reverse ++ result := by
  induction value using Nat.strongRecOn with
  | ind value ih =>
    intro result
    rw [encodeValue]
    rcases Nat.eq_zero_or_pos value with rfl | hpos
    · simp [textOf]
    · rw [if_pos hpos, ih (value / 58) (by omega), Nat.digits_def' (by norm_num) hpos]
      simp [textOf]

/-- **The encoder over big integers is a change of base.** -/
theorem base58btcEncode_eq (bytes : List UInt8) :
    base58btcEncode bytes = textOf (rebase 256 58 (numbers bytes)) := by
  unfold base58btcEncode
  dsimp only
  rw [foldl_bytes, encodeValue_eq, append_nil, rebase, leadingZeros_numbers]
  simp [textOf]

theorem digitsOf_text (n : ℕ) :
    ((digitsOf n).reverse.map fun digit => ALPHABET.getD digit.toNat 0) =
      textOf (Nat.digits 58 n).reverse := by
  unfold digitsOf textOf
  rw [← map_reverse, map_map]
  rfl

/-- **So is the carry array.** -/
theorem base58Encode_eq (bytes : List UInt8) :
    base58Encode bytes = textOf (rebase 256 58 (numbers bytes)) := by
  unfold base58Encode
  split_ifs with hempty
  · obtain rfl := length_eq_zero_iff.mp hempty
    simp [numbers, textOf, rebase, leadingZeros, value]
  · have hloop := (foldl_carryInto (bytes.drop (bytes.takeWhile (· == 0)).length) 0).1
    -- the zeros in front add nothing to the number
    have hdrop : bytes.drop (bytes.takeWhile (· == 0)).length = bytes.dropWhile (· == 0) := by
      have hleft := @List.drop_left _ (bytes.takeWhile (· == 0)) (bytes.dropWhile (· == 0))
      rwa [takeWhile_append_dropWhile] at hleft
    have hvalue : value 256 (numbers (bytes.dropWhile (· == 0))) = value 256 (numbers bytes) := by
      rw [← value_dropWhile 256 (numbers bytes), numbers, numbers, dropWhile_map, beq_zero_toNat]
    rw [hdrop, digitsOf_zero, foldl_bytes, hvalue] at hloop
    dsimp only
    rw [hdrop, hloop, digitsOf_text, rebase, leadingZeros_numbers]
    have hone : (49 : CodeUnit) = BASE58_ALPHABET.getD 0 0 := by decide
    simp [textOf, hone]

/-! ## §6. Decoding -/

theorem idxOf_getD : ∀ d < 58, BASE58_ALPHABET.getD d 0 ∈ BASE58_ALPHABET ∧
    BASE58_ALPHABET.idxOf (BASE58_ALPHABET.getD d 0) = d := by
  decide

theorem decodeValue_textOf (digits : List ℕ) : ∀ value : ℕ, (∀ d ∈ digits, d < 58) →
    decodeValue value (textOf digits) =
      .ok (digits.foldl (fun value d => value * 58 + d) value) := by
  induction digits with
  | nil =>
    intro value _
    rfl
  | cons d digits ih =>
    intro value hlt
    obtain ⟨hmem, hidx⟩ := idxOf_getD d (hlt d (by simp))
    show decodeValue value (BASE58_ALPHABET.getD d 0 :: textOf digits) = _
    rw [decodeValue, if_pos hmem, hidx, ih _ fun d hd => hlt d (mem_cons_of_mem _ hd)]
    rfl

theorem getD_beq_zero : ∀ d < 58,
    (BASE58_ALPHABET.getD d 0 == BASE58_ALPHABET.getD 0 0) = (d == 0) := by
  decide

theorem takeWhile_textOf (digits : List ℕ) (hlt : ∀ d ∈ digits, d < 58) :
    ((textOf digits).takeWhile (· == BASE58_ALPHABET.getD 0 0)).length = leadingZeros digits := by
  unfold leadingZeros textOf
  induction digits with
  | nil => rfl
  | cons d digits ih =>
    have hrest := ih fun d hd => hlt d (mem_cons_of_mem _ hd)
    rw [map_cons, takeWhile_cons, takeWhile_cons, getD_beq_zero d (hlt d (by simp))]
    split
    · rw [length_cons, length_cons, hrest]
    · rfl

theorem hexOf_eq (value : ℕ) : ∀ hex : List Text, hexOf value hex =
    ((Nat.digits 256 value).reverse.map fun d => hexPair (UInt8.ofNat d)) ++ hex := by
  induction value using Nat.strongRecOn with
  | ind value ih =>
    intro hex
    rw [hexOf]
    rcases Nat.eq_zero_or_pos value with rfl | hpos
    · simp
    · have hshift : value >>> 8 = value / 256 := Nat.shiftRight_eq_div_pow value 8
      have hlow : value &&& 0xff = value % 256 := Nat.and_two_pow_sub_one_eq_mod value 8
      rw [if_pos hpos, hshift, hlow, ih (value / 256) (by omega),
        Nat.digits_def' (by norm_num) hpos]
      simp

/-- **The decoder is the change of base the other way.** -/
theorem base58btcDecode_textOf (hlt : ∀ d ∈ digits, d < 58) :
    base58btcDecode (textOf digits) = .ok ((rebase 58 256 digits).map UInt8.ofNat) := by
  have hvalue := decodeValue_textOf digits 0 hlt
  unfold base58btcDecode
  rw [hvalue, takeWhile_textOf digits hlt]
  show Except.ok (List.replicate (leadingZeros digits) 0 ++
    (hexOf (value 58 digits) []).map fun h => UInt8.ofInt ((parseHex h).getD 0)) = _
  rw [hexOf_eq, append_nil, map_map, rebase, map_append, map_replicate]
  have hbytes : ((fun h => UInt8.ofInt ((parseHex h).getD 0)) ∘
      fun d => hexPair (UInt8.ofNat d)) = UInt8.ofNat := by
    funext d
    exact parse_hexPair _
  rw [hbytes]
  rfl

theorem exists_textOf {s : Text} (h : ∀ u ∈ s, u ∈ BASE58_ALPHABET) :
    ∃ digits, (∀ d ∈ digits, d < 58) ∧ s = textOf digits := by
  refine ⟨s.map fun u => BASE58_ALPHABET.idxOf u, ?_, ?_⟩
  · intro d hd
    obtain ⟨u, hu, rfl⟩ := mem_map.mp hd
    exact idxOf_lt_length_of_mem (h u hu)
  · unfold textOf
    rw [map_map]
    symm
    have hid : s.map ((fun d => BASE58_ALPHABET.getD d 0) ∘ fun u => BASE58_ALPHABET.idxOf u) =
        s.map id := by
      apply map_congr_left
      intro u hu
      show BASE58_ALPHABET.getD (BASE58_ALPHABET.idxOf u) 0 = u
      rw [getD_eq_getElem?_getD, getElem?_idxOf (h u hu)]
      rfl
    rw [hid, map_id]

theorem decode_encode (bytes : List UInt8) :
    base58btcDecode (base58btcEncode bytes) = .ok bytes := by
  rw [base58btcEncode_eq, base58btcDecode_textOf (rebase_lt (by norm_num) _),
    rebase_rebase (by norm_num) (numbers_lt bytes), ofNat_numbers]

theorem encode_decode {s : Text} (h : ∀ u ∈ s, u ∈ BASE58_ALPHABET) :
    (base58btcDecode s).map base58btcEncode = .ok s := by
  obtain ⟨digits, hlt, rfl⟩ := exists_textOf h
  rw [base58btcDecode_textOf hlt]
  show Except.ok _ = Except.ok _
  rw [base58btcEncode_eq, numbers_ofNat (rebase_lt (by norm_num) _),
    rebase_rebase (by norm_num) hlt]

/-- **The two encoders agree, decoding inverts them, and the carry loop is exact**: every shift
    and every truncated quotient of it stays below `2³¹`. -/
theorem base58_codecs (bytes : List UInt8) (s : Text) (hs : ∀ u ∈ s, u ∈ BASE58_ALPHABET) :
    base58Encode bytes = base58btcEncode bytes ∧
    base58btcDecode (base58btcEncode bytes) = .ok bytes ∧
    (base58btcDecode s).map base58btcEncode = .ok s ∧
    ∀ op ∈ base58EncodeOps bytes, op.Exact := by
  refine ⟨?_, decode_encode bytes, encode_decode hs, ?_⟩
  · rw [base58Encode_eq, base58btcEncode_eq]
  · have hexact := (foldl_carryInto (bytes.drop (bytes.takeWhile (· == 0)).length) 0).2
    exact hexact

theorem base58_codecs_zeros :
    base58Encode [0, 0, 255] = base58btcEncode [0, 0, 255] ∧
    base58btcDecode (base58btcEncode [0, 0, 255]) = .ok [0, 0, 255] ∧
    (base58btcDecode (txt "115Q")).map base58btcEncode = .ok (txt "115Q") ∧
    ∀ op ∈ base58EncodeOps [0, 0, 255], op.Exact :=
  base58_codecs [0, 0, 255] (txt "115Q") (by
    have hall : (txt "115Q").all (fun u => decide (u ∈ BASE58_ALPHABET)) = true := by decide
    simpa using hall)

/-! ## §7. `did:key` -/

def didKeyToPublicKey (did : Text) : Except Text (List UInt8) := do
  if (txt "did:key:z").isPrefixOf did = false then
    .error (txt "Invalid did:key URI: must start with did:key:z")
  else
    let decoded ← base58btcDecode (did.drop (txt "did:key:z").length)
    if decoded.length ≠ 34 then
      .error (txt "Invalid did:key: expected 34 bytes (2 prefix + 32 key), got " ++
        toText (Nat.repr decoded.length).toList)
    else if decoded[0]? ≠ some 0xed ∨ decoded[1]? ≠ some 0x01 then
      .error (txt "Invalid did:key: multicodec prefix is not ed25519-pub (0xed01)")
    else .ok (decoded.drop 2)

def publicKeyToDidKey (publicKey : List UInt8) : Except Text Text :=
  if publicKey.length ≠ 32 then .error (txt "Ed25519 public key must be 32 bytes")
  else .ok (txt "did:key:z" ++ base58btcEncode (0xed :: 0x01 :: publicKey))

/-- A character's digit, as the reader of the key chain looks it up. -/
def digitOf (u : CodeUnit) : Option ℕ :=
  if u ∈ BASE58_ALPHABET then some (BASE58_ALPHABET.idxOf u) else none

end Motebit.Encoding
