/-
  Motebit.Attestation.Der — THE DER READER OF THE ANDROID KEY DESCRIPTION.

  Translated from `packages/crypto-android-keystore/src/asn1.ts`.  `<<` and `|` are those of 32 bit
  words, so the length of a four byte field may come out negative.  Offsets are integers, and an
  offset that is not a number is `none`.  The texts of the errors leave out the numbers they quote.

  Main results: `fits_iff`, `key_description_ends`.
-/

import Mathlib.Algebra.Order.Ring.Int
import Motebit.Lib.Throws

namespace Motebit.Attestation

open Motebit.Lib List

/-! ## §1. One node -/

abbrev Bytes := List UInt8

abbrev Word := BitVec 32

/-- `bytes[i]`, which may be `undefined`. -/
def byteAt (bytes : Bytes) (i : Int) : Option UInt8 := if 0 ≤ i then bytes[i.toNat]? else none

/-- A byte under a bit operator, where `undefined` is zero. -/
def bits (b : Option UInt8) : Nat := b.elim 0 UInt8.toNat

/-- `(acc << k) | b`. -/
def shiftIn (k : Nat) (acc : Word) (b : Nat) : Word := acc <<< k ||| BitVec.ofNat 32 b

/-- Where a relative index of `subarray` stands. -/
def clamp (n : Nat) (i : Int) : Nat := if i < 0 then (n + i).toNat else min i.toNat n

def subarray (bytes : Bytes) (start stop : Int) : Bytes :=
  (bytes.take (clamp bytes.length stop)).drop (clamp bytes.length start)

structure DerNode where
  tagClass : Nat
  constructed : Bool
  tagNumber : Word
  contentBytes : Bytes

/-- The high tag number form: at most four bytes. -/
def readTagNumber (bytes : Bytes) (left : Nat) (tagNumber : Word) (i : Int) :
    Except String (Word × Int) :=
  if bytes.length ≤ i then .error "DER: truncated high-tag-number form"
  else
    match left with
    | 0 => .error "DER: high-tag-number form exceeds 4 bytes"
    | left + 1 =>
      let b := bits (byteAt bytes i)
      if b &&& 0x80 ≠ 0 then readTagNumber bytes left (shiftIn 7 tagNumber (b &&& 0x7f)) (i + 1)
      else .ok (shiftIn 7 tagNumber (b &&& 0x7f), i + 1)

/-- The tag at `offset`, and where the length field begins. -/
def readTag (bytes : Bytes) (offset : Int) : Except String (Word × Int) :=
  let tagByte := bits (byteAt bytes offset)
  if tagByte &&& 0x1f = 0x1f then readTagNumber bytes 4 0 (offset + 1)
  else .ok (BitVec.ofNat 32 (tagByte &&& 0x1f), offset + 1)

/-- The bytes of the long form. -/
def readLengthBytes (bytes : Bytes) : Nat → Word → Int → Except String (Word × Int)
  | 0, length, i => .ok (length, i)
  | n + 1, length, i =>
    if bytes.length ≤ i then .error "DER: truncated long-form length"
    else readLengthBytes bytes n (shiftIn 8 length (bits (byteAt bytes i))) (i + 1)

/-- The length field at `i`, and where the content begins. -/
def readLength (bytes : Bytes) (i : Int) : Except String (Option Int × Int) :=
  if bytes.length ≤ i then .error "DER: truncated length"
  else
    let lenByte := byteAt bytes i
    if bits lenByte &&& 0x80 = 0 then .ok (lenByte.map fun b => (b.toNat : Int), i + 1)
    else
      let lenBytes := bits lenByte &&& 0x7f
      if lenBytes = 0 then .error "DER: indefinite-length encoding not allowed in DER"
      else if 4 < lenBytes then .error "DER: long-form length exceeds 4 bytes"
      else (readLengthBytes bytes lenBytes 0 (i + 1)).map fun r => (some r.1.toInt, r.2)

/-- `readDerNode`: the node and `nextOffset`. -/
def readDerNode (bytes : Bytes) (offset : Int) : Except String (DerNode × Option Int) :=
  if bytes.length ≤ offset then .error "DER: read past end"
  else
    (readTag bytes offset).bind fun tag =>
      (readLength bytes tag.2).bind fun length =>
        let tagByte := bits (byteAt bytes offset)
        let node := DerNode.mk (tagByte >>> 6) (tagByte &&& 0x20 ≠ 0) tag.1
        match length.1 with
        | none => .ok (node (subarray bytes length.2 0), none)
        | some n =>
          if bytes.length < length.2 + n then .error "DER: content runs past buffer"
          else .ok (node (subarray bytes length.2 (length.2 + n)), some (length.2 + n))

/-! ## §2. A parse, and what it reads -/

/-- A parse: the nodes it reads, each with its input and offset, and how it ends; `none` where it
    has not ended within the fuel. -/
structure Parse (α : Type) where
  reads : List (Bytes × Int)
  result : Option (Except String α)

namespace Parse

variable {α β : Type}

def lift (x : Except String α) : Parse α := ⟨[], some x⟩

def bind (x : Parse α) (f : α → Parse β) : Parse β :=
  match x.result with
  | none => ⟨x.reads, none⟩
  | some (.error e) => ⟨x.reads, some (.error e)⟩
  | some (.ok a) => ⟨x.reads ++ (f a).reads, (f a).result⟩

instance : Monad Parse where
  pure a := lift (.ok a)
  bind := bind

def node (bytes : Bytes) (offset : Int) : Parse (DerNode × Option Int) :=
  ⟨[(bytes, offset)], some (readDerNode bytes offset)⟩

end Parse

/-- `readSequenceChildren`, from `offset` on; the fuel is for its loop. -/
def readSequenceChildren (fuel : Nat) (seqContent : Bytes) (offset : Option Int) :
    Parse (List DerNode) :=
  match offset with
  | none => return []
  | some o =>
    if seqContent.length ≤ o then return []
    else
      match fuel with
      | 0 => ⟨[], none⟩
      | fuel + 1 => do
        let r ← Parse.node seqContent o
        let rest ← readSequenceChildren fuel seqContent r.2
        return r.1 :: rest

/-! ## §3. The key description -/

def TAG_CLASS_UNIVERSAL : Nat := 0

def TAG_CLASS_CONTEXT : Nat := 2

def UTAG_BOOLEAN : Word := 1

def UTAG_INTEGER : Word := 2

def UTAG_OCTET_STRING : Word := 4

def UTAG_ENUMERATED : Word := 10

def UTAG_SEQUENCE : Word := 16

def AUTH_LIST_TAG_ROOT_OF_TRUST : Word := 704

def AUTH_LIST_TAG_ATTESTATION_APPLICATION_ID : Word := 709

structure RootOfTrust where
  verifiedBootKey : Bytes
  deviceLocked : Bool
  verifiedBootState : Int
  verifiedBootHash : Option Bytes

structure AuthorizationList where
  rootOfTrust : Option RootOfTrust
  attestationApplicationId : Option Bytes

structure KeyDescription where
  attestationVersion : Int
  attestationSecurityLevel : Int
  keyMintVersion : Int
  keyMintSecurityLevel : Int
  attestationChallenge : Bytes
  uniqueId : Bytes
  softwareEnforced : AuthorizationList
  hardwareEnforced : AuthorizationList

/-- The node is of this universal tag, or the text is thrown. -/
def expectUniversal (node : DerNode) (utag : Word) (message : String) : Except String Bytes :=
  if node.tagClass ≠ TAG_CLASS_UNIVERSAL ∨ node.tagNumber ≠ utag then .error message
  else .ok node.contentBytes

def readUniversalInteger (node : DerNode) (fieldName : String) : Except String Int :=
  (expectUniversal node UTAG_INTEGER (fieldName ++ ": not an INTEGER")).bind fun content =>
    (content.foldlM (fun (n : Word) (b : UInt8) =>
      if (2 ^ 53 - 1 : Int) < (shiftIn 8 n b.toNat).toInt then
        Except.error (fieldName ++ ": INTEGER exceeds Number.MAX_SAFE_INTEGER")
      else .ok (shiftIn 8 n b.toNat)) 0).map BitVec.toInt

def readUniversalEnumerated (node : DerNode) (fieldName : String) : Except String Int :=
  (expectUniversal node UTAG_ENUMERATED (fieldName ++ ": not an ENUMERATED")).map fun content =>
    (content.foldl (fun (n : Word) b => shiftIn 8 n b.toNat) 0).toInt

def readUniversalOctetString (node : DerNode) (fieldName : String) : Except String Bytes :=
  expectUniversal node UTAG_OCTET_STRING (fieldName ++ ": not an OCTET STRING")

def readUniversalBoolean (node : DerNode) (fieldName : String) : Except String Bool :=
  (expectUniversal node UTAG_BOOLEAN (fieldName ++ ": not a BOOLEAN")).bind fun content =>
    match content with
    | [b] => .ok (b ≠ 0)
    | _ => .error (fieldName ++ ": BOOLEAN content length ≠ 1")

def parseRootOfTrust (fuel : Nat) (node : DerNode) : Parse RootOfTrust := do
  let content ← .lift (expectUniversal node UTAG_SEQUENCE "rootOfTrust: not a SEQUENCE")
  let children ← readSequenceChildren fuel content (some 0)
  match children with
  | key :: locked :: state :: more =>
    let verifiedBootKey ← .lift (readUniversalOctetString key "rootOfTrust.verifiedBootKey")
    let deviceLocked ← .lift (readUniversalBoolean locked "rootOfTrust.deviceLocked")
    let verifiedBootState ← .lift (readUniversalEnumerated state "rootOfTrust.verifiedBootState")
    let verifiedBootHash ← .lift (more.head?.mapM fun hash =>
      readUniversalOctetString hash "rootOfTrust.verifiedBootHash")
    return ⟨verifiedBootKey, deviceLocked, verifiedBootState, verifiedBootHash⟩
  | _ => .lift (.error "rootOfTrust: SEQUENCE has too few fields, expected ≥ 3")

def noteAuthorization (fuel : Nat) (fieldName : String) (acc : AuthorizationList) (child : DerNode) :
    Parse AuthorizationList :=
  if child.tagClass ≠ TAG_CLASS_CONTEXT then return acc
  else if child.tagNumber = AUTH_LIST_TAG_ROOT_OF_TRUST then do
    let inner ← Parse.node child.contentBytes 0
    let rootOfTrust ← parseRootOfTrust fuel inner.1
    return { acc with rootOfTrust := some rootOfTrust }
  else if child.tagNumber = AUTH_LIST_TAG_ATTESTATION_APPLICATION_ID then do
    let inner ← Parse.node child.contentBytes 0
    let content ← .lift (expectUniversal inner.1 UTAG_OCTET_STRING
      (fieldName ++ ".attestationApplicationId: inner tag is not OCTET STRING"))
    return { acc with attestationApplicationId := some content }
  else return acc

def parseAuthorizationList (fuel : Nat) (node : DerNode) (fieldName : String) :
    Parse AuthorizationList := do
  let content ← .lift (expectUniversal node UTAG_SEQUENCE (fieldName ++ ": not a SEQUENCE"))
  let children ← readSequenceChildren fuel content (some 0)
  children.foldlM (noteAuthorization fuel fieldName) ⟨none, none⟩

def parseKeyDescription (fuel : Nat) (extValue : Bytes) : Parse KeyDescription := do
  let seq ← Parse.node extValue 0
  let content ← .lift
    (expectUniversal seq.1 UTAG_SEQUENCE "KeyDescription: outer tag is not SEQUENCE")
  let children ← readSequenceChildren fuel content (some 0)
  match children with
  | version :: level :: mintVersion :: mintLevel :: challenge :: unique :: software :: hardware ::
      _ =>
    let attestationVersion ← .lift (readUniversalInteger version "attestationVersion")
    let attestationSecurityLevel ←
      .lift (readUniversalEnumerated level "attestationSecurityLevel")
    let keyMintVersion ← .lift (readUniversalInteger mintVersion "keyMintVersion")
    let keyMintSecurityLevel ← .lift (readUniversalEnumerated mintLevel "keyMintSecurityLevel")
    let attestationChallenge ← .lift (readUniversalOctetString challenge "attestationChallenge")
    let uniqueId ← .lift (readUniversalOctetString unique "uniqueId")
    let softwareEnforced ← parseAuthorizationList fuel software "softwareEnforced"
    let hardwareEnforced ← parseAuthorizationList fuel hardware "hardwareEnforced"
    return ⟨attestationVersion, attestationSecurityLevel, keyMintVersion, keyMintSecurityLevel,
      attestationChallenge, uniqueId, softwareEnforced, hardwareEnforced⟩
  | _ => .lift (.error "KeyDescription: SEQUENCE has too few fields, expected ≥ 8")

/-! ## §4. Length fields -/

/-- Where the content of the node at `offset` begins. -/
def headerEnd (bytes : Bytes) (offset : Int) : Except String Int :=
  (readTag bytes offset).bind fun tag => (readLength bytes tag.2).map Prod.snd

/-- The node at `offset`, if one is read, is two bytes long at least, ends within its input, and
    holds what stands between its header and the next offset. -/
def Fits (bytes : Bytes) (offset : Int) : Prop :=
  ∀ node next, readDerNode bytes offset = .ok (node, next) →
    ∃ start stop : Nat, headerEnd bytes offset = .ok start ∧ next = some (stop : Int) ∧
      offset + 2 ≤ start ∧ start ≤ stop ∧ stop ≤ bytes.length ∧
      node.contentBytes = (bytes.take stop).drop start

/-- The length field at `i` has four bytes, the first of them from `0x80` on. -/
def WideField (bytes : Bytes) (i : Int) : Prop :=
  byteAt bytes i = some 0x84 ∧ i + 5 ≤ bytes.length ∧
    ∃ b, byteAt bytes (i + 1) = some b ∧ 0x80 ≤ b.toNat

/-- The length field of the node at `offset` is a wide one. -/
def WideLength (bytes : Bytes) (offset : Int) : Prop :=
  offset < bytes.length ∧ ∃ tag, readTag bytes offset = .ok tag ∧ WideField bytes tag.2

variable {bytes : Bytes} {offset i : Int}

theorem bits_lt (b : Option UInt8) : bits b < 256 := by
  cases b with
  | none => decide
  | some b => exact b.toNat_lt

theorem shiftIn_toNat {k b : Nat} {acc : Word} (hk : k < 32) (hb : b < 2 ^ k)
    (h : acc.toNat < 2 ^ (32 - k)) : (shiftIn k acc b).toNat = acc.toNat * 2 ^ k + b := by
  have hlt : b < 2 ^ 32 := Nat.lt_of_lt_of_le hb (Nat.pow_le_pow_right (by omega) (by omega))
  have hpow : 2 ^ (32 - k) * 2 ^ k = 2 ^ 32 := by
    rw [← Nat.pow_add, show 32 - k + k = 32 by omega]
  have hacc : acc.toNat * 2 ^ k < 2 ^ 32 := by
    rw [← hpow]
    exact Nat.mul_lt_mul_of_pos_right h (Nat.two_pow_pos k)
  unfold shiftIn
  rw [BitVec.toNat_or, BitVec.toNat_shiftLeft, BitVec.toNat_ofNat, Nat.mod_eq_of_lt hlt,
    Nat.shiftLeft_eq, Nat.mod_eq_of_lt hacc, ← Nat.shiftLeft_eq, ← Nat.shiftLeft_add_eq_or_of_lt hb,
    Nat.shiftLeft_eq]

/-- The bytes of a length field: where they end, and the number they make. -/
theorem readLengthBytes_ok (n : Nat) {acc acc' : Word} {j : Int} (hn : n ≤ 4)
    (hacc : acc.toNat < 2 ^ (32 - 8 * n)) (h : readLengthBytes bytes n acc i = .ok (acc', j)) :
    j = i + n ∧ (0 < n → j ≤ bytes.length) ∧
      acc.toNat * 2 ^ (8 * n) ≤ acc'.toNat ∧ acc'.toNat < (acc.toNat + 1) * 2 ^ (8 * n) := by
  induction n generalizing acc i with
  | zero =>
    cases h
    exact ⟨by simp, by simp, by simp, by simp⟩
  | succ n ih =>
    unfold readLengthBytes at h
    split at h
    · cases h
    next hlt =>
    have hb := bits_lt (byteAt bytes i)
    have hsmall : acc.toNat < 2 ^ (32 - 8) :=
      Nat.lt_of_lt_of_le hacc (Nat.pow_le_pow_right (by omega) (by omega))
    have hnext := shiftIn_toNat (by omega) hb hsmall
    have hroom : 2 ^ (32 - 8 * n) = 2 ^ (32 - 8 * (n + 1)) * 256 := by
      rw [show 32 - 8 * n = 32 - 8 * (n + 1) + 8 by omega, Nat.pow_add]
    obtain ⟨hj, hle, hlow, hhigh⟩ := ih (by omega) (by rw [hnext, hroom]; omega) h
    have hpow : 2 ^ (8 * (n + 1)) = 256 * 2 ^ (8 * n) := by
      rw [show 8 * (n + 1) = 8 + 8 * n by omega, Nat.pow_add]
    refine ⟨by omega, fun _ => ?_, ?_, ?_⟩
    · by_cases hzero : 0 < n
      · exact hle hzero
      · omega
    · rw [hpow, ← Nat.mul_assoc]
      exact Nat.le_trans (Nat.mul_le_mul_right _ (by omega)) hlow
    · rw [hpow, ← Nat.mul_assoc]
      exact Nat.lt_of_lt_of_le hhigh (Nat.mul_le_mul_right _ (by omega))

theorem readLengthBytes_total (n : Nat) (acc : Word) (h : i + n ≤ bytes.length) :
    ∃ r, readLengthBytes bytes n acc i = .ok r := by
  induction n generalizing acc i with
  | zero => exact ⟨_, rfl⟩
  | succ n ih =>
    unfold readLengthBytes
    rw [if_neg (by omega)]
    exact ih _ (by omega)

theorem byteAt_of_lt (h : 0 ≤ i) (hlt : i < bytes.length) : ∃ b, byteAt bytes i = some b := by
  unfold byteAt
  rw [if_pos h]
  exact ⟨_, getElem?_eq_getElem (by omega)⟩

/-- **The length read is negative in a wide field only.** -/
theorem readLength_ok {length : Option Int} {start : Int} (hi : 0 ≤ i)
    (h : readLength bytes i = .ok (length, start)) :
    i + 1 ≤ start ∧ start ≤ bytes.length ∧ ∃ n, length = some n ∧ (n < 0 ↔ WideField bytes i) := by
  unfold readLength at h
  split at h
  · cases h
  next hlt =>
  obtain ⟨lenByte, hlen⟩ := byteAt_of_lt hi (Int.not_le.mp hlt)
  rw [hlen] at h
  dsimp only at h
  split at h
  · next hshort =>
    cases h
    refine ⟨by omega, by omega, lenByte.toNat, rfl, fun hneg => by omega, fun hwide => ?_⟩
    rw [hwide.1] at hlen
    cases hlen
    cases hshort
  split at h
  · cases h
  next hzero =>
  split at h
  · cases h
  next hfour =>
  obtain ⟨⟨w, j⟩, hread, heq⟩ := Throws.map_eq_ok.mp h
  cases heq
  dsimp only
  generalize hn : bits (some lenByte) &&& 0x7f = n at hzero hfour hread
  have hle : n ≤ 4 := by omega
  obtain ⟨hj, hend, -, -⟩ := readLengthBytes_ok n hle (Nat.two_pow_pos _) hread
  refine ⟨by omega, hend (by omega), _, rfl, ?_⟩
  rw [BitVec.toInt_neg_iff]
  by_cases hwide : n = 4
  · -- the first of the four bytes decides
    subst hwide
    unfold readLengthBytes at hread
    split at hread
    · cases hread
    obtain ⟨b, hb⟩ : ∃ b, byteAt bytes (i + 1) = some b := byteAt_of_lt (by omega) (by omega)
    have hfirst : (shiftIn 8 (0 : Word) b.toNat).toNat = b.toNat := by
      rw [shiftIn_toNat (by decide) b.toNat_lt (by decide)]
      show 0 * 2 ^ 8 + b.toNat = b.toNat
      omega
    have hbyte := b.toNat_lt
    rw [hb] at hread
    obtain ⟨-, -, hlow, hhigh⟩ := readLengthBytes_ok 3 (by decide)
      (by rw [show bits (some b) = b.toNat from rfl, hfirst]; omega) hread
    rw [show bits (some b) = b.toNat from rfl, hfirst] at hlow hhigh
    have hmark : lenByte = 0x84 := by
      have hall : ∀ m < 256, m &&& 0x80 ≠ 0 → m &&& 0x7f = 4 → m = 0x84 := by
        decide +kernel
      exact UInt8.toNat_inj.mp (hall _ lenByte.toNat_lt ‹_› hn)
    constructor
    · intro hbig
      exact ⟨hmark ▸ hlen, by omega, b, hb, by omega⟩
    · rintro ⟨-, -, b', hb', hge⟩
      rw [hb] at hb'
      cases hb'
      omega
  · -- fewer bytes make a small number
    obtain ⟨-, -, -, hhigh⟩ := readLengthBytes_ok n hle (Nat.two_pow_pos _) hread
    have hpow : 2 ^ (8 * n) ≤ 2 ^ 24 := Nat.pow_le_pow_right (by decide) (by omega)
    have hzeroNat : (0 : Word).toNat = 0 := rfl
    rw [hzeroNat] at hhigh
    constructor
    · omega
    · rintro ⟨hmark, -⟩
      rw [hlen] at hmark
      cases hmark
      exact absurd hn.symm hwide

/-- A wide field makes a negative length. -/
theorem readLength_wide (h : WideField bytes i) :
    ∃ n : Int, readLength bytes i = .ok (some n, i + 5) ∧ n < 0 := by
  obtain ⟨hmark, hend, b, hb, hge⟩ := h
  have hi : 0 ≤ i := by
    unfold byteAt at hmark
    split at hmark
    · assumption
    · cases hmark
  obtain ⟨⟨w, j⟩, hread⟩ : ∃ r, readLengthBytes bytes 4 0 (i + 1) = .ok r :=
    readLengthBytes_total 4 0 (by omega)
  obtain ⟨hj, -⟩ := readLengthBytes_ok 4 (by decide) (by decide) hread
  have hlength : readLength bytes i = .ok (some w.toInt, i + 5) := by
    unfold readLength
    rw [if_neg (by omega), hmark]
    show (readLengthBytes bytes 4 0 (i + 1)).map (fun r => (some r.1.toInt, r.2)) = _
    rw [hread, hj]
    show Except.ok (some w.toInt, i + 1 + ((4 : Nat) : Int)) = _
    rw [show i + 1 + ((4 : Nat) : Int) = i + 5 by omega]
  obtain ⟨-, -, n, hn, hneg⟩ := readLength_ok hi hlength
  cases hn
  exact ⟨_, hlength, hneg.mpr ⟨hmark, hend, b, hb, hge⟩⟩

/-! ## §5. Nodes -/

theorem readTagNumber_le {left : Nat} {acc : Word} {r : Word × Int}
    (h : readTagNumber bytes left acc i = .ok r) : i + 1 ≤ r.2 := by
  induction left generalizing acc i with
  | zero =>
    unfold readTagNumber at h
    split at h <;> cases h
  | succ left ih =>
    unfold readTagNumber at h
    split at h
    · cases h
    dsimp only at h
    split at h
    · have hle := ih h
      omega
    · cases h
      show i + 1 ≤ i + 1
      omega

theorem readTag_le {tag : Word × Int} (h : readTag bytes offset = .ok tag) : offset + 1 ≤ tag.2 := by
  unfold readTag at h
  dsimp only at h
  split at h
  · have hle := readTagNumber_le h
    omega
  · cases h
    show offset + 1 ≤ offset + 1
    omega

theorem subarray_of_le {start stop : Nat} (hle : start ≤ stop) (hstop : stop ≤ bytes.length) :
    subarray bytes start stop = (bytes.take stop).drop start := by
  unfold subarray clamp
  rw [if_neg (by omega), if_neg (by omega), Int.toNat_natCast, Int.toNat_natCast,
    Nat.min_eq_left hstop, Nat.min_eq_left (by omega)]

/-- **A node fits unless its length is a wide one.** -/
theorem fits_of_not_wide (ho : 0 ≤ offset) (hnot : ¬ WideLength bytes offset) :
    Fits bytes offset := by
  intro node next h
  unfold readDerNode at h
  split at h
  · cases h
  next hlt =>
  obtain ⟨tag, htag, h⟩ := Throws.bind_eq_ok.mp h
  obtain ⟨⟨length, start⟩, hlength, h⟩ := Throws.bind_eq_ok.mp h
  have hle := readTag_le htag
  obtain ⟨hstart, hend, n, rfl, hneg⟩ := readLength_ok (by omega) hlength
  have hn : 0 ≤ n := by
    by_contra hlow
    exact hnot ⟨by omega, tag, htag, hneg.mp (by omega)⟩
  dsimp only at h
  split at h
  · cases h
  next hroom =>
  cases h
  have hfrom : ((start.toNat : Nat) : Int) = start := by omega
  have hto : (((start + n).toNat : Nat) : Int) = start + n := by omega
  refine ⟨start.toNat, (start + n).toNat, ?_, by rw [hto], by omega, by omega, by omega, ?_⟩
  · unfold headerEnd
    rw [htag, hfrom]
    show (readLength bytes tag.2).map Prod.snd = _
    rw [hlength]
    rfl
  · show subarray bytes start (start + n) = _
    rw [← subarray_of_le (by omega) (by omega), hfrom, hto]

theorem not_fits_of_wide (h : WideLength bytes offset) : ¬ Fits bytes offset := by
  obtain ⟨hlt, tag, htag, hwide⟩ := h
  obtain ⟨n, hlength, hneg⟩ := readLength_wide hwide
  have hend := hwide.2.1
  intro hfits
  have hread : ∃ node, readDerNode bytes offset = .ok (node, some (tag.2 + 5 + n)) := by
    unfold readDerNode
    rw [if_neg (by omega), htag]
    refine ⟨⟨bits (byteAt bytes offset) >>> 6, bits (byteAt bytes offset) &&& 0x20 ≠ 0, tag.1,
      subarray bytes (tag.2 + 5) (tag.2 + 5 + n)⟩, ?_⟩
    show (readLength bytes tag.2).bind _ = _
    rw [hlength]
    show (if (bytes.length : Int) < tag.2 + 5 + n then _ else _) = _
    rw [if_neg (by omega)]
  obtain ⟨node, hread⟩ := hread
  obtain ⟨start, stop, hheader, hnext, -, hle, -⟩ := hfits node _ hread
  unfold headerEnd at hheader
  rw [htag] at hheader
  have hstart : (readLength bytes tag.2).map Prod.snd = .ok (start : Int) := hheader
  rw [hlength] at hstart
  have heq : tag.2 + 5 = (start : Int) := Except.ok.inj hstart
  have hstop : tag.2 + 5 + n = (stop : Int) := Option.some.inj hnext
  omega

theorem fits_iff {offset : Nat} : Fits bytes offset ↔ ¬ WideLength bytes offset :=
  ⟨fun hfits hwide => not_fits_of_wide hwide hfits, fits_of_not_wide (by omega)⟩

/-! ## §6. Parses that read no wide length -/

section

variable {α β : Type}

def NoWide (x : Parse α) : Prop := ∀ r ∈ x.reads, ¬ WideLength r.1 r.2

def AllFit (x : Parse α) : Prop := ∀ r ∈ x.reads, Fits r.1 r.2

/-- Reading no wide length, the parse ends, all it reads fits, and it returns only what is `Q`. -/
def Good (x : Parse α) (Q : α → Prop) : Prop :=
  NoWide x → AllFit x ∧ ∃ res, x.result = some res ∧ ∀ a, res = .ok a → Q a

variable {x : Parse α} {f : α → Parse β} {Q Q' : α → Prop} {R : β → Prop}

theorem Good.lift {x : Except String α} (h : ∀ a, x = .ok a → Q a) : Good (.lift x) Q := by
  intro _
  exact ⟨nofun, x, rfl, h⟩

theorem Good.any {x : Except String α} : Good (.lift x) fun _ => True :=
  Good.lift fun _ _ => trivial

theorem Good.pure {a : α} (h : Q a) : Good (Pure.pure a : Parse α) Q := by
  apply Good.lift
  intro b hb
  cases hb
  exact h

theorem Good.mono (h : Good x Q) (hQ : ∀ a, Q a → Q' a) : Good x Q' := by
  intro hno
  obtain ⟨hfit, res, hres, hq⟩ := h hno
  exact ⟨hfit, res, hres, fun a ha => hQ a (hq a ha)⟩

theorem Good.bind (hx : Good x Q) (hf : ∀ a, Q a → Good (f a) R) : Good (x >>= f) R := by
  intro hno
  change NoWide (x.bind f) at hno
  show AllFit (x.bind f) ∧ _
  have hbind : (x >>= f) = x.bind f := rfl
  rw [hbind]
  unfold Parse.bind at hno ⊢
  cases hresult : x.result with
  | none =>
    simp only [hresult] at hno
    obtain ⟨-, res, hres, -⟩ := hx hno
    rw [hresult] at hres
    cases hres
  | some result =>
    cases result with simp only [hresult] at hno ⊢
    | error =>
      obtain ⟨hfit, -⟩ := hx hno
      exact ⟨hfit, _, rfl, nofun⟩
    | ok a =>
      obtain ⟨hfit, res, hres, hq⟩ := hx fun r hr => hno r (mem_append_left _ hr)
      rw [hresult] at hres
      cases hres
      obtain ⟨hfit', hend⟩ := hf a (hq a rfl) fun r hr => hno r (mem_append_right _ hr)
      refine ⟨?_, hend⟩
      exact forall_mem_append.mpr ⟨hfit, hfit'⟩

theorem Good.foldlM {γ : Type} {f : α → γ → Parse α} (l : List γ)
    (h : ∀ acc, ∀ c ∈ l, Good (f acc c) fun _ => True) (acc : α) :
    Good (l.foldlM f acc) fun _ => True := by
  induction l generalizing acc with
  | nil => exact .pure trivial
  | cons c l ih =>
    show Good (f acc c >>= fun a => l.foldlM f a) _
    apply Good.bind (h acc c mem_cons_self)
    intro a _
    exact ih (fun acc c hc => h acc c (mem_cons_of_mem _ hc)) a

theorem allFit_iff (h : Good x Q) : AllFit x ↔ NoWide x :=
  ⟨fun hfit r hr hwide => not_fits_of_wide hwide (hfit r hr), fun hno => (h hno).1⟩

end

/-- The nodes lie one behind the other from `offset` to the end of the input. -/
def Tiles (c : Bytes) : Nat → List DerNode → Prop
  | offset, [] => offset = c.length
  | offset, node :: rest => ∃ start stop : Nat, headerEnd c offset = .ok start ∧
      offset + 2 ≤ start ∧ start ≤ stop ∧ stop ≤ c.length ∧
      node.contentBytes = (c.take stop).drop start ∧ Tiles c stop rest

theorem Tiles.content_le {c : Bytes} {o : Nat} {nodes : List DerNode} (h : Tiles c o nodes) :
    ∀ node ∈ nodes, node.contentBytes.length ≤ c.length := by
  induction nodes generalizing o with
  | nil => simp
  | cons node rest ih =>
    obtain ⟨start, stop, -, -, -, hstop, hcontent, hrest⟩ := h
    intro n hn
    rcases mem_cons.mp hn with rfl | hn
    · rw [hcontent, length_drop, length_take]
      omega
    · exact ih hrest n hn

theorem good_node (bytes : Bytes) (offset : Nat) : Good (Parse.node bytes offset) fun r =>
    ∃ start stop : Nat, headerEnd bytes offset = .ok start ∧ r.2 = some (stop : Int) ∧
      offset + 2 ≤ start ∧ start ≤ stop ∧ stop ≤ bytes.length ∧
      r.1.contentBytes = (bytes.take stop).drop start := by
  intro hno
  have hfits := fits_of_not_wide (by omega) (hno _ mem_cons_self)
  refine ⟨?_, _, rfl, ?_⟩
  · intro r hr
    rw [mem_singleton.mp hr]
    exact hfits
  · intro r hr
    obtain ⟨start, stop, hheader, hnext, hlow, hle, hstop, hcontent⟩ := hfits r.1 r.2 hr
    exact ⟨start, stop, hheader, hnext, by omega, hle, hstop, hcontent⟩

/-- **The children of a sequence tile it**, and the loop ends: each takes two bytes at least. -/
theorem good_children (c : Bytes) (fuel o : Nat) (hfuel : c.length ≤ o + fuel)
    (ho : o ≤ c.length) : Good (readSequenceChildren fuel c (some (o : Int))) (Tiles c o) := by
  induction fuel generalizing o with
  | zero =>
    unfold readSequenceChildren
    rw [if_pos (by omega)]
    apply Good.pure
    show o = c.length
    omega
  | succ fuel ih =>
    unfold readSequenceChildren
    split
    · apply Good.pure
      show o = c.length
      omega
    · apply Good.bind (good_node c o)
      rintro ⟨node, next⟩ ⟨start, stop, hheader, hnext, hlow, hle, hstop, hcontent⟩
      cases hnext
      apply Good.bind (ih stop (by omega) hstop)
      intro rest hrest
      apply Good.pure
      exact ⟨start, stop, hheader, hlow, hle, hstop, hcontent, hrest⟩

/-! ## §7. The key description -/

variable {node : DerNode} {message : String}

theorem good_expect {utag : Word} :
    Good (.lift (expectUniversal node utag message)) (· = node.contentBytes) := by
  apply Good.lift
  intro a h
  unfold expectUniversal at h
  split at h
  · cases h
  · cases h
    rfl

variable {fuel : Nat}

/-- The content of a sequence of a node, within the fuel. -/
theorem good_sequence (h : node.contentBytes.length ≤ fuel) {β : Type} {f : List DerNode → Parse β}
    (hf : ∀ nodes, (∀ n ∈ nodes, n.contentBytes.length ≤ fuel) → Good (f nodes) fun _ => True) :
    Good ((.lift (expectUniversal node UTAG_SEQUENCE message)) >>= fun content =>
      readSequenceChildren fuel content (some 0) >>= f) fun _ => True := by
  apply Good.bind good_expect
  rintro _ rfl
  apply Good.bind (good_children _ fuel 0 (by omega) (by omega))
  intro nodes hnodes
  apply hf
  intro n hn
  have hle := hnodes.content_le n hn
  omega

theorem good_parseRootOfTrust (h : node.contentBytes.length ≤ fuel) :
    Good (parseRootOfTrust fuel node) fun _ => True := by
  apply good_sequence h
  intro nodes _
  split
  · apply Good.bind Good.any
    iterate 3
      intro _ _
      apply Good.bind Good.any
    intro _ _
    exact .pure trivial
  · exact .any

variable {child : DerNode}

theorem good_inner (h : child.contentBytes.length ≤ fuel) :
    Good (Parse.node child.contentBytes 0) fun r => r.1.contentBytes.length ≤ fuel := by
  apply Good.mono (good_node child.contentBytes 0)
  rintro r ⟨start, stop, -, -, -, -, hstop, hcontent⟩
  rw [hcontent, length_drop, length_take]
  omega

variable {fieldName : String}

theorem good_noteAuthorization {acc : AuthorizationList} (h : child.contentBytes.length ≤ fuel) :
    Good (noteAuthorization fuel fieldName acc child) fun _ => True := by
  unfold noteAuthorization
  split
  · exact .pure trivial
  split
  · apply Good.bind (good_inner h)
    intro inner hinner
    apply Good.bind (good_parseRootOfTrust hinner)
    intro _ _
    exact .pure trivial
  split
  · apply Good.bind (good_inner h)
    intro inner _
    apply Good.bind Good.any
    intro _ _
    exact .pure trivial
  · exact .pure trivial

theorem good_parseAuthorizationList (h : node.contentBytes.length ≤ fuel) :
    Good (parseAuthorizationList fuel node fieldName) fun _ => True := by
  apply good_sequence h
  intro nodes hnodes
  exact .foldlM nodes (fun _ child hchild => good_noteAuthorization (hnodes child hchild)) _

/-- **A parse that reads no wide length ends.** -/
theorem good_parseKeyDescription (x : Bytes) :
    Good (parseKeyDescription x.length x) fun _ => True := by
  apply Good.bind (good_node x 0)
  rintro ⟨seq, next⟩ ⟨start, stop, -, -, -, -, hstop, hcontent⟩
  apply good_sequence
  · rw [hcontent, length_drop, length_take]
    omega
  intro nodes hnodes
  split
  · apply Good.bind Good.any
    iterate 5
      intro _ _
      apply Good.bind Good.any
    intro _ _
    apply Good.bind (good_parseAuthorizationList (hnodes _ (by simp)))
    intro _ _
    apply Good.bind (good_parseAuthorizationList (hnodes _ (by simp)))
    intro _ _
    exact .pure trivial
  · exact .any

/-- **The reader ends and stays inside its input exactly where it reads no wide length**: for one
    node, for the children of a sequence, which then tile it, and for a key description. -/
theorem key_description_ends (x : Bytes) :
    (∀ offset : Nat, Fits x offset ↔ ¬ WideLength x offset) ∧
    (((∃ res, (readSequenceChildren x.length x (some 0)).result = some res ∧
          ∀ nodes, res = .ok nodes → Tiles x 0 nodes) ∧
        AllFit (readSequenceChildren x.length x (some 0))) ↔
      NoWide (readSequenceChildren x.length x (some 0))) ∧
    (((parseKeyDescription x.length x).result.isSome ∧
        AllFit (parseKeyDescription x.length x)) ↔ NoWide (parseKeyDescription x.length x)) := by
  refine ⟨fun _ => fits_iff, ?_, ?_⟩
  · have hgood := good_children x x.length 0 (by omega) (by omega)
    constructor
    · exact fun h => (allFit_iff hgood).mp h.2
    · exact fun hno => ⟨(hgood hno).2, (hgood hno).1⟩
  · have hgood := good_parseKeyDescription x
    constructor
    · exact fun h => (allFit_iff hgood).mp h.2
    · intro hno
      obtain ⟨hfit, res, hres, -⟩ := hgood hno
      exact ⟨by rw [hres]; rfl, hfit⟩

theorem not_ended {α β : Type} {x : Parse α} {f : α → Parse β}
    (h : ∀ a, x.result = some (.ok a) → (f a).result = none)
    (herror : ∀ e, x.result ≠ some (.error e)) : (x >>= f).result = none := by
  show (x.bind f).result = none
  unfold Parse.bind
  cases hresult : x.result with
  | none => rfl
  | some result =>
    cases result with
    | error e => exact absurd hresult (herror e)
    | ok a => exact h a hresult

/-- A sequence of one node whose length is -6: the loop reads it for ever. -/
theorem key_description_loops : ¬ ∃ fuel,
    (parseKeyDescription fuel [0x30, 6, 2, 0x84, 0xff, 0xff, 0xff, 0xfa]).result.isSome := by
  have hnode : (Parse.node [2, 0x84, 0xff, 0xff, 0xff, 0xfa] 0).result
      = some (.ok (⟨0, false, 2, []⟩, some 0)) := by rfl
  have hloop : ∀ fuel, (readSequenceChildren fuel [2, 0x84, 0xff, 0xff, 0xff, 0xfa]
      (some 0)).result = none := by
    intro fuel
    induction fuel with
    | zero => rfl
    | succ fuel ih =>
      apply not_ended
      · intro r hr
        rw [hnode] at hr
        cases hr
        exact not_ended (fun rest hrest => by rw [ih] at hrest; cases hrest)
          fun e he => by rw [ih] at he; cases he
      · nofun
  have houter : (Parse.node [0x30, 6, 2, 0x84, 0xff, 0xff, 0xff, 0xfa] 0).result
      = some (.ok (⟨0, true, 16, [2, 0x84, 0xff, 0xff, 0xff, 0xfa]⟩, some 8)) := by rfl
  rintro ⟨fuel, hended⟩
  rw [Option.isSome_iff_ne_none] at hended
  apply hended
  apply not_ended
  · intro seq hseq
    rw [houter] at hseq
    cases hseq
    apply not_ended
    · intro content hcontent
      cases hcontent
      exact not_ended (fun nodes hnodes => by rw [hloop] at hnodes; cases hnodes)
        fun e he => by rw [hloop] at he; cases he
    · nofun
  · nofun

end Motebit.Attestation
