/-
  Motebit.Git.Signatures — THE OPENPGP SIGNATURE OF A COMMIT.

  Translated from `packages/crypto-openpgp/src/openpgp.ts`.  A read past the end of a buffer is a
  fault of its own, which nothing catches; a refusal's text leaves out the values it quotes.  Ids
  and fingerprints are their bytes.  SHA-256 and the RSA check are parameters.

  Main results: `calm_parseSignature`, `createdAt_of_parseSignature`, `signed_commit`.
-/

import Mathlib.Algebra.Order.Ring.Int
import Motebit.Git.Commits
import Motebit.Lib.Base64

namespace Motebit.Git

open Motebit.Lib List

/-! ## §1. Reading -/

/-- What a reader throws: a `PgpError`, or a buffer's own range error. -/
inductive Fault
  | pgp (message : String)
  | range
  deriving DecidableEq

abbrev Reader (α : Type) := Except Fault α

/-- A check that throws a `PgpError`. -/
def check (p : Prop) [Decidable p] (message : String) : Reader Unit :=
  if p then .ok () else .error (.pgp message)

def subarray (b : Bytes) (start stop : Nat) : Bytes := (b.take stop).drop start

def readUIntBE (b : Bytes) (offset length : Nat) : Reader Nat :=
  if offset + length ≤ b.length then
    .ok ((subarray b offset (offset + length)).foldl (fun n u => n * 256 + u.toNat) 0)
  else .error .range

/-- `writeUInt32BE`, of the value alone. -/
def uint32BE (n : Nat) : Reader Bytes :=
  if n < 2 ^ 32 then
    .ok [UInt8.ofNat (n / 2 ^ 24), UInt8.ofNat (n / 2 ^ 16), UInt8.ofNat (n / 2 ^ 8), UInt8.ofNat n]
  else .error .range

/-! ## §2. Armor -/

/-- Eight turns of the CRC's inner loop. -/
def crcByte : Nat → Nat → Nat
  | 0, crc => crc
  | n + 1, crc =>
    crcByte n (if (crc <<< 1) &&& 0x1000000 ≠ 0 then (crc <<< 1) ^^^ 0x1864cfb else crc <<< 1)

def crc24 (bytes : Bytes) : Nat :=
  bytes.foldl (fun crc b => crcByte 8 (crc ^^^ (b.toNat <<< 16))) 0xb704ce &&& 0xffffff

def latin1 (b : Bytes) : Text := b.map fun u => Fin.ofNat 65536 u.toNat

/-- `strictBase64`: the canonical encoding of what it decodes to. -/
def strictBase64 (s : Bytes) (what : String) : Reader Bytes := do
  check (Base64.encode (Base64.decode (latin1 s)) = latin1 s) (what ++ " is not canonical base64")
  return Base64.decode (latin1 s)

def isBase64 (b : UInt8) : Bool := Base64.isDigit (Fin.ofNat 65536 b.toNat)

def isLetter (b : UInt8) : Bool := (65 ≤ b && b ≤ 90) || (97 ≤ b && b ≤ 122)

def PAD : UInt8 := 0x3d

def isBase64Line (l : Bytes) : Bool :=
  !(l.takeWhile isBase64).isEmpty && (l.dropWhile isBase64).all (· == PAD) &&
    (l.dropWhile isBase64).length ≤ 2

/-- `/^[A-Za-z][A-Za-z0-9-]*: [^\r]*$/`. -/
def isArmorHeader (l : Bytes) : Bool :=
  match cutAt 0x3a l with
  | some (key, value) =>
    (key.head?.any isLetter) && key.all (fun b => isLetter b || (48 ≤ b && b ≤ 57) || b == 0x2d) &&
      value.head? == some SPACE && !value.contains 0x0d
  | none => false

def dearmorLines (lines : List Bytes) (label : String) : Reader Bytes := do
  check (lines.head? = some (ascii ("-----BEGIN " ++ label ++ "-----"))) ("not a " ++ label)
  check (lines.getLast? = some (ascii ("-----END " ++ label ++ "-----")))
    ("the " ++ label ++ " is not terminated")
  -- the lines between the first and the last
  let inner := lines.tail.dropLast
  check ((inner.takeWhile (· ≠ [])).all isArmorHeader)
    ("the " ++ label ++ " has a malformed armor header")
  check (inner.dropWhile (· ≠ []) ≠ []) ("the " ++ label ++ " has no blank line before its body")
  let body := (inner.dropWhile (· ≠ [])).tail.dropLast
  check (body.all fun l => l.length ≤ 76 && isBase64Line l)
    ("the " ++ label ++ " body is not base64 lines")
  let crcLine := inner.getLast?.getD []
  check (crcLine.head? = some PAD ∧ crcLine.length = 5 ∧ crcLine.tail.all isBase64 ∧ body ≠ [])
    ("the " ++ label ++ " has no CRC-24 line")
  check (body.dropLast.all fun l => !l.contains PAD && l.length % 4 == 0)
    ("the " ++ label ++ " body is not base64 lines")
  let data ← strictBase64 body.flatten ("the " ++ label ++ " body")
  let crc ← strictBase64 crcLine.tail ("the " ++ label ++ " CRC-24")
  check (crc.length = 3) ("the " ++ label ++ " CRC-24 does not match")
  let value ← readUIntBE crc 0 3
  check (value = crc24 data) ("the " ++ label ++ " CRC-24 does not match")
  return data

/-! ## §3. Packets -/

structure Packet where
  tag : Nat
  body : Bytes

/-- A packet's tag, its length and where its body stands. -/
def packetHeader (data : Bytes) : Reader (Nat × Nat × Nat) := do
  let h := data.head?.elim 0 UInt8.toNat
  check (h &&& 0x80 ≠ 0) "a packet header lacks its high bit"
  if h &&& 0x40 ≠ 0 then
    match data[1]? with
    | none => .error (.pgp "a packet length is cut short")
    | some o1 =>
      if o1.toNat < 192 then return (h &&& 0x3f, o1.toNat, 2)
      else if o1.toNat < 224 then
        match data[2]? with
        | none => .error (.pgp "a packet length is cut short")
        | some o2 => return (h &&& 0x3f, ((o1.toNat - 192) <<< 8) + o2.toNat + 192, 3)
      else if o1.toNat = 255 then
        check (6 ≤ data.length) "a packet length is cut short"
        let len ← readUIntBE data 2 4
        return (h &&& 0x3f, len, 6)
      else .error (.pgp "a partial-length packet")
  else
    check (h &&& 0x03 ≠ 3) "an indeterminate-length packet"
    let n := 1 <<< (h &&& 0x03)
    check (1 + n ≤ data.length) "a packet length is cut short"
    let len ← readUIntBE data 1 n
    return ((h >>> 2) &&& 0x0f, len, 1 + n)

def packets (data : Bytes) : Reader (List Packet) :=
  if data = [] then .ok []
  else
    (packetHeader data).bind fun (tag, len, start) =>
      -- a header is never empty
      if _h : start + len ≤ data.length ∧ 0 < start then
        (packets (data.drop (start + len))).map (⟨tag, subarray data start (start + len)⟩ :: ·)
      else .error (.pgp "a packet runs past the end of its block")
termination_by data.length
decreasing_by
  rw [length_drop]
  omega

/-- `mpi`: its value bytes and the next offset. -/
def mpi (body : Bytes) (start : Nat) (what : String) (exact : Bool) : Reader (Bytes × Nat) := do
  check (start + 2 ≤ body.length) (what ++ " is cut short")
  let bits ← readUIntBE body start 2
  let n := (bits + 7) >>> 3
  check (bits ≠ 0 ∧ start + 2 + n ≤ body.length) (what ++ " is malformed")
  let value := subarray body (start + 2) (start + 2 + n)
  let top := value.head?.elim 0 UInt8.toNat
  check (exact = true → top ≠ 0 ∧ Nat.log2 top + 1 = (bits - 1) % 8 + 1)
    (what ++ "'s bit count is not exact")
  return (value, start + 2 + n)

/-! ## §4. The signature packet -/

/-- What the subpackets say. -/
structure Said where
  createdAt : Option Nat
  fingerprint : Option Bytes
  keyId : Option Bytes

def noteSubpacket (hashed : Bool) (acc : Said) (t : Nat) (data : Bytes) : Reader Said :=
  if t &&& 0x7f = 2 then do
    check (hashed = true) "a creation time outside the hashed area"
    check (acc.createdAt = none) "more than one creation time"
    check (data.length = 4) "a malformed creation time"
    let seconds ← readUIntBE data 0 4
    return { acc with createdAt := some seconds }
  else if t &&& 0x7f = 3 then .error (.pgp "a signature-expiration subpacket")
  else if t &&& 0x7f = 16 then do
    check (data.length = 8) "a malformed issuer key id"
    check (acc.keyId = none ∨ acc.keyId = some data) "two different issuer key ids"
    return { acc with keyId := some data }
  else if t &&& 0x7f = 33 then do
    check (data.length = 21 ∧ data.head? = some 4) "a malformed issuer fingerprint"
    check (acc.fingerprint = none ∨ acc.fingerprint = some data.tail)
      "two different issuer fingerprints"
    return { acc with fingerprint := some data.tail }
  else if t &&& 0x80 ≠ 0 then .error (.pgp "a critical subpacket")
  else .ok acc

/-- A subpacket's length and where it stands. -/
def subpacketHeader (area : Bytes) : Reader (Nat × Nat) := do
  let o1 := area.head?.elim 0 UInt8.toNat
  if o1 < 192 then return (o1, 1)
  else if o1 < 255 then
    check (2 ≤ area.length) "a subpacket length is cut short"
    let o2 ← readUIntBE area 1 1
    return (((o1 - 192) <<< 8) + o2 + 192, 2)
  else
    check (5 ≤ area.length) "a subpacket length is cut short"
    let len ← readUIntBE area 1 4
    return (len, 5)

def subpackets (hashed : Bool) (acc : Said) (area : Bytes) : Reader Said :=
  if area = [] then .ok acc
  else
    (subpacketHeader area).bind fun (len, start) =>
      if _h : 1 ≤ len ∧ start + len ≤ area.length then
        (readUIntBE area start 1).bind fun t =>
          (noteSubpacket hashed acc t (subarray area (start + 1) (start + len))).bind fun acc =>
            subpackets hashed acc (area.drop (start + len))
      else .error (.pgp "a subpacket runs past its area")
termination_by area.length
decreasing_by
  rw [length_drop]
  omega

structure ParsedSignature where
  hashedPortion : Bytes
  left16 : Bytes
  sig : Bytes
  createdAt : Nat
  fingerprint : Option Bytes
  keyId : Option Bytes

def nothingSaid : Said := ⟨none, none, none⟩

def parseBody (b : Bytes) : Reader ParsedSignature := do
  check (b[0]? = some 4) "a version that is not 4"
  check (6 ≤ b.length) "the signature is cut short"
  check (b[1]? = some 0) "a signature type that is not binary (0x00)"
  check (b[2]? = some 1) "a public-key algorithm that is not RSA (1)"
  check (b[3]? = some 8) "a hash algorithm that is not SHA-256 (8)"
  let hashedLen ← readUIntBE b 4 2
  let hashedEnd := 6 + hashedLen
  check (hashedEnd + 2 ≤ b.length) "the hashed area runs past the packet"
  let unhashedLen ← readUIntBE b hashedEnd 2
  let unhashedEnd := hashedEnd + 2 + unhashedLen
  check (unhashedEnd + 2 ≤ b.length) "the unhashed area runs past the packet"
  let hashed ← subpackets true nothingSaid (subarray b 6 hashedEnd)
  let acc ← subpackets false hashed (subarray b (hashedEnd + 2) unhashedEnd)
  match acc.createdAt with
  | none => .error (.pgp "no signature creation time")
  | some createdAt =>
    check (acc.fingerprint ≠ none ∨ acc.keyId ≠ none) "no issuer"
    check (∀ f ∈ acc.fingerprint, ∀ k ∈ acc.keyId, k <:+ f)
      "the issuer key id is not the issuer fingerprint's"
    let s ← mpi b (unhashedEnd + 2) "the RSA signature" false
    check (s.2 = b.length) "the signature packet has trailing bytes"
    return ⟨b.take hashedEnd, subarray b unhashedEnd (unhashedEnd + 2), s.1, createdAt,
      acc.fingerprint, acc.keyId⟩

def parseSignature (armored : Bytes) : Reader ParsedSignature := do
  check (armored.getLast? = some LF) "the signature is not newline-terminated"
  let data ← dearmorLines (armored.dropLast.splitOn LF) "PGP SIGNATURE"
  let ps ← packets data
  match ps with
  | [p] =>
    check (p.tag = 2) "the packet is not a signature (2)"
    parseBody p.body
  | _ => .error (.pgp "the signature does not hold one packet")

/-! ## §5. The check -/

structure PinnedSigningKey (Key : Type) where
  fingerprint : Bytes
  keyId : Bytes
  createdAt : Nat
  key : Key
  modulusBytes : Nat

inductive CommitSignatureCheck
  | ok (fingerprint : Bytes) (createdAt : Nat)
  | refused (reason : String)

/-- The hash and the signature check of `node:crypto`. -/
structure Crypto (Key : Type) where
  sha256 : Bytes → Bytes
  rsaVerify : Key → Bytes → Bytes → Bool

variable {Key : Type} (crypto : Crypto Key)

def signedBytes (payload hashedPortion : Bytes) : Reader Bytes :=
  (uint32BE hashedPortion.length).map fun length =>
    payload ++ hashedPortion ++ 0x04 :: 0xff :: length

def checkSigned (key : PinnedSigningKey Key) (sig : ParsedSignature) (signed : Bytes) :
    CommitSignatureCheck :=
  if (crypto.sha256 signed).take 2 ≠ sig.left16 then
    .refused "the signature's left 16 bits do not match the digest"
  else if sig.sig.length > key.modulusBytes then
    .refused "the signature is longer than the key's modulus"
  else if ¬ crypto.rsaVerify key.key signed
      (List.replicate (key.modulusBytes - sig.sig.length) 0 ++ sig.sig) then
    .refused "the RSA signature does not verify under the pinned key"
  else .ok key.fingerprint sig.createdAt

/-- `verifyCommitSignature`; what it throws is the fault no handler takes. -/
def verifyCommitSignature (raw : Bytes) (objectFormat : GitObjectFormat)
    (pinned : List (PinnedSigningKey Key)) : Reader CommitSignatureCheck :=
  match splitSignedCommit raw objectFormat with
  | .error reason => .ok (.refused reason)
  | .ok (payload, signature) =>
    match parseSignature signature with
    | .error .range => .error .range
    | .error (.pgp message) => .ok (.refused ("the signature: " ++ message))
    | .ok sig =>
      match pinned.find? fun k => sig.fingerprint.elim (sig.keyId == some k.keyId)
          (· == k.fingerprint) with
      | none => .ok (.refused "the signer is not a pinned key")
      | some key =>
        if sig.keyId ≠ none ∧ sig.keyId ≠ some key.keyId then
          .ok (.refused "the issuer key id is not the pinned key's")
        else if sig.createdAt < key.createdAt then
          .ok (.refused "the signature was made before its key was created")
        else (signedBytes payload sig.hashedPortion).map (checkSigned crypto key sig)

/-! ## §6. No read past a buffer -/

/-- A reader that throws nothing but a `PgpError`. -/
def Calm {α : Type} (x : Reader α) : Prop := x ≠ .error .range

variable {α : Type}

theorem calm_ok (a : α) : Calm (.ok a : Reader α) := by
  nofun

theorem calm_pgp (message : String) : Calm (.error (.pgp message) : Reader α) := by
  nofun

theorem Calm.bind {β : Type} {x : Reader α} {f : α → Reader β} (hx : Calm x)
    (hf : ∀ a, x = .ok a → Calm (f a)) : Calm (x >>= f) := by
  cases x with
  | error => exact fun h => hx (by cases h; rfl)
  | ok a => exact hf a rfl

variable {f : Unit → Reader α} {message : String}

/-- Behind a check it holds. -/
theorem Calm.check {p : Prop} [Decidable p]
    (hf : p → Calm (f ())) : Calm (check p message >>= f) := by
  unfold Git.check
  split
  · next hp => exact hf hp
  · exact calm_pgp message

/-- A read in its buffer. -/
theorem Calm.read {b : Bytes} {offset length : Nat} {f : Nat → Reader α}
    (h : offset + length ≤ b.length) (hf : ∀ n, Calm (f n)) :
    Calm (readUIntBE b offset length >>= f) := by
  unfold readUIntBE
  rw [if_pos h]
  exact hf _

theorem calm_strictBase64 (s : Bytes) (what : String) : Calm (strictBase64 s what) :=
  Calm.check fun _ => calm_ok _

theorem calm_dearmorLines (lines : List Bytes) (label : String) :
    Calm (dearmorLines lines label) := by
  refine .check fun _ => .check fun _ => .check fun _ => .check fun _ => .check fun _ =>
    .check fun _ => .check fun _ => .bind (calm_strictBase64 _ _) fun data _ =>
    .bind (calm_strictBase64 _ _) fun crc _ => .check fun hlength => ?_
  exact .read (by omega) fun _ => .check fun _ => calm_ok _

theorem calm_packetHeader (data : Bytes) : Calm (packetHeader data) := by
  refine .check fun _ => ?_
  split
  · split
    · exact calm_pgp _
    split
    · exact calm_ok _
    split
    · split
      · exact calm_pgp _
      · exact calm_ok _
    split
    · exact .check fun hlength => .read (by omega) fun _ => calm_ok _
    · exact calm_pgp _
  · exact .check fun _ => .check fun hlength => .read hlength fun _ => calm_ok _

theorem calm_packets (data : Bytes) : Calm (packets data) := by
  induction data using packets.induct with
  | case1 => rw [packets]; exact calm_ok _
  | case2 data hne ih =>
    rw [packets, if_neg hne]
    refine .bind (calm_packetHeader data) fun header _ => ?_
    obtain ⟨tag, len, start⟩ := header
    dsimp only
    split
    · next h =>
      have hrest : Calm (packets (data.drop (start + len))) := ih _ _ h
      intro herror
      cases hpackets : packets (data.drop (start + len)) with rw [hpackets] at herror
      | error =>
        cases herror
        exact hrest hpackets
      | ok => cases herror
    · exact calm_pgp _

theorem calm_mpi (body : Bytes) (start : Nat) (what : String) (exact : Bool) :
    Calm (mpi body start what exact) := by
  exact .check fun hlength => .read hlength fun _ => .check fun _ => .check fun _ => calm_ok _

theorem calm_noteSubpacket (hashed : Bool) (acc : Said) (t : Nat) (data : Bytes) :
    Calm (noteSubpacket hashed acc t data) := by
  unfold noteSubpacket
  split
  · exact .check fun _ => .check fun _ => .check fun hlength =>
      .read (by omega) fun _ => calm_ok _
  split
  · exact calm_pgp _
  split
  · exact .check fun _ => .check fun _ => calm_ok _
  split
  · exact .check fun _ => .check fun _ => calm_ok _
  split
  · exact calm_pgp _
  · exact calm_ok _

theorem calm_subpacketHeader (area : Bytes) : Calm (subpacketHeader area) := by
  unfold subpacketHeader
  dsimp only
  split
  · exact calm_ok _
  split
  · exact .check fun hlength => .read hlength fun _ => calm_ok _
  · exact .check fun hlength => .read hlength fun _ => calm_ok _

theorem calm_subpackets (hashed : Bool) (acc : Said) (area : Bytes) :
    Calm (subpackets hashed acc area) := by
  induction acc, area using subpackets.induct with
  | case1 => rw [subpackets]; exact calm_ok _
  | case2 acc area hne ih =>
    rw [subpackets, if_neg hne]
    refine .bind (calm_subpacketHeader area) fun header _ => ?_
    obtain ⟨len, start⟩ := header
    dsimp only
    split
    · next h =>
      refine .read (by omega) fun t => .bind (calm_noteSubpacket _ _ _ _) fun acc' _ => ?_
      exact ih len start h acc'
    · exact calm_pgp _

theorem calm_parseBody (b : Bytes) : Calm (parseBody b) := by
  refine .check fun _ => .check fun hsix => .check fun _ => .check fun _ => .check fun _ =>
    .read (by omega) fun hashedLen => .check fun hhashed => .read hhashed fun unhashedLen =>
    .check fun _ => .bind (calm_subpackets _ _ _) fun hashed _ =>
    .bind (calm_subpackets _ _ _) fun acc _ => ?_
  split
  · exact calm_pgp _
  · exact .check fun _ => .check fun _ => .bind (calm_mpi _ _ _ _) fun s _ =>
      .check fun _ => calm_ok _

/-- **No read goes past its buffer.** -/
theorem calm_parseSignature (armored : Bytes) : Calm (parseSignature armored) := by
  refine .check fun _ => .bind (calm_dearmorLines _ _) fun data _ =>
    .bind (calm_packets data) fun ps _ => ?_
  split
  · exact .check fun _ => calm_parseBody _
  · exact calm_pgp _

/-! ## §7. The creation time -/

theorem check_bind_eq_ok {p : Prop} [Decidable p] {a : α}
    (h : (check p message >>= f) = .ok a) : p ∧ f () = .ok a := by
  unfold check at h
  split at h
  · next hp => exact ⟨hp, h⟩
  · cases h

theorem readUIntBE_lt {b : Bytes} {offset length n : Nat} (h : readUIntBE b offset length = .ok n) :
    n < 256 ^ length := by
  have hfold : ∀ (l : Bytes) (start : Nat),
      l.foldl (fun n u => n * 256 + u.toNat) start < (start + 1) * 256 ^ l.length := by
    intro l
    induction l with
    | nil => intro start; simp
    | cons u l ih =>
      intro start
      have hu := u.toNat_lt
      have hstep : start * 256 + u.toNat + 1 ≤ (start + 1) * 256 := by omega
      rw [foldl_cons, length_cons, Nat.pow_succ, Nat.mul_comm (256 ^ l.length), ← Nat.mul_assoc]
      exact lt_of_lt_of_le (ih _) (Nat.mul_le_mul_right _ hstep)
  unfold readUIntBE at h
  split at h
  · next hle =>
    cases h
    have hlength : (subarray b offset (offset + length)).length = length := by
      unfold subarray
      rw [length_drop, length_take]
      omega
    have hbound := hfold (subarray b offset (offset + length)) 0
    rwa [hlength, Nat.zero_add, Nat.one_mul] at hbound
  · cases h

variable {acc acc' : Said}

/-- Outside the hashed area no creation time is taken. -/
theorem createdAt_noteSubpacket {t : Nat} {data : Bytes}
    (h : noteSubpacket false acc t data = .ok acc') : acc'.createdAt = acc.createdAt := by
  unfold noteSubpacket at h
  split at h
  · exact absurd (check_bind_eq_ok h).1 (by decide)
  split at h
  · cases h
  iterate 2
    split at h
    · obtain ⟨-, h⟩ := check_bind_eq_ok h
      obtain ⟨-, h⟩ := check_bind_eq_ok h
      cases h
      rfl
  split at h
  · cases h
  · cases h
    rfl

theorem createdAt_subpackets {area : Bytes}
    (h : subpackets false acc area = .ok acc') : acc'.createdAt = acc.createdAt := by
  induction acc, area using subpackets.induct generalizing acc' with
  | case1 =>
    rw [subpackets, if_pos rfl] at h
    cases h
    rfl
  | case2 acc area hne ih =>
    rw [subpackets, if_neg hne] at h
    obtain ⟨⟨len, start⟩, -, h⟩ := Throws.bind_eq_ok.mp h
    dsimp only at h
    split at h
    · next hfits =>
      obtain ⟨t, -, h⟩ := Throws.bind_eq_ok.mp h
      obtain ⟨noted, hnoted, h⟩ := Throws.bind_eq_ok.mp h
      rw [ih len start hfits noted h, createdAt_noteSubpacket hnoted]
    · cases h

def hashedCreationTime (hashedPortion : Bytes) : Option Nat :=
  match subpackets true nothingSaid (hashedPortion.drop 6) with
  | .ok said => said.createdAt
  | .error _ => none

/-- **The creation time is read from the hashed portion**, which has a length of two bytes. -/
theorem createdAt_of_parseSignature {armored : Bytes} {sig : ParsedSignature}
    (h : parseSignature armored = .ok sig) :
    hashedCreationTime sig.hashedPortion = some sig.createdAt ∧
      sig.hashedPortion.length < 2 ^ 32 := by
  obtain ⟨-, h⟩ := check_bind_eq_ok h
  obtain ⟨data, -, h⟩ := Throws.bind_eq_ok.mp h
  obtain ⟨ps, -, h⟩ := Throws.bind_eq_ok.mp h
  split at h
  swap
  · cases h
  next p =>
  iterate 6
    obtain ⟨-, h⟩ := check_bind_eq_ok h
  obtain ⟨hashedLen, hlen, h⟩ := Throws.bind_eq_ok.mp h
  obtain ⟨-, h⟩ := check_bind_eq_ok h
  obtain ⟨unhashedLen, -, h⟩ := Throws.bind_eq_ok.mp h
  obtain ⟨-, h⟩ := check_bind_eq_ok h
  obtain ⟨hashed, hhashed, h⟩ := Throws.bind_eq_ok.mp h
  obtain ⟨acc, hunhashed, h⟩ := Throws.bind_eq_ok.mp h
  split at h
  · cases h
  next createdAt hcreated =>
  obtain ⟨-, h⟩ := check_bind_eq_ok h
  obtain ⟨-, h⟩ := check_bind_eq_ok h
  obtain ⟨s, -, h⟩ := Throws.bind_eq_ok.mp h
  obtain ⟨-, h⟩ := check_bind_eq_ok h
  cases h
  constructor
  · unfold hashedCreationTime
    unfold subarray at hhashed
    rw [hhashed]
    rw [← hcreated, createdAt_subpackets hunhashed]
  · have hbound := readUIntBE_lt hlen
    show (p.body.take (6 + hashedLen)).length < _
    rw [length_take]
    omega

/-! ## §8. All of it -/

/-- The payload and the hashed portion of a commit that is signed. -/
def signedParts (raw : Bytes) (objectFormat : GitObjectFormat) : Option (Bytes × Bytes) :=
  match splitSignedCommit raw objectFormat with
  | .ok (payload, signature) =>
    match parseSignature signature with
    | .ok sig => some (payload, sig.hashedPortion)
    | .error _ => none
  | .error _ => none

variable {crypto}

theorem verifyCommitSignature_returns (raw : Bytes) (objectFormat : GitObjectFormat)
    (pinned : List (PinnedSigningKey Key)) :
    ∃ verdict, verifyCommitSignature crypto raw objectFormat pinned = .ok verdict := by
  unfold verifyCommitSignature
  split
  · exact ⟨_, rfl⟩
  split
  · next hrange => exact absurd hrange (calm_parseSignature _)
  · exact ⟨_, rfl⟩
  next sig hsig =>
  iterate 3
    split
    · exact ⟨_, rfl⟩
  · unfold signedBytes uint32BE
    rw [if_pos (createdAt_of_parseSignature hsig).2]
    exact ⟨_, rfl⟩

/-- What was verified: a pinned key signed the payload and the hashed portion, and the time is the
hashed portion's. -/
theorem signed_of_verified {raw : Bytes} {objectFormat : GitObjectFormat}
    {pinned : List (PinnedSigningKey Key)} {fingerprint : Bytes} {createdAt : Nat}
    (h : verifyCommitSignature crypto raw objectFormat pinned = .ok (.ok fingerprint createdAt)) :
    ∃ payload hashedPortion signed, signedParts raw objectFormat = some (payload, hashedPortion) ∧
      (∃ signature, splitSignedCommit raw objectFormat = .ok (payload, signature)) ∧
      signedBytes payload hashedPortion = .ok signed ∧
      (∃ key ∈ pinned, key.fingerprint = fingerprint ∧
        ∃ sig, crypto.rsaVerify key.key signed sig = true) ∧
      hashedCreationTime hashedPortion = some createdAt := by
  unfold verifyCommitSignature at h
  split at h
  · cases h
  next payload signature hsplit =>
  split at h
  · cases h
  · cases h
  next sig hsig =>
  split at h
  · cases h
  next key hkey =>
  split at h
  · cases h
  split at h
  · cases h
  obtain ⟨signed, hsigned, hcheck⟩ := Throws.map_eq_ok.mp h
  unfold checkSigned at hcheck
  iterate 3
    split at hcheck
    · cases hcheck
  next hverify =>
  rw [not_not] at hverify
  cases hcheck
  refine ⟨payload, sig.hashedPortion, signed, ?_, ⟨signature, hsplit⟩, hsigned,
    ⟨key, mem_of_find?_eq_some hkey, rfl, _, hverify⟩, (createdAt_of_parseSignature hsig).1⟩
  unfold signedParts
  rw [hsplit]
  dsimp only
  rw [hsig]

/-- **What the signature covers is what is read**: the signed payload parses to the raw commit's
tree, parents and committer, the creation time is the signed hashed portion's alone, and every byte
string gets a verdict. -/
theorem signed_commit {Key : Type} (crypto : Crypto Key) :
    (∀ raw objectFormat pinned fingerprint createdAt,
      verifyCommitSignature crypto raw objectFormat pinned = .ok (.ok fingerprint createdAt) →
      ∃ payload hashedPortion signed, signedParts raw objectFormat = some (payload, hashedPortion) ∧
        signedBytes payload hashedPortion = .ok signed ∧
        (∃ key ∈ pinned, key.fingerprint = fingerprint ∧
          ∃ sig, crypto.rsaVerify key.key signed sig = true) ∧
        hashedCreationTime hashedPortion = some createdAt ∧
        ∀ hashLength commit, parseCommit raw hashLength = .ok commit →
          parseCommit payload hashLength = .ok { commit with raw := payload }) ∧
    (∀ raw raw' objectFormat objectFormat' pinned pinned' fingerprint fingerprint' createdAt
      createdAt',
      verifyCommitSignature crypto raw objectFormat pinned = .ok (.ok fingerprint createdAt) →
      verifyCommitSignature crypto raw' objectFormat' pinned' = .ok (.ok fingerprint' createdAt') →
      signedParts raw objectFormat = signedParts raw' objectFormat' → createdAt = createdAt') ∧
    ∀ raw objectFormat pinned,
      ∃ verdict, verifyCommitSignature crypto raw objectFormat pinned = .ok verdict := by
  refine ⟨?_, ?_, verifyCommitSignature_returns⟩
  · intro raw objectFormat pinned fingerprint createdAt h
    obtain ⟨payload, hashedPortion, signed, hparts, ⟨signature, hsplit⟩, hsigned, hkey, htime⟩ :=
      signed_of_verified h
    exact ⟨payload, hashedPortion, signed, hparts, hsigned, hkey, htime,
      fun _ _ hparse => parseCommit_payload hsplit hparse⟩
  · intro raw raw' objectFormat objectFormat' pinned pinned' fingerprint fingerprint' createdAt
      createdAt' h h' hsame
    obtain ⟨payload, portion, -, hparts, -, -, -, htime⟩ := signed_of_verified h
    obtain ⟨payload', portion', -, hparts', -, -, -, htime'⟩ := signed_of_verified h'
    rw [hparts, hparts'] at hsame
    injection hsame with hpair
    injection hpair with _ hportion
    rw [hportion, htime'] at htime
    exact (Option.some.inj htime).symm

end Motebit.Git
