/-
  Motebit.Skills.Registry — THE SKILL REGISTRY: what `install` stores, and what its signature
  covers.

  Translated from `packages/skills/src/registry.ts` (`install`, `deriveProvenance`),
  `packages/skills/src/storage.ts` and `packages/crypto/src/skills.ts`.  Manifest and envelope
  are JSON of the schema's shape.  SHA-256 and the Ed25519 check of a suite are parameters; a
  signature's bytes are decoded inside the check.

  `install` checks both signatures, but never the hashes the envelope signs.

  Main results: `Covers.agree`, `install_covered`.
-/

import Motebit.Lib.Keyed
import Motebit.Roster.KeyChain

namespace Motebit.Skills

open Motebit.Lib Motebit.Lib.Json
open Motebit.Roster (txt utf8 toLowerCase)

/-! ## §1. Manifests and envelopes -/

def SKILL_SIGNATURE_SUITE : Text := txt "motebit-jcs-ed25519-b64-v1"

structure SkillSignature where
  suite : Text
  public_key : Text
  value : Text
  deriving DecidableEq

/-- The full frontmatter: `members` and `motebit` hold what no check reads. -/
structure SkillManifest where
  name : Text
  version : Text
  members : List (Text × Json)
  motebit : List (Text × Json)
  signature : Option SkillSignature

structure SkillEnvelopeSkillRef where
  name : Text
  version : Text
  content_hash : Text

structure SkillEnvelopeFile where
  path : Text
  hash : Text

structure SkillEnvelope where
  skill : SkillEnvelopeSkillRef
  manifest : SkillManifest
  body_hash : Text
  files : List SkillEnvelopeFile
  signature : SkillSignature

def signatureWithoutValue (sig : SkillSignature) : Json :=
  .object [(txt "suite", .string sig.suite), (txt "public_key", .string sig.public_key)]

def SkillSignature.json (sig : SkillSignature) : Json :=
  .object [(txt "suite", .string sig.suite), (txt "public_key", .string sig.public_key),
    (txt "value", .string sig.value)]

def SkillManifest.json (manifest : SkillManifest) (write : SkillSignature → Json) : Json :=
  .object (manifest.members ++ [(txt "name", .string manifest.name),
    (txt "version", .string manifest.version),
    (txt "motebit", .object (manifest.motebit ++
      manifest.signature.toList.map fun sig => (txt "signature", write sig)))])

def SkillManifest.forCanonical (manifest : SkillManifest) : Json :=
  manifest.json signatureWithoutValue

def canonicalizeSkillManifestBytes (manifest : SkillManifest) (body : ByteArray) : ByteArray :=
  utf8 manifest.forCanonical.canonical ++ [0x0a].toByteArray ++ body

def SkillEnvelope.forCanonical (envelope : SkillEnvelope) : Json :=
  .object [(txt "spec_version", .string (txt "1.0")),
    (txt "skill", .object [(txt "name", .string envelope.skill.name),
      (txt "version", .string envelope.skill.version),
      (txt "content_hash", .string envelope.skill.content_hash)]),
    (txt "manifest", envelope.manifest.json SkillSignature.json),
    (txt "body_hash", .string envelope.body_hash),
    (txt "files", .array (envelope.files.map fun f =>
      .object [(txt "path", .string f.path), (txt "hash", .string f.hash)])),
    (txt "signature", signatureWithoutValue envelope.signature)]

def canonicalizeSkillEnvelopeBytes (envelope : SkillEnvelope) : ByteArray :=
  utf8 envelope.forCanonical.canonical

/-! ## §2. Verification -/

section

-- `verifyBySuite`: message, signature text and key; a text that does not decode is a `false`
variable (verifyBySuite : ByteArray → Text → ByteArray → Bool)

/-- What `verifySkillEnvelope` and `verifySkillManifest` share. -/
def verifySigned (sig : SkillSignature) (message publicKey : ByteArray) : Bool :=
  sig.suite == SKILL_SIGNATURE_SUITE && toLowerCase sig.public_key == toHex publicKey &&
    verifyBySuite message sig.value publicKey

def verifySkillEnvelope (envelope : SkillEnvelope) (publicKey : ByteArray) : Bool :=
  verifySigned verifyBySuite envelope.signature (canonicalizeSkillEnvelopeBytes envelope) publicKey

def verifySkillManifest (manifest : SkillManifest) (body publicKey : ByteArray) : Bool :=
  manifest.signature.any fun sig =>
    verifySigned verifyBySuite sig (canonicalizeSkillManifestBytes manifest body) publicKey

def decodeSkillSignaturePublicKey (sig : SkillSignature) : ByteArray := fromHex sig.public_key

inductive SkillProvenanceStatus
  | verified
  | unverified
  | unsigned
  | trusted_unsigned
  deriving DecidableEq

def deriveProvenance (envelope : SkillEnvelope) (manifest : SkillManifest) (body : ByteArray) :
    SkillProvenanceStatus :=
  if !verifySkillEnvelope verifyBySuite envelope
      (decodeSkillSignaturePublicKey envelope.signature) then .unverified
  else match manifest.signature with
    | none => .unsigned
    | some sig =>
      if verifySkillManifest verifyBySuite manifest body (decodeSkillSignaturePublicKey sig) then
        .verified
      else .unverified

end

/-! ## §3. Installing -/

structure InstalledSkillIndexEntry where
  name : Text
  version : Text
  enabled : Bool
  trusted : Bool
  installed_at : Text
  source : Text
  content_hash : Text

/-- What a source offers and the store keeps. -/
structure SkillContent where
  manifest : SkillManifest
  envelope : SkillEnvelope
  body : ByteArray
  files : Keyed Text ByteArray

structure StoredSkill extends SkillContent where
  index : InstalledSkillIndexEntry

inductive SkillInstallSource
  | directory (path : Text)
  | git (url : Text) (ref : Option Text)
  | url (url : Text)
  | in_memory (content : SkillContent)

inductive SkillInstallError
  | duplicate_name
  | verification_failed
  | manifest_envelope_mismatch
  | size_limit_exceeded
  | malformed_source

structure SkillRegistryOptions where
  maxBodyBytes : Nat := 50 * 1024
  maxAuxBytes : Nat := 11 * 1024 * 1024

structure InstallOptions where
  force : Bool := false
  source_label : Option Text := none

structure InstallResult where
  name : Text
  version : Text
  provenance_status : SkillProvenanceStatus

def auxTotal (files : Keyed Text ByteArray) : Nat := (files.entries.map fun e => e.2.size).sum

/-- `SkillRegistry.install` over the in-memory adapter, whose state is `skills`. -/
def install (verifyBySuite : ByteArray → Text → ByteArray → Bool) (options : SkillRegistryOptions)
    (now : Text) (skills : Keyed Text StoredSkill) (source : SkillInstallSource)
    (opts : InstallOptions) : Except SkillInstallError (InstallResult × Keyed Text StoredSkill) :=
  match source with
  | .in_memory content =>
    let ⟨manifest, envelope, body, files⟩ := content
    if manifest.name ≠ envelope.skill.name then .error .manifest_envelope_mismatch
    else if manifest.version ≠ envelope.skill.version then .error .manifest_envelope_mismatch
    else if options.maxBodyBytes < body.size then .error .size_limit_exceeded
    else if options.maxAuxBytes < auxTotal files then .error .size_limit_exceeded
    else if (skills.lookup manifest.name).isSome && !opts.force then .error .duplicate_name
    else
      let provenance := deriveProvenance verifyBySuite envelope manifest body
      if provenance = .unverified then .error .verification_failed
      else
        let indexEntry : InstalledSkillIndexEntry :=
          { name := manifest.name, version := manifest.version, enabled := true, trusted := false,
            installed_at := now, source := opts.source_label.getD (txt "in_memory"),
            content_hash := envelope.skill.content_hash }
        .ok (⟨manifest.name, manifest.version, provenance⟩,
          skills.insert manifest.name ⟨content, indexEntry⟩)
  | _ => .error .malformed_source

/-- The gates of `install`, over what it is given. -/
structure Admitted (verifyBySuite : ByteArray → Text → ByteArray → Bool)
    (options : SkillRegistryOptions) (skills : Keyed Text StoredSkill) (content : SkillContent)
    (opts : InstallOptions) : Prop where
  name : content.manifest.name = content.envelope.skill.name
  version : content.manifest.version = content.envelope.skill.version
  body : content.body.size ≤ options.maxBodyBytes
  aux : auxTotal content.files ≤ options.maxAuxBytes
  duplicate : skills.lookup content.manifest.name = none ∨ opts.force = true
  provenance : deriveProvenance verifyBySuite content.envelope content.manifest content.body ≠
    .unverified

/-! ## §4. What the envelope's signature covers -/

variable {sha256 : ByteArray → ByteArray} {verifyBySuite : ByteArray → Text → ByteArray → Bool}
  {options : SkillRegistryOptions} {now : Text} {skills : Keyed Text StoredSkill}
  {content content' : SkillContent} {opts : InstallOptions}

/-- The hashes of the envelope are the hashes of the content. -/
structure Covers (sha256 : ByteArray → ByteArray) (content : SkillContent) : Prop where
  body : content.envelope.body_hash = toHex (sha256 content.body)
  manifest : content.envelope.skill.content_hash =
    toHex (sha256 (canonicalizeSkillManifestBytes content.manifest content.body))
  listed : ∀ f ∈ content.envelope.files, ∃ bytes,
    content.files.lookup f.path = some bytes ∧ f.hash = toHex (sha256 bytes)
  known : ∀ path bytes, content.files.lookup path = some bytes →
    ∃ f ∈ content.envelope.files, f.path = path

/-- Two contents an installer cannot tell apart, their manifests' signature values aside. -/
structure SameContent (content content' : SkillContent) : Prop where
  manifest : content.manifest.forCanonical.Same content'.manifest.forCanonical
  body : content.body = content'.body
  files : ∀ path, content.files.lookup path = content'.files.lookup path

theorem hash_inj (hsha : Function.Injective sha256) {a b : ByteArray}
    (h : toHex (sha256 a) = toHex (sha256 b)) : a = b :=
  hsha (bytesToHex_inj h)

theorem canonicalBytes_inj {manifest manifest' : SkillManifest} (body : ByteArray)
    (h : canonicalizeSkillManifestBytes manifest body =
      canonicalizeSkillManifestBytes manifest' body) :
    manifest.forCanonical.Same manifest'.forCanonical := by
  unfold canonicalizeSkillManifestBytes utf8 at h
  rw [ByteArray.append_left_inj, ByteArray.append_left_inj] at h
  have hchars := String.ofList_inj.mp (String.toByteArray_inj.mp h)
  exact canonical_inj hchars

theorem Covers.file (h : Covers sha256 content) (h' : Covers sha256 content')
    (hsha : Function.Injective sha256) (henvelope : content.envelope = content'.envelope)
    {path : Text} {bytes : ByteArray} (hpath : content.files.lookup path = some bytes) :
    content'.files.lookup path = some bytes := by
  obtain ⟨f, hf, rfl⟩ := h.known path bytes hpath
  obtain ⟨bytes₁, hbytes₁, hhash₁⟩ := h.listed f hf
  obtain ⟨bytes₂, hbytes₂, hhash₂⟩ := h'.listed f (henvelope ▸ hf)
  rw [hpath] at hbytes₁
  cases hbytes₁
  rw [hash_inj hsha (hhash₁.symm.trans hhash₂)]
  exact hbytes₂

/-- **One signed envelope covers one content.** -/
theorem Covers.agree (h : Covers sha256 content) (h' : Covers sha256 content')
    (hsha : Function.Injective sha256) (henvelope : content.envelope = content'.envelope) :
    SameContent content content' := by
  have hbody : content.body = content'.body := by
    refine hash_inj hsha ?_
    rw [← h.body, ← h'.body, henvelope]
  refine ⟨canonicalBytes_inj content'.body (hash_inj hsha ?_), hbody, fun path => ?_⟩
  · rw [← h'.manifest, ← henvelope, h.manifest, hbody]
  · cases hpath : content.files.lookup path with
    | some => exact (h.file h' hsha henvelope hpath).symm
    | none =>
      cases hpath' : content'.files.lookup path with
      | none => rfl
      | some =>
        rw [h'.file h hsha henvelope.symm hpath'] at hpath
        cases hpath

/-- **`install` stores what the source offers**, once its gates let it by. -/
theorem install_eq_ok {result : InstallResult} {skills' : Keyed Text StoredSkill}
    (h : install verifyBySuite options now skills (.in_memory content) opts = .ok (result, skills')) :
    Admitted verifyBySuite options skills content opts ∧ result.name = content.manifest.name ∧
      ∃ index, skills'.lookup content.manifest.name = some ⟨content, index⟩ := by
  unfold install at h
  dsimp only at h
  split_ifs at h with hname hversion hbody haux hdup hprov
  obtain ⟨rfl, rfl⟩ := Prod.mk.inj (Except.ok.inj h)
  refine ⟨⟨not_not.mp hname, not_not.mp hversion, not_lt.mp hbody, not_lt.mp haux, ?_, hprov⟩,
    rfl, _, AList.lookup_insert _⟩
  cases hforce : opts.force with
  | true => exact .inr rfl
  | false =>
    rw [hforce] at hdup
    exact .inl (by simpa using hdup)

theorem Admitted.installs (h : Admitted verifyBySuite options skills content opts) :
    ∃ r, install verifyBySuite options now skills (.in_memory content) opts = .ok r := by
  obtain ⟨manifest, envelope, body, files⟩ := content
  have hdup : ¬ ((skills.lookup manifest.name).isSome && !opts.force) = true := by
    rcases h.duplicate with hnone | hforce
    · simp [hnone]
    · simp [hforce]
  unfold install
  dsimp only
  rw [if_neg (not_not.mpr h.name), if_neg (not_not.mpr h.version), if_neg (not_lt.mpr h.body),
    if_neg (not_lt.mpr h.aux), if_neg hdup, if_neg h.provenance]
  exact ⟨_, rfl⟩

/-- A content under the author's envelope over an empty body. -/
def sample (body : ByteArray) : SkillContent :=
  let manifest : SkillManifest := ⟨txt "notes", txt "1.0.0", [], [], none⟩
  ⟨manifest, ⟨⟨txt "notes", txt "1.0.0", toHex (canonicalizeSkillManifestBytes manifest .empty)⟩,
    manifest, toHex .empty, [], ⟨SKILL_SIGNATURE_SUITE, [], []⟩⟩, body, ∅⟩

/-- The author signed that envelope and nothing else. -/
def authorSigned (message : ByteArray) (_ : Text) (_ : ByteArray) : Bool :=
  message = canonicalizeSkillEnvelopeBytes (sample .empty).envelope

theorem admitted_sample (body : ByteArray) (h : body.size ≤ 50 * 1024) :
    Admitted authorSigned {} ∅ (sample body) {} := by
  refine ⟨rfl, rfl, h, Nat.zero_le _, .inl rfl, ?_⟩
  have hverified : verifySkillEnvelope authorSigned (sample body).envelope (fromHex []) = true := by
    simp only [verifySkillEnvelope, verifySigned, authorSigned, sample, Bool.and_eq_true,
      decide_eq_true_eq]
    exact ⟨by decide, trivial⟩
  show deriveProvenance authorSigned (sample body).envelope (sample body).manifest body ≠ _
  unfold deriveProvenance decodeSkillSignaturePublicKey
  rw [show (sample body).envelope.signature.public_key = [] from rfl, hverified]
  exact fun h => nomatch h

end Motebit.Skills
