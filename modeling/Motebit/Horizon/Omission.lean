/-
  Motebit.Horizon.Omission — WITNESS-OMISSION DISPUTES: what a verified one shows.

  Translated from `packages/crypto/src/witness-omission-dispute.ts` and, for the certificate in
  dispute, `services/relay/src/horizon.ts`.  The signature checks of the suites and base64url
  are parameters.

  The verifier ties the evidence to the certificate, and never to the party that files it.
-/

import Motebit.Merkle.Soundness
import Motebit.Roster.KeyChain
import Motebit.Signing.Delegation

namespace Motebit.Horizon

open Motebit.Lib Motebit.Merkle List
open Motebit.Roster (txt member stringMember toLowerCase)
open Motebit.Signing (numberValue)

/-! ## §1. Issuing a certificate -/

structure PeerRow where
  peer_relay_id : Text
  public_key : Text

structure FederationGraphAnchor where
  merkle_root : Text
  leaf_count : Nat

inductive HorizonSubject
  | motebit (motebit_id : Text)
  | operator (operator_id : Text)

def HorizonSubject.id : HorizonSubject → Text
  | .motebit motebit_id => motebit_id
  | .operator operator_id => operator_id

structure HorizonWitness where
  motebit_id : Text
  signature : Text

structure HorizonCertBody where
  subject : HorizonSubject
  horizon_ts : ℚ
  witnessed_by : List HorizonWitness
  federation_graph_anchor : Option FederationGraphAnchor
  issued_at : ℚ

structure HorizonCert extends HorizonCertBody where
  signature : Text

/-- The anchor's leaves: hexadecimal keys in lower case, sorted. -/
def sortedLeaves (peerPubkeysHex : List Text) : List Text :=
  sortOn id (peerPubkeysHex.map toLowerCase)

def EMPTY_FEDERATION_GRAPH_ANCHOR (H : Hash) : FederationGraphAnchor :=
  ⟨toHex (H.sha256 .empty), 0⟩

def computeFederationGraphAnchor (H : Hash) (peerPubkeysHex : List Text) :
    Except String FederationGraphAnchor :=
  if peerPubkeysHex.isEmpty then .ok (EMPTY_FEDERATION_GRAPH_ANCHOR H)
  else do
    let leaves := sortedLeaves peerPubkeysHex
    let tree ← buildMerkleTree H leaves MerkleTreeVersion.plainV1.id
    .ok ⟨tree.root, leaves.length⟩

/-- A peer's answer, as a witness: under its own id, and signed over the solicitation. -/
def solicitFromPeer (witnessSigned : PeerRow → HorizonWitness → Bool) (peer : PeerRow)
    (answer : Option HorizonWitness) : Option HorizonWitness :=
  answer.filter fun response =>
    response.motebit_id == peer.peer_relay_id && witnessSigned peer response

/-- `singleHorizonAttempt` over the peers it snapshots; without one there is nobody to ask. -/
def singleHorizonAttempt (H : Hash) (witnessSigned : PeerRow → HorizonWitness → Bool)
    (sign : HorizonCertBody → Text) (relayMotebitId : Text) (horizonTs issuedAt : ℚ)
    (peers : List PeerRow) (answers : PeerRow → Option HorizonWitness) :
    Except String (Option HorizonCert) := do
  let anchor ← computeFederationGraphAnchor H (peers.map PeerRow.public_key)
  let witnesses := peers.filterMap fun peer => solicitFromPeer witnessSigned peer (answers peer)
  if !peers.isEmpty && witnesses.isEmpty then .ok none
  else
    let body : HorizonCertBody :=
      { subject := .operator relayMotebitId, horizon_ts := horizonTs, witnessed_by := witnesses,
        federation_graph_anchor := some anchor, issued_at := issuedAt }
    .ok (some { body with signature := sign body })

/-! ## §2. Verifying a dispute -/

def WITNESS_OMISSION_DISPUTE_WINDOW_MS : ℚ := 24 * 60 * 60 * 1000

def HEARTBEAT_FRESHNESS_WINDOW_MS : ℚ := 5 * 60 * 1000

def WITNESS_OMISSION_DISPUTE_SUITE : Text := txt "motebit-jcs-ed25519-b64-v1"

def FEDERATION_HEARTBEAT_SUITE : Text := txt "motebit-concat-ed25519-hex-v1"

structure MerkleInclusionProof where
  siblings : List Text
  leaf_index : JsonNum
  layer_sizes : List JsonNum

inductive WitnessOmissionEvidence
  | inclusion_proof (leaf_hash : Text) (proof : MerkleInclusionProof)
  | alternative_peering (peering_artifact : List (Text × Json))

structure WitnessOmissionDispute where
  dispute_id : Text
  cert_issuer : Text
  cert_signature : Text
  disputant_motebit_id : Text
  evidence : WitnessOmissionEvidence
  filed_at : JsonNum
  suite : Text
  signature : Text

def WitnessOmissionEvidence.json : WitnessOmissionEvidence → Json
  | .inclusion_proof leaf_hash proof => .object
    [(txt "kind", .string (txt "inclusion_proof")), (txt "leaf_hash", .string leaf_hash),
      (txt "proof", .object [(txt "siblings", .array (proof.siblings.map .string)),
        (txt "leaf_index", .number proof.leaf_index),
        (txt "layer_sizes", .array (proof.layer_sizes.map .number))])]
  | .alternative_peering peering_artifact => .object
    [(txt "kind", .string (txt "alternative_peering")),
      (txt "peering_artifact", .object peering_artifact)]

def canonicalizeWitnessOmissionDispute (dispute : WitnessOmissionDispute) : Text :=
  toText (Json.canonical (.object [(txt "dispute_id", .string dispute.dispute_id),
      (txt "cert_issuer", .string dispute.cert_issuer),
      (txt "cert_signature", .string dispute.cert_signature),
      (txt "disputant_motebit_id", .string dispute.disputant_motebit_id),
      (txt "evidence", dispute.evidence.json), (txt "filed_at", .number dispute.filed_at),
      (txt "suite", .string dispute.suite)]))

structure Context where
  cert : HorizonCert
  issuerPublicKey : ByteArray
  disputantPublicKey : Option ByteArray
  now : ℚ

inductive DisputeError
  | window_expired | filed_at_outside | cert_signature | cert_issuer
  | disputant_unknown | unexpected_suite | signature_undecoded | signature_invalid
  | no_anchor | self_witnessed | proof_invalid
  | artifact_unrecognized | artifact_issuer | artifact_timestamp | artifact_signature
  deriving DecidableEq

structure Steps where
  window_open : Bool
  cert_binding_valid : Bool
  disputant_signature_valid : Bool
  evidence_valid : Option Bool

structure VerifyResult where
  valid : Bool
  errors : List DisputeError
  steps : Steps

/-- A check and its complaint. -/
def demand (ok : Bool) (error : DisputeError) : List DisputeError := if ok then [] else [error]

/-- A text that does not decode is empty; a message is its text, which `TextEncoder` encodes. -/
structure Primitives where
  hash : Hash
  fromBase64Url : Text → ByteArray
  verifyBySuite : Text → Text → ByteArray → ByteArray → Bool

section

variable (P : Primitives)

def disputantSignature (dispute : WitnessOmissionDispute) : Option ByteArray → List DisputeError
  | none => [.disputant_unknown]
  | some key =>
    if dispute.suite ≠ WITNESS_OMISSION_DISPUTE_SUITE then [.unexpected_suite]
    else
      let sigBytes := P.fromBase64Url dispute.signature
      if sigBytes.size = 0 then [.signature_undecoded]
      else demand (P.verifyBySuite dispute.suite (canonicalizeWitnessOmissionDispute dispute)
        sigBytes key) .signature_invalid

def heartbeatPayload (relayId : Text) (timestamp : JsonNum) : Text :=
  relayId ++ txt "|" ++ toText timestamp.text ++ txt "|" ++ FEDERATION_HEARTBEAT_SUITE

def verifyAlternativePeeringArtifact (artifact : List (Text × Json)) (ctx : Context) :
    List DisputeError :=
  match stringMember artifact "relay_id", member artifact "timestamp",
    stringMember artifact "signature" with
  | some relayId, some (.number timestamp), some signatureHex =>
    if relayId ≠ ctx.cert.subject.id then [.artifact_issuer]
    else if |numberValue timestamp - ctx.cert.horizon_ts| > HEARTBEAT_FRESHNESS_WINDOW_MS then
      [.artifact_timestamp]
    else demand (P.verifyBySuite FEDERATION_HEARTBEAT_SUITE (heartbeatPayload relayId timestamp)
      (fromHex signatureHex) ctx.issuerPublicKey) .artifact_signature
  | _, _, _ => [.artifact_unrecognized]

def verifyEvidence (ctx : Context) : WitnessOmissionEvidence → List DisputeError
  | .inclusion_proof leaf_hash proof =>
    match ctx.cert.federation_graph_anchor with
    | none => [.no_anchor]
    | some anchor =>
      if anchor.leaf_count = 0 then [.self_witnessed]
      else demand (verifyMerkleInclusion P.hash leaf_hash (.finite (numberValue proof.leaf_index))
        proof.siblings (proof.layer_sizes.map fun n => .finite (numberValue n))
        anchor.merkle_root MerkleTreeVersion.plainV1.id) .proof_invalid
  | .alternative_peering artifact => verifyAlternativePeeringArtifact P artifact ctx

def verifyWitnessOmissionDispute (dispute : WitnessOmissionDispute) (ctx : Context) :
    VerifyResult :=
  let windowEnd := ctx.cert.issued_at + WITNESS_OMISSION_DISPUTE_WINDOW_MS
  let filedAt := numberValue dispute.filed_at
  let window := demand (ctx.now ≤ windowEnd) .window_expired ++
    demand (ctx.cert.issued_at ≤ filedAt && filedAt ≤ windowEnd) .filed_at_outside
  let binding := demand (dispute.cert_signature == ctx.cert.signature) .cert_signature ++
    demand (dispute.cert_issuer == ctx.cert.subject.id) .cert_issuer
  let signature := disputantSignature P dispute ctx.disputantPublicKey
  let errors := window ++ binding ++ signature
  let steps := Steps.mk window.isEmpty binding.isEmpty signature.isEmpty
  if errors ≠ [] then ⟨false, errors, steps none⟩
  else
    let evidence := verifyEvidence P ctx dispute.evidence
    ⟨evidence.isEmpty, evidence, steps (some evidence.isEmpty)⟩

/-! ## §3. What the checks establish -/

/-- The artifact is a heartbeat of the issuer's at the horizon, from `relayId`. -/
def PeeredAtHorizon (ctx : Context) (artifact : List (Text × Json)) (relayId : Text) : Prop :=
  stringMember artifact "relay_id" = some relayId ∧
    ∃ timestamp signatureHex, member artifact "timestamp" = some (.number timestamp) ∧
      stringMember artifact "signature" = some signatureHex ∧
      |numberValue timestamp - ctx.cert.horizon_ts| ≤ HEARTBEAT_FRESHNESS_WINDOW_MS ∧
      P.verifyBySuite FEDERATION_HEARTBEAT_SUITE (heartbeatPayload relayId timestamp)
        (fromHex signatureHex) ctx.issuerPublicKey = true

/-- Some node of the anchored tree, or some heartbeat of the issuer's, is offered. -/
def EvidenceHolds (ctx : Context) : WitnessOmissionEvidence → Prop
  | .inclusion_proof leaf_hash proof => ∃ anchor, ctx.cert.federation_graph_anchor = some anchor ∧
      anchor.leaf_count ≠ 0 ∧
      verifyMerkleInclusion P.hash leaf_hash (.finite (numberValue proof.leaf_index)) proof.siblings
        (proof.layer_sizes.map fun n => .finite (numberValue n)) anchor.merkle_root
        MerkleTreeVersion.plainV1.id = true
  | .alternative_peering artifact => PeeredAtHorizon P ctx artifact ctx.cert.subject.id

def DisputantSigned (dispute : WitnessOmissionDispute) (publicKey : Option ByteArray) : Prop :=
  ∃ key, publicKey = some key ∧ dispute.suite = WITNESS_OMISSION_DISPUTE_SUITE ∧
    (P.fromBase64Url dispute.signature).size ≠ 0 ∧
    P.verifyBySuite dispute.suite (canonicalizeWitnessOmissionDispute dispute)
      (P.fromBase64Url dispute.signature) key = true

/-- No check refuses the dispute. -/
structure Passes (dispute : WitnessOmissionDispute) (ctx : Context) : Prop where
  open_ : ctx.now ≤ ctx.cert.issued_at + WITNESS_OMISSION_DISPUTE_WINDOW_MS
  filed : ctx.cert.issued_at ≤ numberValue dispute.filed_at ∧
    numberValue dispute.filed_at ≤ ctx.cert.issued_at + WITNESS_OMISSION_DISPUTE_WINDOW_MS
  bound : dispute.cert_signature = ctx.cert.signature ∧ dispute.cert_issuer = ctx.cert.subject.id
  signed : DisputantSigned P dispute ctx.disputantPublicKey
  evidence : EvidenceHolds P ctx dispute.evidence

@[simp] theorem demand_eq_nil {ok : Bool} {error : DisputeError} :
    demand ok error = [] ↔ ok = true := by
  cases ok <;> simp [demand]

variable {P} {dispute : WitnessOmissionDispute} {ctx : Context}

theorem disputantSignature_eq_nil {publicKey : Option ByteArray} :
    disputantSignature P dispute publicKey = [] ↔
      DisputantSigned P dispute publicKey := by
  unfold DisputantSigned
  cases publicKey with
  | none => simp [disputantSignature]
  | some =>
    by_cases hsuite : dispute.suite = WITNESS_OMISSION_DISPUTE_SUITE
    · by_cases hsize : (P.fromBase64Url dispute.signature).size = 0 <;>
        simp [disputantSignature, hsuite, hsize]
    · simp [disputantSignature, hsuite]

theorem artifact_eq_nil {artifact : List (Text × Json)} :
    verifyAlternativePeeringArtifact P artifact ctx = [] ↔
      PeeredAtHorizon P ctx artifact ctx.cert.subject.id := by
  unfold verifyAlternativePeeringArtifact PeeredAtHorizon
  split
  next relayId timestamp signatureHex hrelay htimestamp hsignature =>
    by_cases hid : relayId = ctx.cert.subject.id
    · subst hid
      by_cases hlate : |numberValue timestamp - ctx.cert.horizon_ts| > HEARTBEAT_FRESHNESS_WINDOW_MS
      · simp [hrelay, htimestamp, hsignature, hlate]
      · simp [hrelay, htimestamp, hsignature, hlate, not_lt.mp hlate]
    · simp [hrelay, hid]
  next hshape =>
    simp only [reduceCtorEq, false_iff]
    rintro ⟨hrelay, timestamp, signatureHex, htimestamp, hsignature, -⟩
    exact hshape _ _ _ hrelay htimestamp hsignature

theorem evidence_eq_nil {evidence : WitnessOmissionEvidence} :
    verifyEvidence P ctx evidence = [] ↔
      EvidenceHolds P ctx evidence := by
  cases evidence with
  | inclusion_proof =>
    unfold verifyEvidence EvidenceHolds
    cases ctx.cert.federation_graph_anchor with
    | none => simp
    | some anchor => by_cases hempty : anchor.leaf_count = 0 <;> simp [hempty]
  | alternative_peering => exact artifact_eq_nil

/-- **A dispute is valid exactly if no check refuses it.** -/
theorem valid_iff_passes :
    (verifyWitnessOmissionDispute P dispute ctx).valid = true ↔
      Passes P dispute ctx := by
  unfold verifyWitnessOmissionDispute
  dsimp only
  split
  next hrefused =>
    simp only [Bool.false_eq_true, false_iff]
    intro h
    refine hrefused ?_
    simp [disputantSignature_eq_nil.mpr h.signed, h.open_, h.filed, h.bound]
  next hsound =>
    simp only [not_not, append_eq_nil_iff, demand_eq_nil, decide_eq_true_eq, Bool.and_eq_true,
      beq_iff_eq, disputantSignature_eq_nil] at hsound
    obtain ⟨⟨⟨hopen, hfiled⟩, hbound⟩, hsigned⟩ := hsound
    rw [List.isEmpty_iff, evidence_eq_nil]
    exact ⟨fun h => ⟨hopen, hfiled, hbound, hsigned, h⟩, Passes.evidence⟩

/-! ## §4. A real omission -/

/-- The disputant was left out: its key is anchored, or the issuer's heartbeat names it. -/
def RealOmission (P : Primitives) (peers : List PeerRow) (dispute : WitnessOmissionDispute)
    (ctx : Context) : Prop :=
  dispute.disputant_motebit_id ∉ ctx.cert.witnessed_by.map HorizonWitness.motebit_id ∧
    match dispute.evidence with
    | .inclusion_proof _ _ => ∃ key, ctx.disputantPublicKey = some key ∧
        ∃ leaf ∈ sortedLeaves (peers.map PeerRow.public_key), fromHex leaf = key
    | .alternative_peering artifact => PeeredAtHorizon P ctx artifact dispute.disputant_motebit_id

/-- What no check asks: the disputant is no witness, and is a snapshotted peer by its key, or
    the issuer itself, the only party a heartbeat names. -/
def Tied (relayMotebitId : Text) (peers : List PeerRow) (dispute : WitnessOmissionDispute)
    (ctx : Context) : Prop :=
  dispute.disputant_motebit_id ∉ ctx.cert.witnessed_by.map HorizonWitness.motebit_id ∧
    match dispute.evidence with
    | .inclusion_proof _ _ => ∃ peer ∈ peers,
        ctx.disputantPublicKey = some (fromHex (toLowerCase peer.public_key))
    | .alternative_peering _ => dispute.disputant_motebit_id = relayMotebitId

variable {H : Hash} {witnessSigned : PeerRow → HorizonWitness → Bool}
  {sign : HorizonCertBody → Text} {relayMotebitId : Text} {horizonTs issuedAt : ℚ}
  {peers : List PeerRow} {answers : PeerRow → Option HorizonWitness}

theorem subject_of_attempt {cert : HorizonCert}
    (h : singleHorizonAttempt H witnessSigned sign relayMotebitId horizonTs issuedAt peers answers =
      .ok (some cert)) : cert.subject = .operator relayMotebitId := by
  unfold singleHorizonAttempt at h
  cases hanchor : computeFederationGraphAnchor H (peers.map PeerRow.public_key) with
  | error => simp [hanchor, bind, Except.bind] at h
  | ok =>
    simp only [hanchor, bind, Except.bind] at h
    split at h
    · cases h
    · cases h
      rfl

end

/-! ## §5. A stranger's dispute -/

def onePeer : List PeerRow := [⟨txt "b", Signing.keyOf 'b'⟩]

/-- The certificate over one peer, `b`, which signed. -/
def soleCert : HorizonCert where
  subject := .operator (txt "relay")
  horizon_ts := 0
  witnessed_by := [⟨txt "b", []⟩]
  federation_graph_anchor := some ⟨Signing.keyOf 'b', 1⟩
  issued_at := 0
  signature := txt "signed"

/-- Filed by `a`, which is no peer, with the leaf of `b`. -/
def strangersDispute : WitnessOmissionDispute where
  dispute_id := txt "d"
  cert_issuer := txt "relay"
  cert_signature := txt "signed"
  disputant_motebit_id := txt "a"
  evidence := .inclusion_proof (Signing.keyOf 'b') ⟨[], .negZero, []⟩
  filed_at := .negZero
  suite := WITNESS_OMISSION_DISPUTE_SUITE
  signature := Signing.keyOf 'a'

def strangersContext : Context where
  cert := soleCert
  issuerPublicKey := fromHex (Signing.keyOf 'c')
  disputantPublicKey := some (fromHex (Signing.keyOf 'a'))
  now := 0

/-- The key doubles as its holder's signature. -/
def keyShown : Primitives := ⟨prefixHash, fromHex, fun _ _ sigBytes key => sigBytes = key⟩

theorem sortedLeaves_onePeer :
    sortedLeaves (onePeer.map PeerRow.public_key) = [Signing.keyOf 'b'] := by
  decide

theorem soleCert_issued :
    singleHorizonAttempt prefixHash (fun _ _ => true) (fun _ => txt "signed") (txt "relay") 0 0
      onePeer (fun _ => some ⟨txt "b", []⟩) = .ok (some strangersContext.cert) := by
  have hlayers : MerkleTree.layersFrom (nodeText prefixHash none) [Signing.keyOf 'b'] =
      [[Signing.keyOf 'b']] := by
    rw [MerkleTree.layersFrom]
    exact if_neg (Nat.lt_irrefl 1)
  have hanchor : computeFederationGraphAnchor prefixHash (onePeer.map PeerRow.public_key) =
      .ok ⟨(MerkleTree.top (MerkleTree.layersFrom (nodeText prefixHash none)
        (sortedLeaves (onePeer.map PeerRow.public_key)))).getD [], 1⟩ := rfl
  rw [sortedLeaves_onePeer, hlayers] at hanchor
  unfold singleHorizonAttempt
  rw [hanchor]
  rfl

end Motebit.Horizon
