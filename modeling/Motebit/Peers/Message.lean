/-
  Motebit.Peers.Message — SIGNED FEDERATION MESSAGES
  (packages/crypto/src/federation-message.ts, and `refuseBeforeLookup` in
  services/relay/src/federation.ts).

  A message names the one relay it is for, by id and by key.  A signature is the key it verifies
  under: signatures cannot be forged, so a message with signer `K` is one the holder of `K` made.
  A digest is the body it commits to.
-/

import Motebit.Lib.Hex
import Motebit.Lib.Throws

namespace Motebit.Peers

open Motebit.Lib

/-! ## §1. Messages -/

inductive FederationMessageKind
  | heartbeat
  | heartbeatAck
  | peerRemove
  | peerChallenge
  | peerConfirm
  | discover
  | taskForward
  | taskResult
  | settlementForward
  deriving DecidableEq

/-- What a message commits to; `work` is the request's own fields of a work kind. -/
inductive Body
  | heartbeat (agentCount : Nat) (revocations : List String)
  | heartbeatAck (requestNonce : String) (agentCount : Int)
  | remove
  | challenge (requestNonce nonce proposerEndpointUrl : String)
  | confirm (nonce endpointUrl : String)
  | work (fields : String)
  deriving DecidableEq

structure FederationMessageEnvelope where
  kind : FederationMessageKind
  sender : String
  recipient : String
  recipientPublicKey : String
  ts : Int
  nonce : String
  body : Body
  suite : String
  deriving DecidableEq

structure SignedFederationMessage where
  envelope : FederationMessageEnvelope
  signer : String
  deriving DecidableEq

def federationMessageSuite : String := "motebit-jcs-ed25519-hex-v1"

/-- Every kind's freshness window. -/
def maxSkewMs : Nat := 300000

inductive FederationMessageRefusal
  | kindMismatch
  | unsupportedSuite
  | wrongRecipient
  | wrongRecipientKey
  | wrongSender
  | stale
  | bodyMismatch
  | badSignature
  deriving DecidableEq

/-! ## §2. Verification -/

/-- Who verifies: the relay's own id and key. -/
structure RelayIdentity where
  relayMotebitId : String
  publicKeyHex : String
  deriving DecidableEq

structure Expectation where
  kind : FederationMessageKind
  expectedSender : Option String
  senderPublicKeyHex : String
  body : Body
  deriving DecidableEq

/-- The checks that come before the sender's key is looked up. -/
def refuseBeforeLookup (self : RelayIdentity) (kind : FederationMessageKind)
    (env : FederationMessageEnvelope) : Option FederationMessageRefusal :=
  if env.recipientPublicKey ≠ toLowerCase self.publicKeyHex then some .wrongRecipientKey
  else if env.kind ≠ kind then some .kindMismatch
  else if env.recipient ≠ self.relayMotebitId then some .wrongRecipient
  else none

/-- `verifyFederationMessage` up to its first await. -/
def verifyOpen (self : RelayIdentity) (expect : Expectation) (now : Int)
    (env : FederationMessageEnvelope) : Option FederationMessageRefusal :=
  if env.recipientPublicKey ≠ toLowerCase self.publicKeyHex then some .wrongRecipientKey
  else if env.kind ≠ expect.kind then some .kindMismatch
  else if env.suite ≠ federationMessageSuite then some .unsupportedSuite
  else if env.recipient ≠ self.relayMotebitId then some .wrongRecipient
  else if expect.expectedSender.isSome ∧ expect.expectedSender ≠ some env.sender then
    some .wrongSender
  else if maxSkewMs < (now - env.ts).natAbs then some .stale
  else none

/-- The rest of it: the body's digest and the signature. -/
def verifyClose (expect : Expectation) (message : SignedFederationMessage) :
    Option FederationMessageRefusal :=
  if expect.body ≠ message.envelope.body then some .bodyMismatch
  else if message.signer ≠ toLowerCase expect.senderPublicKeyHex then some .badSignature
  else none

/-- What a message that passed both halves is. -/
structure Verified (own : RelayIdentity) (expect : Expectation) (now : Int)
    (message : SignedFederationMessage) : Prop where
  recipientKey : message.envelope.recipientPublicKey = toLowerCase own.publicKeyHex
  recipient : message.envelope.recipient = own.relayMotebitId
  kind : message.envelope.kind = expect.kind
  fresh : (now - message.envelope.ts).natAbs ≤ maxSkewMs
  body : message.envelope.body = expect.body
  signer : message.signer = toLowerCase expect.senderPublicKeyHex

theorem verified_of_checks {self : RelayIdentity} {expect : Expectation} {now : Int}
    {message : SignedFederationMessage} (hopen : verifyOpen self expect now message.envelope = none)
    (hclose : verifyClose expect message = none) : Verified self expect now message := by
  unfold verifyOpen at hopen
  unfold verifyClose at hclose
  split at hopen
  · cases hopen
  next hkey =>
  split at hopen
  · cases hopen
  next hkind =>
  split at hopen
  · cases hopen
  split at hopen
  · cases hopen
  next hrecipient =>
  split at hopen
  · cases hopen
  split at hopen
  · cases hopen
  next hfresh =>
  split at hclose
  · cases hclose
  next hbody =>
  split at hclose
  · cases hclose
  next hsigner =>
  exact ⟨of_not_not hkey, of_not_not hrecipient, of_not_not hkind, Nat.not_lt.mp hfresh,
    (of_not_not hbody).symm, of_not_not hsigner⟩

end Motebit.Peers
