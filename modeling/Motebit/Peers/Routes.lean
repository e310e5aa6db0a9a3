/-
  Motebit.Peers.Routes — THE PEERING ROUTES of one relay (services/relay/src/federation.ts):
  propose, confirm, heartbeat, remove, the work messages' gate, and the heartbeat loop.

  Each route reads the peer's row and checks the message up to its first await (`…Open`), awaits
  the signature, and then counts, consumes the nonce and writes in one turn (`…Close`).  A turn
  that throws keeps what it counted and rolls its transaction back.
-/

import Motebit.Peers.Rows

namespace Motebit.Peers

open Motebit.Lib

/-! ## §1. The relay -/

/-- The fields of a propose kept beside the table, by nonce. -/
structure Cosmetic where
  displayName : Option String
  peerProtocolVersion : Option String
  deriving DecidableEq

structure Relay where
  now : Int
  peers : PeerTable
  nonces : List NonceRow
  windows : String → Option Window
  cosmetics : List (String × Cosmetic)
  handshakeKey : String

/-- The relay's configuration; `tag` is the handshake's HMAC under a key. -/
structure FederationConfig where
  self : RelayIdentity
  federationEnabled : Bool
  maxPeers : Nat
  blockedPeers : List String
  allowedPeers : List String
  relaySpecVersion : String
  tag : String → String → String → String → String → Int → String

inductive PeerFault
  | federationDisabled
  | incompatibleVersion
  | blockedPeer
  | notInAllowlist
  | maxPeersReached
  | keyOnRecord
  | alreadyActive
  | cooldown (retryAfter : Int)
  | missing (field : String)
  | selfPropose
  | endpointRefused
  | notHex
  | malformedPropose
  | version1
  | malformed
  | refused (reason : FederationMessageRefusal)
  | notSender
  | noPendingHandshake
  | unknownPeer
  | replayed
  | rateLimited (retryAfter : Int)
  | rowChanged
  deriving DecidableEq

def PeerFault.status : PeerFault → Nat
  | .federationDisabled | .incompatibleVersion | .blockedPeer | .notInAllowlist
  | .noPendingHandshake | .unknownPeer | .refused .badSignature => 403
  | .maxPeersReached => 503
  | .keyOnRecord | .alreadyActive | .replayed | .rowChanged => 409
  | .cooldown _ | .rateLimited _ => 429
  | .missing _ | .selfPropose | .endpointRefused | .notHex | .malformedPropose | .version1
  | .malformed | .refused _ | .notSender => 400

def ceilSeconds (ms : Int) : Int := -((-ms) / 1000)

/-! ## §2. Governance -/

/-- The digits after an `@`, when a dot follows them. -/
def majorAt (cs : List Char) : Option Nat :=
  match cs.takeWhile Char.isDigit, (cs.dropWhile Char.isDigit).head? with
  | [], _ => none
  | digits, some '.' => (String.ofList digits).toNat?
  | _, _ => none

/-- `/@(\d+)\./`, its first match. -/
def parseMajorVersion : List Char → Option Nat
  | [] => none
  | c :: cs =>
    if c = '@' then (majorAt cs).or (parseMajorVersion cs) else parseMajorVersion cs

/-- A known peer version must have this relay's major version. -/
def compatible (C : FederationConfig) (peerSpecVersion : Option String) : Bool :=
  match peerSpecVersion with
  | none => true
  | some "" => true
  | some v =>
    match parseMajorVersion C.relaySpecVersion.toList, parseMajorVersion v.toList with
    | some ours, some theirs => ours = theirs
    | _, _ => true

def checkPeerPolicy (C : FederationConfig) (relayId : String) : Option PeerFault :=
  if relayId ∈ C.blockedPeers then some .blockedPeer
  else if C.allowedPeers ≠ [] ∧ relayId ∉ C.allowedPeers then some .notInAllowlist
  else none

/-- `checkPeerLimit`: the window counts whatever the answer. -/
def checkPeerLimit (relayId : String) (s : Relay) : Option PeerFault × Relay :=
  let r := checkLimit relayId s.now s.windows
  let resetAt := ((r.2 relayId).map (·.resetAt)).getD 0
  (if r.1 then none else some (.rateLimited (ceilSeconds (resetAt - s.now))),
    { s with windows := r.2 })

/-- A removed peer re-handshakes only five minutes after its last verified message. -/
def checkRemovedCooldown (now : Int) (peer : Option PeerRow) : Option PeerFault :=
  match peer with
  | none => none
  | some p =>
    match p.lastHeartbeatAt with
    | none => none
    | some last =>
      if p.state = .removed ∧ last ≠ 0 ∧ now - last < 300000 then
        some (.cooldown (ceilSeconds (300000 - (now - last))))
      else none

def confirmed (existing : Option PeerRow) : Option PeerRow :=
  existing.filter fun r => r.peeredAt.isSome

/-! ## §3. Propose -/

def handshakeWindowMs : Int := 300000

def isHex64 (s : String) : Bool := s.length = 64 && s.toList.all isLowerHex

/-- The nonce a propose answers with is the handshake itself. -/
def issueHandshake (C : FederationConfig) (s : Relay) (rand relayId publicKey endpointUrl : String) :
    String :=
  rand ++ C.tag s.handshakeKey relayId (toLowerCase publicKey) endpointUrl rand
    (s.now / handshakeWindowMs)

/-- The nonce was issued for exactly this id, key and endpoint, in this window or the last. -/
def handshakeValid (C : FederationConfig) (s : Relay) (relayId publicKey endpointUrl nonce : String) :
    Bool :=
  let rand := (nonce.take 32).toString
  let tag := (nonce.drop 32).toString
  let window := s.now / handshakeWindowMs
  isHex64 nonce && ([window, window - 1].any fun w =>
    tag = C.tag s.handshakeKey relayId (toLowerCase publicKey) endpointUrl rand w)

/-- A propose's body; an absent field is the empty string. -/
structure Propose where
  relayId : String
  publicKey : String
  endpointUrl : String
  displayName : Option String
  nonce : String
  specVersion : Option String
  deriving DecidableEq

/-- The checks before the endpoint is resolved. -/
def proposeFields (C : FederationConfig) (r : Propose) : Option PeerFault :=
  if r.relayId = "" ∨ r.publicKey = "" then some (.missing "relay_id, public_key")
  else if r.relayId = C.self.relayMotebitId then some .selfPropose
  else if r.endpointUrl = "" then some (.missing "endpoint_url")
  else if r.nonce = "" then some (.missing "nonce")
  else none

/-- The propose's turn: the nonce it answers with.  It writes nothing. -/
def proposeTurn (C : FederationConfig) (r : Propose) (rand : String) (s : Relay) :
    Except PeerFault String :=
  let peer := confirmed (s.peers.lookup r.relayId)
  if !C.federationEnabled then .error .federationDisabled
  else if !compatible C r.specVersion then .error .incompatibleVersion
  else
    match checkPeerPolicy C r.relayId with
    | some fault => .error fault
    | none =>
      if C.maxPeers ≤ activeCount s.peers then .error .maxPeersReached
      else if peer.any fun p => toLowerCase p.publicKey ≠ toLowerCase r.publicKey then
        .error .keyOnRecord
      else if peer.any fun p => p.state = .active then .error .alreadyActive
      else
        match checkRemovedCooldown s.now peer with
        | some fault => .error fault
        | none =>
          if !isHex64 (toLowerCase r.publicKey) then .error .notHex
          else .ok (issueHandshake C s rand r.relayId r.publicKey r.endpointUrl)

def handshakeCosmeticsMax : Nat := 4096

/-- `Map.set`, after the oldest entry made room. -/
def rememberCosmetics (nonce : String) (c : Cosmetic) (s : Relay) : Relay :=
  let kept := if handshakeCosmeticsMax ≤ s.cosmetics.length then s.cosmetics.tail else s.cosmetics
  { s with cosmetics :=
      if kept.any fun e => e.1 = nonce then
        kept.map fun e => if e.1 = nonce then (nonce, c) else e
      else kept ++ [(nonce, c)] }

/-! ## §4. Confirm -/

/-- A message field of a request. -/
inductive Wire
  | absent
  | malformed
  | message (m : SignedFederationMessage)
  deriving DecidableEq

structure Confirm where
  message : Wire
  nonce : String
  publicKey : String
  endpointUrl : String
  relayId : Option String
  deriving DecidableEq

def Confirm.key (r : Confirm) : String := toLowerCase r.publicKey

def confirmExpects (r : Confirm) (sender : String) : Expectation :=
  ⟨.peerConfirm, some sender, r.key, .confirm r.nonce r.endpointUrl⟩

/-- The confirm up to its first await: the row it read. -/
def confirmOpen (C : FederationConfig) (r : Confirm) (m : SignedFederationMessage) (s : Relay) :
    Except PeerFault (Option PeerRow) :=
  let relayId := m.envelope.sender
  let existing := s.peers.lookup relayId
  let peer := confirmed existing
  match refuseBeforeLookup C.self .peerConfirm m.envelope with
  | some reason => .error (.refused reason)
  | none =>
    if r.relayId.isSome ∧ r.relayId ≠ some relayId then .error .notSender
    else if r.nonce = "" then .error (.missing "nonce")
    else if !isHex64 r.key ∨ r.endpointUrl = "" then .error (.missing "public_key, endpoint_url")
    else
      match checkPeerPolicy C relayId with
      | some fault => .error fault
      | none =>
        if (peer.any fun p => r.key ≠ toLowerCase p.publicKey) ||
            !handshakeValid C s relayId r.key r.endpointUrl r.nonce then
          .error .noPendingHandshake
        else
          match checkRemovedCooldown s.now peer with
          | some fault => .error fault
          | none =>
            match verifyOpen C.self (confirmExpects r relayId) s.now m.envelope with
            | some reason => .error (.refused reason)
            | none => .ok existing

def confirmedRow (C : FederationConfig) (r : Confirm) (cosmetic : Option Cosmetic) (now : Int)
    (base : PeerRow) (peer : Option PeerRow) : PeerRow :=
  { base with
    endpointUrl := r.endpointUrl
    displayName := (cosmetic.bind (·.displayName)).or base.displayName
    peerProtocolVersion := match cosmetic with
      | none => peer.bind (·.peerProtocolVersion)
      | some c => c.peerProtocolVersion
    state := .active
    peeredAt := some now
    lastHeartbeatAt := some now
    missedHeartbeats := 0
    nonce := none
    handshakeProtocolVersion := some C.relaySpecVersion }

def bornRow (r : Confirm) (relayId : String) (now : Int) : PeerRow where
  peerRelayId := relayId
  publicKey := r.key
  endpointUrl := r.endpointUrl
  displayName := none
  state := .active
  nonce := none
  peeredAt := some now
  lastHeartbeatAt := some now
  missedHeartbeats := 0
  agentCount := 0
  peerProtocolVersion := none
  handshakeProtocolVersion := none

/-- The confirm's write: a peer's row moves, any other row is replaced. -/
def confirmWrite (C : FederationConfig) (r : Confirm) (relayId : String) (cosmetic : Option Cosmetic)
    (now : Int) (existing : Option PeerRow) (t : PeerTable) : Bool × PeerTable :=
  let peer := confirmed existing
  let born := PeerRowWrite.insert (confirmedRow C r cosmetic now (bornRow r relayId now) peer)
  match peer, existing with
  | some p, _ => writePeerRow (some p) (.update (confirmedRow C r cosmetic now p peer)) .peerKey t
  | none, none => writePeerRow none born .peerKey t
  | none, some old =>
    match writePeerRow (some old) .delete .peerKey t with
    | (false, t') => (false, t')
    | (true, t') => writePeerRow none born .peerKey t'

/-- What follows a verified message: a replay is refused, the sender counted, and the nonce
    consumed with the write it authorizes. -/
def authorized {α : Type} (m : SignedFederationMessage) (write : Relay → Bool × PeerTable)
    (done : Relay → α × Relay) (s : Relay) : Except PeerFault α × Relay :=
  let env := m.envelope
  if federationNonceSeen s.nonces env.sender env.nonce then (.error .replayed, s)
  else
    match checkPeerLimit env.sender s with
    | (some fault, s₁) => (.error fault, s₁)
    | (none, s₁) =>
      match consumeFederationNonce env.sender env.nonce env.ts s₁.now s₁.nonces with
      | (false, _) => (.error .replayed, s₁)
      | (true, nonces) =>
        match write s₁ with
        | (false, _) => (.error .rowChanged, s₁)
        | (true, peers) =>
          let r := done { s₁ with nonces := nonces, peers := peers }
          (.ok r.1, r.2)

/-- The confirm after its await. -/
def confirmClose (C : FederationConfig) (r : Confirm) (m : SignedFederationMessage)
    (existing : Option PeerRow) : Relay → Except PeerFault Int × Relay :=
  authorized m
    (fun s => confirmWrite C r m.envelope.sender
      ((s.cosmetics.find? fun e => e.1 = r.nonce).map (·.2)) s.now existing s.peers)
    fun s => (s.now, { s with cosmetics := s.cosmetics.filter fun e => e.1 ≠ r.nonce })

/-! ## §5. Heartbeat and remove -/

structure Heartbeat where
  message : Wire
  agentCount : Option Nat
  revocations : List String
  deriving DecidableEq

def heartbeatExpects (agentCount : Nat) (revocations : List String) (peer : PeerRow) : Expectation :=
  ⟨.heartbeat, none, peer.publicKey, .heartbeat agentCount revocations⟩

def heartbeatOpen (C : FederationConfig) (agentCount : Nat) (revocations : List String)
    (m : SignedFederationMessage) (s : Relay) : Except PeerFault PeerRow :=
  match refuseBeforeLookup C.self .heartbeat m.envelope with
  | some reason => .error (.refused reason)
  | none =>
    match s.peers.lookup m.envelope.sender with
    | none => .error .unknownPeer
    | some peer =>
      if peer.state ≠ .active ∧ peer.state ≠ .suspended then .error .unknownPeer
      else
        match verifyOpen C.self (heartbeatExpects agentCount revocations peer) s.now m.envelope with
        | some reason => .error (.refused reason)
        | none => .ok peer

/-- Hysteresis: one verified heartbeat takes one miss back. -/
def heartbeatRow (agentCount : Nat) (now : Int) (peer : PeerRow) : PeerRow :=
  { peer with
    lastHeartbeatAt := some now
    missedHeartbeats := peer.missedHeartbeats - 1
    agentCount := agentCount
    state := if peer.missedHeartbeats - 1 = 0 then .active else peer.state }

def heartbeatClose (agentCount : Nat) (m : SignedFederationMessage) (peer : PeerRow) :
    Relay → Except PeerFault Unit × Relay :=
  authorized m
    (fun s => writePeerRow (some peer) (.update (heartbeatRow agentCount s.now peer)) .peerKey s.peers)
    fun s => ((), s)

def removeExpects (peer : PeerRow) : Expectation := ⟨.peerRemove, none, peer.publicKey, .remove⟩

def removeOpen (C : FederationConfig) (m : SignedFederationMessage) (s : Relay) :
    Except PeerFault PeerRow :=
  match refuseBeforeLookup C.self .peerRemove m.envelope with
  | some reason => .error (.refused reason)
  | none =>
    match confirmed (s.peers.lookup m.envelope.sender) with
    | none => .error .unknownPeer
    | some peer =>
      match verifyOpen C.self (removeExpects peer) s.now m.envelope with
      | some reason => .error (.refused reason)
      | none => .ok peer

def removeClose (m : SignedFederationMessage) (peer : PeerRow) :
    Relay → Except PeerFault Unit × Relay :=
  authorized m
    (fun s => writePeerRow (some peer) (.update { peer with state := .removed }) .peerKey s.peers)
    fun s => ((), s)

/-! ## §6. Work messages -/

/-- A work request: its fields, and the field that names its sender. -/
structure WorkRequest where
  kind : FederationMessageKind
  sender : String
  fields : String
  allowedStates : List PeerState
  message : Wire
  deriving DecidableEq

def workExpects (r : WorkRequest) (sender : String) (peer : PeerRow) : Expectation :=
  ⟨r.kind, some sender, peer.publicKey, .work r.fields⟩

/-- `verifyFederationRequest` up to its first await. -/
def workOpen (C : FederationConfig) (r : WorkRequest) (m : SignedFederationMessage) (s : Relay) :
    Except PeerFault PeerRow :=
  match refuseBeforeLookup C.self r.kind m.envelope with
  | some reason => .error (.refused reason)
  | none =>
    if r.sender ≠ m.envelope.sender then .error .notSender
    else
      match s.peers.lookup m.envelope.sender with
      | none => .error .unknownPeer
      | some peer =>
        if peer.state ∉ r.allowedStates then .error .unknownPeer
        else
          match verifyOpen C.self (workExpects r m.envelope.sender peer) s.now m.envelope with
          | some reason => .error (.refused reason)
          | none => .ok peer

/-- Its nonce is consumed before the handler runs; then the sender is counted. -/
def workClose (m : SignedFederationMessage) (s : Relay) : Except PeerFault Unit × Relay :=
  let env := m.envelope
  match consumeFederationNonce env.sender env.nonce env.ts s.now s.nonces with
  | (false, nonces) => (.error .replayed, { s with nonces := nonces })
  | (true, nonces) =>
    match checkPeerLimit env.sender { s with nonces := nonces } with
    | (some fault, s₁) => (.error fault, s₁)
    | (none, s₁) => (.ok (), s₁)

/-! ## §7. Outbound heartbeats and the circuit breaker -/

def heartbeatSuspendThreshold : Nat := 3

def heartbeatRemoveThreshold : Nat := 5

/-- The peers one tick of the loop contacts. -/
def heartbeatPeers (s : Relay) : List PeerRow :=
  (s.peers.entries.map (·.2)).filter fun r => r.state = .active ∨ r.state = .suspended

def ackExpects (peer : PeerRow) (requestNonce : String) (agentCount : Int) : Expectation :=
  ⟨.heartbeatAck, some peer.peerRelayId, peer.publicKey, .heartbeatAck requestNonce agentCount⟩

def acknowledgedRow (now : Int) (peer : PeerRow) : PeerRow :=
  { peer with
    missedHeartbeats := peer.missedHeartbeats - 1
    state := if peer.missedHeartbeats - 1 = 0 then .active else peer.state
    lastHeartbeatAt := some now }

def missedRow (peer : PeerRow) : PeerRow :=
  { peer with
    missedHeartbeats := peer.missedHeartbeats + 1
    state :=
      if heartbeatRemoveThreshold ≤ peer.missedHeartbeats + 1 then .removed
      else if heartbeatSuspendThreshold ≤ peer.missedHeartbeats + 1 then .suspended
      else peer.state }

/-- The row as the circuit breaker reads it for an endpoint whose circuit is open. -/
def breakerRow (endpointUrl : String) (s : Relay) : Option PeerRow :=
  (s.peers.entries.map (·.2)).find? fun r => r.endpointUrl = endpointUrl ∧ r.state = .active

/-- The circuit opened: the peer is suspended. -/
def suspendPeer (endpointUrl : String) (s : Relay) : Bool × PeerTable :=
  match breakerRow endpointUrl s with
  | none => (false, s.peers)
  | some before =>
    writePeerRow (some before) (.update { before with state := .suspended }) .observed s.peers

end Motebit.Peers
