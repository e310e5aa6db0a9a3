/-
  Motebit.Peers.World — ONE RELAY AMONG PEERS AND STRANGERS.

  Any number of requests of any body run interleaved at their awaits, beside the heartbeat loop
  and the circuit breaker.  A message is delivered only after its signer made it; whoever holds a
  key may sign anything with it, at any time, and anything signed may be sent again.

  The histories say what was signed, which messages moved a row, which rows this relay's own
  observation moved, and whether a write ever came more than five minutes after its message's
  freshness was checked, or turned a row active at the cap.
-/

import Motebit.Lib.Run
import Motebit.Peers.Routes

namespace Motebit.Peers

open Motebit.Lib

/-! ## §1. Histories -/

structure Node where
  relay : Relay
  signed : List SignedFederationMessage
  effects : List SignedFederationMessage
  observed : List String
  /-- Nonces drawn for outbound heartbeats, and the loop's tick that drew each. -/
  drawn : Nat
  owner : Nat → Nat
  lingered : Bool
  crowded : Bool

/-- The relay, and the nonces it draws: no two are equal. -/
structure Home where
  config : FederationConfig
  nonceAt : Nat → String
  nonceAt_injective : Function.Injective nonceAt

def isActive (t : PeerTable) (id : String) : Bool :=
  (t.lookup id).any fun r => r.state = .active

/-- The write turned the row of `id` active while the cap was reached. -/
def crowds (C : FederationConfig) (before after : PeerTable) (id : String) : Bool :=
  C.maxPeers ≤ activeCount before && isActive after id && !isActive before id

def onRelay {α : Type} (f : Relay → Except PeerFault α × Relay) (n : Node) :
    Except PeerFault α × Node :=
  let r := f n.relay
  (r.1, { n with relay := r.2 })

/-- A turn that a message checked at `checkedAt` authorizes. -/
def underKey {α : Type} (C : FederationConfig) (m : SignedFederationMessage) (checkedAt : Int)
    (f : Relay → Except PeerFault α × Relay) (n : Node) : Except PeerFault α × Node :=
  match f n.relay with
  | (.error fault, s) => (.error fault, { n with relay := s })
  | (.ok a, s) =>
    (.ok a, { n with
      relay := s
      effects := m :: n.effects
      lingered := n.lingered || decide ((maxSkewMs : Int) < n.relay.now - checkedAt)
      crowded := n.crowded || crowds C n.relay.peers s.peers m.envelope.sender })

/-! ## §2. Routes -/

inductive PeerWait
  | outbound (url : String)
  | arrive (m : SignedFederationMessage)
  | verify
  | sign
  | post (requestNonce : String)
  deriving DecidableEq

/-- Whether the endpoint may be contacted; whether signing succeeded; the answer to a heartbeat,
    if it was 2xx: its `message`, when it parses, and its count. -/
abbrev PeerHeard : PeerWait → Type
  | .outbound _ => Bool
  | .arrive _ => Unit
  | .verify => Unit
  | .sign => Bool
  | .post _ => Option (Option SignedFederationMessage × Int)

abbrev PeerWork (α : Type) := Task Node PeerWait PeerHeard PeerFault α

/-- A turn that may throw after it wrote. -/
def turn {α : Type} (f : Node → Except PeerFault α × Node) : PeerWork α := do
  match ← Task.act f with
  | .ok a => pure a
  | .error fault => throw fault

/-- A turn that only reads; it notes the time. -/
def look {α : Type} (f : Relay → Except PeerFault α) : PeerWork (α × Int) :=
  turn fun n => ((f n.relay).map fun a => (a, n.relay.now), n)

def received (wire : Wire) : PeerWork SignedFederationMessage := do
  match wire with
  | .absent => throw .version1
  | .malformed => throw .malformed
  | .message m => do
    let _ ← Task.ask (PeerWait.arrive m)
    pure m

/-- The digest and the signature are awaited. -/
def verifySignature (expect : Expectation) (m : SignedFederationMessage) : PeerWork Unit := do
  let _ ← Task.ask PeerWait.verify
  match verifyClose expect m with
  | some reason => throw (.refused reason)
  | none => pure ()

def propose (C : FederationConfig) (r : Propose) (rand : String) : PeerWork String := do
  match proposeFields C r with
  | some fault => throw fault
  | none => do
    if ← Task.ask (PeerWait.outbound r.endpointUrl) then do
      let (nonce, _) ← look (proposeTurn C r rand)
      if ← Task.ask PeerWait.sign then do
        turn (onRelay fun s => (.ok nonce, rememberCosmetics nonce ⟨r.displayName, r.specVersion⟩ s))
      else throw .malformedPropose
    else throw .endpointRefused

def confirm (C : FederationConfig) (r : Confirm) : PeerWork Int := do
  if !C.federationEnabled then throw .federationDisabled
  else do
    let m ← received r.message
    let (existing, checkedAt) ← look (confirmOpen C r m)
    verifySignature (confirmExpects r m.envelope.sender) m
    turn (underKey C m checkedAt (confirmClose C r m existing))

/-- `POST /federation/v1/peer/heartbeat`, up to its acknowledgement. -/
def heartbeat (C : FederationConfig) (r : Heartbeat) : PeerWork Unit := do
  let m ← received r.message
  match r.agentCount with
  | none => throw (.missing "agent_count")
  | some agentCount => do
    let (peer, checkedAt) ← look (heartbeatOpen C agentCount r.revocations m)
    verifySignature (heartbeatExpects agentCount r.revocations peer) m
    turn (underKey C m checkedAt (heartbeatClose agentCount m peer))

def remove (C : FederationConfig) (wire : Wire) : PeerWork Unit := do
  let m ← received wire
  let (peer, checkedAt) ← look (removeOpen C m)
  verifySignature (removeExpects peer) m
  turn (underKey C m checkedAt (removeClose m peer))

/-- `verifyFederationRequest` and the rate limit of a work route. -/
def work (C : FederationConfig) (r : WorkRequest) : PeerWork Unit := do
  let m ← received r.message
  let (peer, _) ← look (workOpen C r m)
  verifySignature (workExpects r m.envelope.sender peer) m
  turn (onRelay (workClose m))

/-! ## §3. The heartbeat loop -/

/-- One peer's exchange: its acknowledgement, when it verified. -/
def beat (H : Home) (t : Nat) (peer : PeerRow) : PeerWork (Option SignedFederationMessage) := do
  let k ← Task.act fun n : Node =>
    (n.drawn, { n with drawn := n.drawn + 1, owner := Function.update n.owner n.drawn t })
  if ← Task.ask PeerWait.sign then do
    match ← Task.ask (PeerWait.post (H.nonceAt k)) with
    | none => pure none
    | some (none, _) => pure none
    | some (some m, agentCount) => do
      let opened ← Task.read fun n : Node =>
        verifyOpen H.config.self (ackExpects peer (H.nonceAt k) agentCount) n.relay.now m.envelope
      let _ ← Task.ask PeerWait.verify
      if opened = none ∧ verifyClose (ackExpects peer (H.nonceAt k) agentCount) m = none then
        pure (some m)
      else pure none
  else pure none

def beats (H : Home) (t : Nat) : List PeerRow → PeerWork (List (PeerRow × Option SignedFederationMessage))
  | [] => pure []
  | peer :: peers => do
    let result ← beat H t peer
    let results ← beats H t peers
    pure ((peer, result) :: results)

/-- One result written, against the row as read before the sends. -/
def settleBeat (C : FederationConfig) (n : Node) (r : PeerRow × Option SignedFederationMessage) :
    Node :=
  match r.2 with
  | some ack =>
    match writePeerRow (some r.1) (.update (acknowledgedRow n.relay.now r.1)) .peerKey
        n.relay.peers with
    | (false, _) => n
    | (true, peers) =>
      { n with
        relay := { n.relay with peers := peers }
        effects := ack :: n.effects
        crowded := n.crowded || crowds C n.relay.peers peers r.1.peerRelayId }
  | none =>
    match writePeerRow (some r.1) (.update (missedRow r.1)) .observed n.relay.peers with
    | (false, _) => n
    | (true, peers) =>
      { n with
        relay := { n.relay with peers := peers }
        observed := r.1.peerRelayId :: n.observed }

def sendHeartbeats (H : Home) (t : Nat) : PeerWork Unit := do
  let peers ← Task.read fun n : Node => heartbeatPeers n.relay
  let results ← beats H t peers
  Task.modify fun n : Node => results.foldl (settleBeat H.config) n

/-! ## §4. The world -/

inductive Elsewhere (H : Home) : Node → Node → Prop
  | tick (n : Node) (now : Int) (h : n.relay.now ≤ now) :
      Elsewhere H n { n with relay := { n.relay with now := now } }
  /-- Someone signs something. -/
  | sign (n : Node) (m : SignedFederationMessage) : Elsewhere H n { n with signed := m :: n.signed }
  /-- A peer's circuit opened. -/
  | breaker (n : Node) (endpointUrl : String) (before : PeerRow) (peers : PeerTable)
      (hrow : breakerRow endpointUrl n.relay = some before)
      (hwrite : suspendPeer endpointUrl n.relay = (true, peers)) :
      Elsewhere H n { n with
        relay := { n.relay with peers := peers }
        observed := before.peerRelayId :: n.observed }
  /-- A route that counts before it verifies. -/
  | count (n : Node) (relayId : String) :
      Elsewhere H n { n with relay := (checkPeerLimit relayId n.relay).2 }

inductive Calls (H : Home) (t : Nat) : Prog Node PeerWait PeerHeard Unit → Prop
  | propose (r : Propose) (rand : String) : Calls H t (propose H.config r rand).detach
  | confirm (r : Confirm) : Calls H t (confirm H.config r).detach
  | heartbeat (r : Heartbeat) : Calls H t (heartbeat H.config r).detach
  | remove (wire : Wire) : Calls H t (remove H.config wire).detach
  | work (r : WorkRequest) : Calls H t (work H.config r).detach
  | loop : Calls H t (sendHeartbeats H t).detach

/-- No peer was ever confirmed; an earlier build may have left never-confirmed rows. -/
structure Unpeered (n : Node) : Prop where
  rows : ∀ id r, n.relay.peers.lookup id = some r →
    r.peerRelayId = id ∧ r.peeredAt = none ∧ r.state ≠ .active
  histories : n.signed = [] ∧ n.effects = [] ∧ n.observed = [] ∧ n.drawn = 0
  flags : n.lingered = false ∧ n.crowded = false

def peering (H : Home) : World Node PeerWait PeerHeard where
  init := Unpeered
  entry := Calls H
  answer n w x n' := n' = n ∧
    match w, x with
    | .arrive m, _ => m ∈ n.signed
    | .post _, x => ∀ m agentCount, x = some (some m, agentCount) → m ∈ n.signed
    | _, _ => True
  env := Elsewhere H
  crash n n' := ∃ key, n' = { n with relay := { n.relay with
    windows := fun _ => none, cosmetics := [], handshakeKey := key } }

end Motebit.Peers
