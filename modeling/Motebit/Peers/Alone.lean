/-
  Motebit.Peers.Alone — REQUESTS HANDLED ONE AFTER ANOTHER at a relay.

  Each request runs from its arrival to its answer before the next arrives.  Beside the routes
  that count a peer once its signature verified stand three that count first: the horizon
  witness, the vote request, and the unsigned discover.

  Main results: `handle`.
-/

import Motebit.Peers.Effects

namespace Motebit.Peers

open Motebit.Lib

/-! ## §1. Answers -/

inductive Reply
  | proposed (nonce : String)
  | confirmed (peeredAt : Int)
  | acknowledged
  | removed
  | admitted
  | witnessed
  | votes
  | agents
  deriving DecidableEq

/-- Refusals of the routes that count first, beside those they share. -/
inductive QueryFault
  | subjectMismatch
  | schemaInvalid
  | policyNotConfigured
  | unsignedRejected
  | invalidQuery
  deriving DecidableEq

abbrev Answer := Except (PeerFault ⊕ QueryFault) Reply

/-- A route's result as an answer. -/
def answerOf {α : Type} (reply : α → Reply) : Except PeerFault α × Relay → Answer × Relay
  | (.ok a, s) => (.ok (reply a), s)
  | (.error fault, s) => (.error (.inl fault), s)

/-! ## §2. Routes of signed messages -/

/-- A route that verifies a message: its checks, what it expects of the message, and what it does
    once the message verified. -/
structure SignedRoute (β : Type) where
  wire : Wire
  opens : SignedFederationMessage → Relay → Except PeerFault β
  expect : SignedFederationMessage → β → Expectation
  close : SignedFederationMessage → β → Relay → Answer × Relay

namespace SignedRoute

variable {β : Type}

def handle (x : SignedRoute β) (s : Relay) : Answer × Relay :=
  match x.wire with
  | .absent => (.error (.inl .version1), s)
  | .malformed => (.error (.inl .malformed), s)
  | .message m =>
    match x.opens m s with
    | .error fault => (.error (.inl fault), s)
    | .ok b =>
      match verifyClose (x.expect m b) m with
      | some reason => (.error (.inl (.refused reason)), s)
      | none => x.close m b s

/-- The message passes every check that comes before its route closes. -/
def Passes (x : SignedRoute β) (m : SignedFederationMessage) (b : β) (s : Relay) : Prop :=
  x.wire = .message m ∧ x.opens m s = .ok b ∧ verifyClose (x.expect m b) m = none

/-- **Refused as it was found, or closed.** -/
theorem handle_cases (x : SignedRoute β) (s : Relay) :
    (∃ m b, x.Passes m b s ∧ x.handle s = x.close m b s) ∨
      ((x.handle s).2 = s ∧ ∀ m b, ¬x.Passes m b s) := by
  unfold handle
  cases hwire : x.wire with
  | absent | malformed => exact .inr ⟨rfl, fun m b h => by rw [h.1] at hwire; cases hwire⟩
  | message m =>
    dsimp only
    cases hopen : x.opens m s with
    | error =>
      refine .inr ⟨rfl, fun m' b h => ?_⟩
      rw [h.1] at hwire
      cases hwire
      rw [h.2.1] at hopen
      cases hopen
    | ok b =>
      dsimp only
      cases hclose : verifyClose (x.expect m b) m with
      | some =>
        refine .inr ⟨rfl, fun m' b' h => ?_⟩
        rw [h.1] at hwire
        cases hwire
        rw [h.2.1] at hopen
        cases hopen
        rw [h.2.2] at hclose
        cases hclose
      | none => exact .inl ⟨m, b, ⟨hwire, hopen, hclose⟩, rfl⟩

end SignedRoute

def confirmRoute (C : FederationConfig) (r : Confirm) : SignedRoute (Option PeerRow) where
  wire := r.message
  opens := confirmOpen C r
  expect m _ := confirmExpects r m.envelope.sender
  close m existing s := answerOf .confirmed (confirmClose C r m existing s)

/-- A heartbeat's count is read before its peer. -/
def heartbeatRoute (C : FederationConfig) (r : Heartbeat) : SignedRoute (Nat × PeerRow) where
  wire := r.message
  opens m s :=
    match r.agentCount with
    | none => .error (.missing "agent_count")
    | some agentCount => (heartbeatOpen C agentCount r.revocations m s).map fun peer => (agentCount, peer)
  expect _ b := heartbeatExpects b.1 r.revocations b.2
  close m b s := answerOf (fun _ => .acknowledged) (heartbeatClose b.1 m b.2 s)

def removeRoute (C : FederationConfig) (wire : Wire) : SignedRoute PeerRow where
  wire := wire
  opens := removeOpen C
  expect _ := removeExpects
  close m peer s := answerOf (fun _ => .removed) (removeClose m peer s)

def workRoute (C : FederationConfig) (r : WorkRequest) : SignedRoute PeerRow where
  wire := r.message
  opens := workOpen C r
  expect m peer := workExpects r m.envelope.sender peer
  close m _ s := answerOf (fun _ => .admitted) (workClose m s)

/-! ## §3. Routes that count first -/

/-- What a relay that answers queries is configured with. -/
structure QueryPolicy where
  requireDiscoverSignature : Bool
  voteCallback : Bool

def knownPeer (s : Relay) (relayId : String) : Option PeerRow :=
  (s.peers.lookup relayId).filter fun r => r.state = .active ∨ r.state = .suspended

/-- `checkPeerLimit` on an id the request names, before anything is verified. -/
def countedFirst (relayId : String) (answer : Relay → Answer) (s : Relay) : Answer × Relay :=
  match checkPeerLimit relayId s with
  | (some fault, s₁) => (.error (.inl fault), s₁)
  | (none, s₁) => (answer s₁, s₁)

/-- A request of `horizon/witness`; `signer` made its `issuer_signature`. -/
structure WitnessSolicitationRequest where
  issuerId : String
  projectedSubjectId : String
  signer : String
  deriving DecidableEq

def witnessAnswer (r : WitnessSolicitationRequest) (s : Relay) : Answer :=
  match knownPeer s r.issuerId with
  | none => .error (.inl .unknownPeer)
  | some peer =>
    if r.projectedSubjectId ≠ r.issuerId then .error (.inr .subjectMismatch)
    else if r.signer ≠ toLowerCase peer.publicKey then .error (.inl (.refused .badSignature))
    else .ok .witnessed

def horizonWitness (r : WitnessSolicitationRequest) : Relay → Answer × Relay :=
  countedFirst r.issuerId (witnessAnswer r)

/-- A request of `disputes/:disputeId/vote-request`; `signer` made its signature. -/
structure VoteRequest where
  disputeIdParam : String
  disputeId : String
  requesterId : String
  requestedAt : Int
  signer : String
  deriving DecidableEq

def federationVoteRequestMaxAgeMs : Nat := 60000

def voteAnswer (P : QueryPolicy) (r : VoteRequest) (s : Relay) : Answer :=
  match knownPeer s r.requesterId with
  | none => .error (.inl .unknownPeer)
  | some peer =>
    if r.signer ≠ toLowerCase peer.publicKey then .error (.inl (.refused .badSignature))
    else if federationVoteRequestMaxAgeMs < (s.now - r.requestedAt).natAbs then
      .error (.inl (.refused .stale))
    else if !P.voteCallback then .error (.inr .policyNotConfigured)
    else .ok .votes

def voteRequest (C : FederationConfig) (P : QueryPolicy) (r : VoteRequest) (s : Relay) :
    Answer × Relay :=
  if r.disputeId ≠ r.disputeIdParam then (.error (.inr .schemaInvalid), s)
  else if !C.federationEnabled then (.error (.inl .federationDisabled), s)
  else countedFirst r.requesterId (voteAnswer P r) s

/-- A `discover` without a message; one with a message is a work request. -/
structure UnsignedDiscover where
  queryId : String
  maxHops : Int
  originRelay : String
  deriving DecidableEq

def discover (C : FederationConfig) (P : QueryPolicy) (r : UnsignedDiscover) (s : Relay) :
    Answer × Relay :=
  if r.queryId = "" ∨ 3 < r.maxHops then (.error (.inr .invalidQuery), s)
  else if !C.federationEnabled then (.ok .agents, s)
  else if P.requireDiscoverSignature then (.error (.inr .unsignedRejected), s)
  else countedFirst r.originRelay (fun _ => .ok .agents) s

/-! ## §4. Requests -/

/-- A request; `reachable` says whether a propose's endpoint may be contacted, and `signs` whether
    this relay's own signature succeeded. -/
inductive Request
  | propose (r : Propose) (rand : String) (reachable signs : Bool)
  | confirm (r : Confirm)
  | heartbeat (r : Heartbeat)
  | remove (wire : Wire)
  | work (r : WorkRequest)
  | witness (r : WitnessSolicitationRequest)
  | vote (r : VoteRequest)
  | discover (r : UnsignedDiscover)
  deriving DecidableEq

/-- A propose from its arrival to its answer. -/
def proposeAlone (C : FederationConfig) (r : Propose) (rand : String) (reachable signs : Bool)
    (s : Relay) : Answer × Relay :=
  match proposeFields C r with
  | some fault => (.error (.inl fault), s)
  | none =>
    if !reachable then (.error (.inl .endpointRefused), s)
    else
      match proposeTurn C r rand s with
      | .error fault => (.error (.inl fault), s)
      | .ok nonce =>
        if !signs then (.error (.inl .malformedPropose), s)
        else (.ok (.proposed nonce), rememberCosmetics nonce ⟨r.displayName, r.specVersion⟩ s)

def handle (C : FederationConfig) (P : QueryPolicy) (s : Relay) (i : Int × Request) :
    Answer × Relay :=
  let s := { s with now := i.1 }
  match i.2 with
  | .propose r rand reachable signs => proposeAlone C r rand reachable signs s
  | .confirm r =>
    if !C.federationEnabled then (.error (.inl .federationDisabled), s)
    else (confirmRoute C r).handle s
  | .heartbeat r => (heartbeatRoute C r).handle s
  | .remove wire => (removeRoute C wire).handle s
  | .work r => (workRoute C r).handle s
  | .witness r => horizonWitness r s
  | .vote r => voteRequest C P r s
  | .discover r => discover C P r s

/-! ## §5. Walks of the routes -/

variable {H : Home} {n n' : Node}

/-- What a route still has to do after its checks. -/
def afterChecks {α : Type} (C : FederationConfig) (expect : Expectation) (m : SignedFederationMessage)
    (checkedAt : Int) (f : Relay → Except PeerFault α × Relay) : PeerWork α := do
  verifySignature expect m
  turn (underKey C m checkedAt f)

theorem look_walk {α β : Type} {f : Relay → Except PeerFault α} {a : α} {g : α × Int → PeerWork β}
    {q : Prog Node PeerWait PeerHeard Unit} (h : f n.relay = .ok a)
    (hrest : Walk (peering H) (g (a, n.relay.now)).detach n q n') :
    Walk (peering H) (look f >>= g).detach n q n' := by
  refine .atomic ?_
  beta_reduce
  rw [h]
  exact hrest

theorem propose_walk {r : Propose} {rand nonce : String} (hfields : proposeFields H.config r = none)
    (hturn : proposeTurn H.config r rand n.relay = .ok nonce) :
    Walk (peering H) (propose H.config r rand).detach n (.done ()) { n with
      relay := rememberCosmetics nonce ⟨r.displayName, r.specVersion⟩ n.relay } := by
  unfold propose
  rw [hfields]
  refine .await (x := true) ⟨rfl, trivial⟩ <| look_walk hturn ?_
  exact .await (x := true) ⟨rfl, trivial⟩ <| .atomic .refl

variable {m : SignedFederationMessage}

theorem confirm_waits {r : Confirm} {existing : Option PeerRow}
    (henabled : H.config.federationEnabled = true) (hwire : r.message = .message m)
    (hm : m ∈ n.signed) (hopen : confirmOpen H.config r m n.relay = .ok existing) :
    Walk (peering H) (confirm H.config r).detach n
      (afterChecks H.config (confirmExpects r m.envelope.sender) m n.relay.now
        (confirmClose H.config r m existing)).detach n := by
  unfold confirm
  rw [henabled, hwire]
  exact .await (x := ()) ⟨rfl, hm⟩ <| look_walk hopen .refl

theorem remove_waits {peer : PeerRow} (hm : m ∈ n.signed)
    (hopen : removeOpen H.config m n.relay = .ok peer) :
    Walk (peering H) (remove H.config (.message m)).detach n
      (afterChecks H.config (removeExpects peer) m n.relay.now (removeClose m peer)).detach n := by
  unfold remove
  exact .await (x := ()) ⟨rfl, hm⟩ <| look_walk hopen .refl

theorem afterChecks_walk {α : Type} {expect : Expectation} (hclose : verifyClose expect m = none)
    (checkedAt : Int) (f : Relay → Except PeerFault α × Relay) (n : Node) :
    ∃ q, Walk (peering H) (afterChecks H.config expect m checkedAt f).detach n q
      (underKey H.config m checkedAt f n).2 := by
  unfold afterChecks verifySignature
  rw [hclose]
  exact ⟨_, .await (x := ()) ⟨rfl, trivial⟩ <| .atomic .refl⟩

/-- The heartbeat route once its count was read. -/
def countedHeartbeat (C : FederationConfig) (wire : Wire) (agentCount : Nat)
    (revocations : List String) : SignedRoute PeerRow where
  wire := wire
  opens := heartbeatOpen C agentCount revocations
  expect _ := heartbeatExpects agentCount revocations
  close m peer s := answerOf (fun _ => .acknowledged) (heartbeatClose agentCount m peer s)

end Motebit.Peers
