/-
  Motebit.Peers.Rows — THE PEER TABLE and the one writer of its rows
  (`peerRowTransition`, `writePeerRow`, `consumeFederationNonce` in
  services/relay/src/federation.ts; services/relay/src/rate-limiter.ts).

  Every write of a row is a compare-and-set against the row as it was read, under an authority:
  no proof, this relay's own observation, or a message verified under the row's key.

  Main results: `writePeerRow_ok`.
-/

import Motebit.Lib.Keyed
import Motebit.Peers.Message

namespace Motebit.Peers

open Motebit.Lib Function

/-! ## §1. Rows -/

inductive PeerState
  | pending
  | active
  | suspended
  | removed
  deriving DecidableEq

structure PeerRow where
  peerRelayId : String
  publicKey : String
  endpointUrl : String
  displayName : Option String
  state : PeerState
  nonce : Option String
  peeredAt : Option Int
  lastHeartbeatAt : Option Int
  missedHeartbeats : Nat
  agentCount : Nat
  peerProtocolVersion : Option String
  handshakeProtocolVersion : Option String
  deriving DecidableEq

inductive PeerWriteAuthority
  | unauthenticated
  | observed
  | peerKey
  deriving DecidableEq

inductive PeerRowWrite
  | insert (row : PeerRow)
  | update (row : PeerRow)
  | delete
  deriving DecidableEq

/-- The authority rule: none when `write` may move `before`, else the reason it may not. -/
def peerRowTransition (before : Option PeerRow) (write : PeerRowWrite)
    (authority : PeerWriteAuthority) : Option String :=
  match write, before with
  | .insert _, some _ => some "the row exists"
  | .insert row, none =>
    if row.peeredAt = none ∨ authority ≠ .peerKey then
      some "a peer's row is written only by a confirm verified under its key"
    else none
  | .update _, none | .delete, none => some "no row"
  | .delete, some b =>
    if b.peeredAt = none then
      if authority = .peerKey then none
      else some "a never-confirmed row is inert: only a verified confirm replaces it"
    else some "a confirmed peer's row is deleted only by its operator"
  | .update next, some b =>
    if b.peeredAt = none then
      some "a never-confirmed row is inert: only a verified confirm replaces it"
    else if next.peerRelayId ≠ b.peerRelayId then some "peer_relay_id is fixed"
    else if next.publicKey ≠ b.publicKey then some "a peer's public_key is never rewritten"
    else if next.peeredAt = none then some "a confirmed row stays confirmed"
    else
      match authority with
      | .unauthenticated => some "an unauthenticated request never writes a confirmed peer's row"
      | .peerKey => none
      | .observed =>
        if next.endpointUrl ≠ b.endpointUrl then
          some "the endpoint moves only under the peer's key"
        else if next.peeredAt ≠ b.peeredAt then some "peered_at moves only under the peer's key"
        else if next.state ≠ b.state ∧ (next.state = .active ∨ next.state = .pending) then
          some "a move to active or pending needs the peer's key"
        else none

/-- `AS_READ`: the columns a write compares. -/
def asRead (b cur : PeerRow) : Prop :=
  cur.peerRelayId = b.peerRelayId ∧ cur.publicKey = b.publicKey ∧
    cur.endpointUrl = b.endpointUrl ∧ cur.state = b.state ∧ cur.nonce = b.nonce ∧
    cur.peeredAt = b.peeredAt ∧ cur.lastHeartbeatAt = b.lastHeartbeatAt ∧
    cur.missedHeartbeats = b.missedHeartbeats

instance (b cur : PeerRow) : Decidable (asRead b cur) := by
  unfold asRead
  infer_instance

/-- The columns an update sets. -/
def PeerRow.assign (cur r : PeerRow) : PeerRow :=
  { r with peerRelayId := cur.peerRelayId, publicKey := cur.publicKey }

abbrev PeerTable := Keyed String PeerRow

/-- The one writer of a peer's row; whether the write landed. -/
def writePeerRow (before : Option PeerRow) (write : PeerRowWrite) (authority : PeerWriteAuthority)
    (t : PeerTable) : Bool × PeerTable :=
  match peerRowTransition before write authority with
  | some _ => (false, t)
  | none =>
    match write, before with
    | .insert r, _ =>
      if (t.lookup r.peerRelayId).isSome then (false, t) else (true, t.insert r.peerRelayId r)
    | .update r, some b =>
      match t.lookup b.peerRelayId with
      | some cur =>
        if asRead b cur then (true, t.insert b.peerRelayId (cur.assign r)) else (false, t)
      | none => (false, t)
    | .delete, some b =>
      match t.lookup b.peerRelayId with
      | some cur => if asRead b cur then (true, t.erase b.peerRelayId) else (false, t)
      | none => (false, t)
    | _, none => (false, t)

/-- **What a landed write did**: a row born confirmed under its key, a confirmed row moved under
    its key or away from active by observation, or a never-confirmed row deleted. -/
theorem writePeerRow_ok {before : Option PeerRow} {write : PeerRowWrite}
    {authority : PeerWriteAuthority} {t t' : PeerTable}
    (h : writePeerRow before write authority t = (true, t')) :
    (∃ r, write = .insert r ∧ r.peeredAt ≠ none ∧ authority = .peerKey ∧
      t.lookup r.peerRelayId = none ∧ t' = t.insert r.peerRelayId r) ∨
    (∃ b r cur, before = some b ∧ write = .update r ∧ t.lookup b.peerRelayId = some cur ∧
      asRead b cur ∧ b.peeredAt ≠ none ∧ r.peeredAt ≠ none ∧
      (authority = .peerKey ∨ authority = .observed ∧ r.endpointUrl = b.endpointUrl ∧
        (r.state = b.state ∨ r.state ≠ .active ∧ r.state ≠ .pending)) ∧
      t' = t.insert b.peerRelayId (cur.assign r)) ∨
    ∃ b cur, before = some b ∧ write = .delete ∧ t.lookup b.peerRelayId = some cur ∧
      asRead b cur ∧ b.peeredAt = none ∧ t' = t.erase b.peerRelayId := by
  unfold writePeerRow at h
  cases hrule : peerRowTransition before write authority with rw [hrule] at h
  | some => cases h
  | none =>
    cases write with
    | insert r =>
      cases before with
      | some => cases hrule
      | none =>
        unfold peerRowTransition at hrule
        dsimp only at h hrule
        split at hrule
        · cases hrule
        next hborn =>
        rw [not_or, not_not] at hborn
        split at h
        · cases h
        next hfree =>
        cases h
        refine .inl ⟨r, rfl, hborn.1, hborn.2, ?_, rfl⟩
        simpa using hfree
    | update r =>
      cases before with
      | none => cases hrule
      | some b =>
        unfold peerRowTransition at hrule
        dsimp only at h hrule
        split at hrule
        · cases hrule
        next hpeered =>
        iterate 3
          split at hrule
          · cases hrule
        next hstays =>
        have hauthority : authority = .peerKey ∨ authority = .observed ∧
            r.endpointUrl = b.endpointUrl ∧
            (r.state = b.state ∨ r.state ≠ .active ∧ r.state ≠ .pending) := by
          cases authority with
          | unauthenticated => cases hrule
          | peerKey => exact .inl rfl
          | observed =>
            dsimp only at hrule
            split at hrule
            · cases hrule
            next hendpoint =>
            split at hrule
            · cases hrule
            split at hrule
            · cases hrule
            next hstate =>
            refine .inr ⟨rfl, of_not_not hendpoint, ?_⟩
            by_cases hsame : r.state = b.state
            · exact .inl hsame
            · exact .inr (not_or.mp fun hup => hstate ⟨hsame, hup⟩)
        split at h
        · next cur hcur =>
          split at h
          · next hread =>
            cases h
            exact .inr (.inl ⟨b, r, cur, rfl, rfl, hcur, hread, hpeered, hstays, hauthority, rfl⟩)
          · cases h
        · cases h
    | delete =>
      cases before with
      | none => cases hrule
      | some b =>
        unfold peerRowTransition at hrule
        dsimp only at h hrule
        split at hrule
        · next hpeered =>
          split at h
          · next cur hcur =>
            split at h
            · next hread =>
              cases h
              exact .inr (.inr ⟨b, cur, rfl, rfl, hcur, hread, hpeered, rfl⟩)
            · cases h
          · cases h
        · cases hrule

def activeCount (t : PeerTable) : Nat := Keyed.countWhere (fun r => r.state = .active) t

/-! ## §2. Nonces -/

structure NonceRow where
  sender : String
  nonce : String
  expiresAt : Int
  deriving DecidableEq

def federationNonceRetentionMs : Int := 2 * 300000

def federationNonceSeen (rows : List NonceRow) (sender nonce : String) : Bool :=
  rows.any fun r => r.sender = sender ∧ r.nonce = nonce

/-- Expired rows are deleted first; false when the nonce was already recorded. -/
def consumeFederationNonce (sender nonce : String) (ts now : Int) (rows : List NonceRow) :
    Bool × List NonceRow :=
  let kept := rows.filter fun r => !(r.expiresAt < now)
  if federationNonceSeen kept sender nonce then (false, kept)
  else (true, ⟨sender, nonce, max ts now + federationNonceRetentionMs⟩ :: kept)

/-! ## §3. The per-peer limit -/

structure Window where
  count : Nat
  resetAt : Int
  deriving DecidableEq

def maxRequests : Nat := 30

def windowMs : Int := 60000

def checkLimit (key : String) (now : Int) (windows : String → Option Window) :
    Bool × (String → Option Window) :=
  match windows key with
  | some w =>
    if w.resetAt ≤ now then (true, Function.update windows key (some ⟨1, now + windowMs⟩))
    else (w.count + 1 ≤ maxRequests,
      Function.update windows key (some { w with count := w.count + 1 }))
  | none => (true, Function.update windows key (some ⟨1, now + windowMs⟩))

/-- The windows of all other keys stayed. -/
def CountsOnly (key : String) (windows windows' : String → Option Window) : Prop :=
  ∀ other, other ≠ key → windows' other = windows other

theorem checkLimit_countsOnly (key : String) (now : Int) (windows : String → Option Window) :
    CountsOnly key windows (checkLimit key now windows).2 := by
  intro other hother
  unfold checkLimit
  split
  · split
    · exact update_of_ne hother ..
    · exact update_of_ne hother ..
  · exact update_of_ne hother ..

end Motebit.Peers
