/-
  Motebit.Peers.Effects — WHAT A PEERING ROUTE MAY DO TO THE TABLE.

  Main results: `authorized_ok`, `authorized_error`, `confirmOpen_ok`, `heartbeatOpen_ok`,
  `removeOpen_ok`, `Authorized`.
-/

import Motebit.Peers.World

namespace Motebit.Peers

open Motebit.Lib List

/-! ## §1. One row set -/

/-- The row of `id` is `r` now; no other row changed. -/
structure Sets (t t' : PeerTable) (id : String) (r : PeerRow) : Prop where
  here : t'.lookup id = some r
  others : ∀ other, other ≠ id → t'.lookup other = t.lookup other
  count : activeCount t' = activeCount (t.erase id) + if r.state = .active then 1 else 0

theorem sets_insert (t : PeerTable) (id : String) (r : PeerRow) : Sets t (t.insert id r) id r where
  here := AList.lookup_insert _
  others _ hne := AList.lookup_insert_ne hne
  count := by
    unfold activeCount
    rw [Keyed.countWhere_insert]
    simp only [decide_eq_true_eq]

theorem sets_replace (t : PeerTable) (id : String) (r : PeerRow) :
    Sets t ((t.erase id).insert id r) id r where
  here := AList.lookup_insert _
  others other hne := by
    rw [AList.lookup_insert_ne hne, AList.lookup_erase_ne hne]
  count := by
    have herase : (t.erase id).erase id = t.erase id :=
      AList.ext (kerase_of_notMem_keys (notMem_keys_kerase id t.nodupKeys))
    unfold activeCount
    rw [Keyed.countWhere_insert, herase]
    simp only [decide_eq_true_eq]

variable {t t' : PeerTable} {now : Int} {existing : Option PeerRow} {peer : PeerRow}
  {checkedAt : Int}

/-- **The cap survives a write that does not crowd.** -/
theorem Sets.cap {C : FederationConfig} {id : String} {r : PeerRow} (h : Sets t t' id r)
    (hcap : activeCount t ≤ C.maxPeers) (hroom : crowds C t t' id = false) :
    activeCount t' ≤ C.maxPeers := by
  have herase : activeCount (t.erase id) ≤ activeCount t := Keyed.countWhere_erase_le _ t id
  rw [h.count]
  split
  · next hactive =>
      unfold crowds isActive at hroom
      rw [h.here] at hroom
      simp only [Option.any_some, hactive, decide_true, Bool.and_true, Bool.and_eq_false_iff,
        decide_eq_false_iff_not, Bool.not_eq_false'] at hroom
      rcases hroom with hbelow | hwas
      · omega
      · -- the row was active already: erasing it took one from the count
        rw [Option.any_eq_true] at hwas
        obtain ⟨cur, hcur, hstate⟩ := hwas
        have hone := Keyed.countWhere_erase (p := fun r : PeerRow => decide (r.state = .active)) hcur
          hstate
        unfold activeCount at *
        omega
  · omega

/-! ## §2. The turn after a verified message -/

theorem checkPeerLimit_snd (relayId : String) (s : Relay) :
    ∃ windows, CountsOnly relayId s.windows windows ∧
      (checkPeerLimit relayId s).2 = { s with windows := windows } :=
  ⟨_, checkLimit_countsOnly relayId s.now s.windows, rfl⟩

theorem authorized_error {α : Type} {m : SignedFederationMessage} {write : Relay → Bool × PeerTable}
    {done : Relay → α × Relay} {s s' : Relay} {fault : PeerFault}
    (h : authorized m write done s = (.error fault, s')) :
    ∃ windows, CountsOnly m.envelope.sender s.windows windows ∧ s' = { s with windows := windows } := by
  unfold authorized at h
  dsimp only at h
  split at h
  · cases h
    exact ⟨s.windows, fun _ _ => rfl, rfl⟩
  obtain ⟨windows, hcounts, hlimit⟩ := checkPeerLimit_snd m.envelope.sender s
  split at h
  · next fault' s₁ heq =>
    cases h
    exact ⟨windows, hcounts, by rw [← hlimit, heq]⟩
  next s₁ heq =>
  have hs₁ : s₁ = { s with windows := windows } := by rw [← hlimit, heq]
  split at h
  · cases h
    exact ⟨windows, hcounts, hs₁⟩
  split at h
  · cases h
    exact ⟨windows, hcounts, hs₁⟩
  · cases h

/-- **The message took effect**: it was not seen before, its nonce is recorded, its write landed. -/
theorem authorized_ok {α : Type} {m : SignedFederationMessage} {write : Relay → Bool × PeerTable}
    {done : Relay → α × Relay} {s s' : Relay} {a : α}
    (h : authorized m write done s = (.ok a, s')) :
    federationNonceSeen s.nonces m.envelope.sender m.envelope.nonce = false ∧
    ∃ windows nonces peers, CountsOnly m.envelope.sender s.windows windows ∧
      consumeFederationNonce m.envelope.sender m.envelope.nonce m.envelope.ts s.now s.nonces =
        (true, nonces) ∧
      write { s with windows := windows } = (true, peers) ∧
      (a, s') = done { s with windows := windows, nonces := nonces, peers := peers } := by
  unfold authorized at h
  dsimp only at h
  split at h
  · cases h
  next hseen =>
  obtain ⟨windows, hcounts, hlimit⟩ := checkPeerLimit_snd m.envelope.sender s
  split at h
  · cases h
  next s₁ heq =>
  have hs₁ : s₁ = { s with windows := windows } := by rw [← hlimit, heq]
  subst hs₁
  split at h
  · cases h
  next nonces hconsume =>
  split at h
  · cases h
  next peers hwrite =>
  refine ⟨Bool.eq_false_iff.mpr hseen, windows, nonces, peers, hcounts, hconsume, hwrite, ?_⟩
  cases h
  rfl

theorem workClose_snd (m : SignedFederationMessage) (s : Relay) : ∃ b nonces windows,
    CountsOnly m.envelope.sender s.windows windows ∧
    consumeFederationNonce m.envelope.sender m.envelope.nonce m.envelope.ts s.now s.nonces =
      (b, nonces) ∧
    (workClose m s).2 = { s with nonces := nonces, windows := windows } := by
  cases hc : consumeFederationNonce m.envelope.sender m.envelope.nonce m.envelope.ts s.now
      s.nonces with
  | mk fresh nonces =>
    unfold workClose
    dsimp only
    rw [hc]
    cases fresh with
    | false => exact ⟨false, nonces, s.windows, fun _ _ => rfl, rfl, rfl⟩
    | true =>
      obtain ⟨windows, hcounts, hlimit⟩ :=
        checkPeerLimit_snd m.envelope.sender { s with nonces := nonces }
      refine ⟨true, nonces, windows, hcounts, rfl, ?_⟩
      dsimp only
      split
      · next fault s₁ heq => rw [← hlimit, heq]
      · next s₁ heq => rw [← hlimit, heq]

/-! ## §3. Checks before the await -/

/-- The message was made for this relay. -/
structure Addressed (C : FederationConfig) (m : SignedFederationMessage) : Prop where
  recipient : m.envelope.recipient = C.self.relayMotebitId
  key : m.envelope.recipientPublicKey = toLowerCase C.self.publicKeyHex

theorem Verified.addressed {C : FederationConfig} {expect : Expectation}
    {m : SignedFederationMessage} (h : Verified C.self expect now m) : Addressed C m :=
  ⟨h.recipient, h.recipientKey⟩

variable {C : FederationConfig} {m : SignedFederationMessage} {s : Relay}

theorem confirmed_eq_some {p : PeerRow} :
    confirmed existing = some p ↔ existing = some p ∧ p.peeredAt.isSome := by
  unfold confirmed
  rw [Option.filter_eq_some_iff]

theorem toLowerCase_of_isHex64 {key : String} (h : isHex64 key = true) : toLowerCase key = key := by
  unfold isHex64 at h
  rw [Bool.and_eq_true, all_eq_true] at h
  unfold toLowerCase
  rw [map_congr_left fun c hc => toLower_of_lowerHex (h.2 c hc), map_id', String.ofList_toList]

theorem confirmOpen_ok {r : Confirm} (h : confirmOpen C r m s = .ok existing) :
    existing = s.peers.lookup m.envelope.sender ∧
      (∀ p, confirmed existing = some p → r.key = toLowerCase p.publicKey) ∧
      toLowerCase r.key = r.key ∧
      verifyOpen C.self (confirmExpects r m.envelope.sender) s.now m.envelope = none := by
  unfold confirmOpen at h
  dsimp only at h
  iterate 4
    split at h
    · cases h
  next hhex =>
  split at h
  · cases h
  split at h
  · cases h
  next hhandshake =>
  split at h
  · cases h
  split at h
  · cases h
  next hopen =>
  cases h
  refine ⟨rfl, fun p hp => ?_, toLowerCase_of_isHex64 ?_, hopen⟩
  · rw [Bool.or_eq_true, not_or, hp] at hhandshake
    simpa using hhandshake.1
  · rw [not_or] at hhex
    simpa using hhex.1

variable {revocations : List String} {agentCount : Nat}

theorem heartbeatOpen_ok (h : heartbeatOpen C agentCount revocations m s = .ok peer) :
    s.peers.lookup m.envelope.sender = some peer ∧ peer.state ≠ .removed ∧
      verifyOpen C.self (heartbeatExpects agentCount revocations peer) s.now m.envelope = none := by
  unfold heartbeatOpen at h
  split at h
  · cases h
  split at h
  · cases h
  next p hp =>
  split at h
  · cases h
  next hstate =>
  split at h
  · cases h
  next hopen =>
  cases h
  refine ⟨hp, fun hremoved => hstate ?_, hopen⟩
  rw [hremoved]
  decide

theorem removeOpen_ok (h : removeOpen C m s = .ok peer) :
    s.peers.lookup m.envelope.sender = some peer ∧
      verifyOpen C.self (removeExpects peer) s.now m.envelope = none := by
  unfold removeOpen at h
  split at h
  · cases h
  split at h
  · cases h
  next p hp =>
  split at h
  · cases h
  next hopen =>
  cases h
  exact ⟨(confirmed_eq_some.mp hp).1, hopen⟩

theorem workOpen_ok {r : WorkRequest} (h : workOpen C r m s = .ok peer) :
    s.peers.lookup m.envelope.sender = some peer ∧
      verifyOpen C.self (workExpects r m.envelope.sender peer) s.now m.envelope = none := by
  unfold workOpen at h
  split at h
  · cases h
  split at h
  · cases h
  split at h
  · cases h
  next p hp =>
  split at h
  · cases h
  split at h
  · cases h
  next hopen =>
  cases h
  exact ⟨hp, hopen⟩

/-! ## §4. The row a message moved -/

def rank : PeerState → Nat
  | .removed => 0
  | .pending | .suspended => 1
  | .active => 2

/-- A change toward active. -/
def Stronger (r r' : PeerRow) : Prop :=
  r'.endpointUrl ≠ r.endpointUrl ∨ r'.missedHeartbeats < r.missedHeartbeats ∨
    rank r.state < rank r'.state

/-- A change toward suspended or removed. -/
def Weaker (r r' : PeerRow) : Prop := rank r'.state < rank r.state

theorem rank_le_active (st : PeerState) : rank st ≤ rank .active := by
  cases st <;> decide

/-- What a verified message did: its sender's row is born, or moved under its key. -/
inductive Authorized (m : SignedFederationMessage) (t t' : PeerTable) : Prop
  | born (r : PeerRow) (hset : Sets t t' m.envelope.sender r)
      (hold : ∀ old, t.lookup m.envelope.sender = some old → old.peeredAt = none)
      (hid : r.peerRelayId = m.envelope.sender) (hkind : m.envelope.kind = .peerConfirm)
      (hsigner : m.signer = toLowerCase r.publicKey)
      (hbody : ∃ nonce, m.envelope.body = .confirm nonce r.endpointUrl)
  | moved (cur r : PeerRow) (hset : Sets t t' m.envelope.sender r)
      (hcur : t.lookup m.envelope.sender = some cur)
      (hpeered : cur.peeredAt.isSome ∧ r.peeredAt.isSome)
      (hid : r.peerRelayId = cur.peerRelayId) (hkey : r.publicKey = cur.publicKey)
      (hsigner : m.signer = toLowerCase cur.publicKey)
      (hendpoint : r.endpointUrl = cur.endpointUrl ∨ m.envelope.kind = .peerConfirm ∧
        ∃ nonce, m.envelope.body = .confirm nonce r.endpointUrl)
      (hdown : m.envelope.kind = .peerRemove ∧ ¬Stronger cur r ∨
        m.envelope.kind ≠ .peerRemove ∧ ¬Weaker cur r)

theorem update_peered {b next : PeerRow} {authority : PeerWriteAuthority}
    (h : writePeerRow (some b) (.update next) authority t = (true, t')) : b.peeredAt.isSome := by
  rcases writePeerRow_ok h with ⟨row, hw, -⟩ | ⟨b', row, cur, hb, hw, -, -, hp, -⟩ | ⟨b', cur, -, hw, -⟩
  · cases hw
  · cases hb
    exact Option.isSome_iff_ne_none.mpr hp
  · cases hw

theorem update_authorized {b next : PeerRow}
    (h : writePeerRow (some b) (.update next) .peerKey t = (true, t'))
    (hid : b.peerRelayId = m.envelope.sender) (hnext : next.peeredAt.isSome)
    (hsigner : m.signer = toLowerCase b.publicKey)
    (hendpoint : next.endpointUrl = b.endpointUrl ∨ m.envelope.kind = .peerConfirm ∧
      ∃ nonce, m.envelope.body = .confirm nonce next.endpointUrl)
    (hdown : m.envelope.kind = .peerRemove ∧ ¬Stronger b next ∨
      m.envelope.kind ≠ .peerRemove ∧ ¬Weaker b next) : Authorized m t t' := by
  rcases writePeerRow_ok h with ⟨r, hw, -⟩ | ⟨b', r, cur, hb, hw, hcur, hread, hpeered, -, -, rfl⟩ |
    ⟨b', cur, -, hw, -⟩
  · cases hw
  · cases hb
    cases hw
    obtain ⟨hreadId, hreadKey, hreadUrl, hreadState, -, hreadPeered, -, hreadMissed⟩ := hread
    rw [hid] at hcur ⊢
    refine .moved cur (cur.assign next) (sets_insert t _ _) hcur ⟨?_, hnext⟩ rfl rfl ?_ ?_ ?_
    · rw [hreadPeered, Option.isSome_iff_ne_none]
      exact hpeered
    · rw [hreadKey]
      exact hsigner
    · rw [hreadUrl]
      exact hendpoint
    · -- the row read and the row found differ in no column the order reads
      unfold Stronger Weaker PeerRow.assign at *
      rw [hreadUrl, hreadState, hreadMissed]
      exact hdown
  · cases hw

theorem confirm_authorized {r : Confirm} {cosmetic : Option Cosmetic}
    (hid : ∀ p, existing = some p → p.peerRelayId = m.envelope.sender)
    (hkey : ∀ p, confirmed existing = some p → r.key = toLowerCase p.publicKey)
    (hv : Verified C.self (confirmExpects r m.envelope.sender) checkedAt m)
    (hlower : toLowerCase r.key = r.key)
    (h : confirmWrite C r m.envelope.sender cosmetic now existing t = (true, t')) :
    Authorized m t t' := by
  have hbody : ∃ nonce, m.envelope.body = .confirm nonce r.endpointUrl := ⟨r.nonce, hv.body⟩
  have hkind : m.envelope.kind = .peerConfirm := hv.kind
  have hsigner : m.signer = r.key := hv.signer.trans hlower
  unfold confirmWrite at h
  dsimp only at h
  split at h
  · next p hp =>
    obtain ⟨hsome, -⟩ := confirmed_eq_some.mp hp
    refine update_authorized h (hid p hsome) rfl ?_ (.inr ⟨hv.kind, hbody⟩) (.inr ⟨?_, ?_⟩)
    · rw [hsigner]
      exact hkey p hp
    · rw [hkind]
      decide
    · exact Nat.not_lt.mpr (rank_le_active p.state)
  · -- no row: born
    next hnone =>
    rcases writePeerRow_ok h with ⟨row, hw, -, -, hfree, rfl⟩ | ⟨b, row, cur, hb, -⟩ | ⟨b, cur, hb, -⟩
    · cases hw
      refine .born _ (sets_insert t _ _) (fun old hold => ?_) rfl hv.kind ?_ hbody
      · rw [show t.lookup m.envelope.sender = none from hfree] at hold
        cases hold
      · exact hsigner.trans hlower.symm
    · cases hb
    · cases hb
  · -- a never-confirmed row replaced
    next old hnone =>
    split at h
    · cases h
    next t₁ hdelete =>
    rcases writePeerRow_ok hdelete with ⟨row, hw, -⟩ | ⟨b, row, cur, -, hw, -⟩ |
      ⟨b, cur, hb, -, hcur, hread, hpeered, rfl⟩
    · cases hw
    · cases hw
    cases hb
    rcases writePeerRow_ok h with ⟨row, hw, -, -, -, rfl⟩ | ⟨b, row, cur', hb, -⟩ | ⟨b, cur', hb, -⟩
    · cases hw
      rw [hid old rfl] at hcur ⊢
      refine .born _ (sets_replace t _ _) (fun old' hold' => ?_) rfl hv.kind ?_ hbody
      · rw [hcur] at hold'
        cases hold'
        rw [hread.2.2.2.2.2.1]
        exact hpeered
      · exact hsigner.trans hlower.symm
    · cases hb
    · cases hb

theorem heartbeat_authorized (hid : peer.peerRelayId = m.envelope.sender)
    (hv : Verified C.self (heartbeatExpects agentCount revocations peer) checkedAt m)
    (h : writePeerRow (some peer) (.update (heartbeatRow agentCount now peer)) .peerKey t =
      (true, t')) : Authorized m t t' := by
  have hkind : m.envelope.kind = .heartbeat := hv.kind
  have hpeered : peer.peeredAt.isSome := update_peered h
  refine update_authorized h hid hpeered hv.signer (.inl rfl) (.inr ⟨?_, ?_⟩)
  · rw [hkind]
    decide
  · unfold Weaker heartbeatRow
    split
    · exact Nat.not_lt.mpr (rank_le_active _)
    · exact Nat.lt_irrefl _

theorem remove_authorized (hid : peer.peerRelayId = m.envelope.sender)
    (hv : Verified C.self (removeExpects peer) checkedAt m)
    (h : writePeerRow (some peer) (.update { peer with state := .removed }) .peerKey t =
      (true, t')) : Authorized m t t' := by
  have hpeered : peer.peeredAt.isSome := update_peered h
  refine update_authorized h hid hpeered hv.signer (.inl rfl) (.inl ⟨hv.kind, ?_⟩)
  rintro (hurl | hmissed | hrank)
  · exact hurl rfl
  · exact Nat.lt_irrefl _ hmissed
  · exact Nat.not_lt_zero _ hrank

theorem ack_authorized {requestNonce : String} {agentCount : Int}
    (hid : m.envelope.sender = peer.peerRelayId)
    (hv : Verified C.self (ackExpects peer requestNonce agentCount) checkedAt m)
    (h : writePeerRow (some peer) (.update (acknowledgedRow now peer)) .peerKey t = (true, t')) :
    Authorized m t t' := by
  have hkind : m.envelope.kind = .heartbeatAck := hv.kind
  have hpeered : peer.peeredAt.isSome := update_peered h
  refine update_authorized h hid.symm hpeered hv.signer (.inl rfl) (.inr ⟨?_, ?_⟩)
  · rw [hkind]
    decide
  · unfold Weaker acknowledgedRow
    split
    · exact Nat.not_lt.mpr (rank_le_active _)
    · exact Nat.lt_irrefl _

end Motebit.Peers
