/-
  Motebit.Peers.Authority — WHO MAY MOVE A PEER'S ROW: the invariant and the routes.

  Main results: `Caused`, `Inv.message`, `Inv.observe`, `underKey_ensures`.
-/

import Motebit.Peers.Effects

namespace Motebit.Peers

open Motebit.Lib Motebit.Lib.Protocol List

variable {C : FederationConfig} {H : Home} {m : SignedFederationMessage} {n n' : Node}

/-! ## §1. Causes -/

/-- A confirmed row between two states: what moved it is among the new messages and
    observations. -/
structure RowKept (new : List SignedFederationMessage) (seen : List String) (id : String)
    (r r' : PeerRow) : Prop where
  key : r'.publicKey = r.publicKey
  confirmed : r'.peeredAt.isSome
  up : Stronger r r' → ∃ m ∈ new, m.envelope.sender = id ∧ m.signer = toLowerCase r.publicKey ∧
    m.envelope.kind ≠ .peerRemove
  down : Weaker r r' → (∃ m ∈ new, m.envelope.sender = id ∧ m.signer = toLowerCase r.publicKey ∧
    m.envelope.kind = .peerRemove) ∨ id ∈ seen

variable {id : String}

theorem RowKept.refl {new : List SignedFederationMessage} {seen : List String}
    {r : PeerRow} (h : r.peeredAt.isSome) : RowKept new seen id r r where
  key := rfl
  confirmed := h
  up hs := by
    rcases hs with hurl | hmissed | hrank
    · exact absurd rfl hurl
    · exact absurd hmissed (Nat.lt_irrefl _)
    · exact absurd hrank (Nat.lt_irrefl _)
  down hw := absurd hw (Nat.lt_irrefl _)

theorem RowKept.trans {new new' : List SignedFederationMessage} {seen seen' : List String}
    {r r₁ r₂ : PeerRow} (h : RowKept new seen id r r₁)
    (h' : RowKept new' seen' id r₁ r₂) : RowKept (new' ++ new) (seen' ++ seen) id r r₂ where
  key := h'.key.trans h.key
  confirmed := h'.confirmed
  up hs := by
    -- a change over both parts is a change over one of them
    have hone : Stronger r r₁ ∨ Stronger r₁ r₂ := by
      rcases hs with hurl | hmissed | hrank
      · by_cases hfirst : r₁.endpointUrl = r.endpointUrl
        · exact .inr (.inl (hfirst ▸ hurl))
        · exact .inl (.inl hfirst)
      · rcases Nat.lt_or_ge r₁.missedHeartbeats r.missedHeartbeats with hlt | hge
        · exact .inl (.inr (.inl hlt))
        · exact .inr (.inr (.inl (Nat.lt_of_lt_of_le hmissed hge)))
      · rcases Nat.lt_or_ge (rank r.state) (rank r₁.state) with hlt | hge
        · exact .inl (.inr (.inr hlt))
        · exact .inr (.inr (.inr (Nat.lt_of_le_of_lt hge hrank)))
    rcases hone with hfirst | hsecond
    · obtain ⟨m, hm, hrest⟩ := h.up hfirst
      exact ⟨m, mem_append_right _ hm, hrest⟩
    · obtain ⟨m, hm, hid, hsigner, hkind⟩ := h'.up hsecond
      exact ⟨m, mem_append_left _ hm, hid, h.key ▸ hsigner, hkind⟩
  down hw := by
    rcases Nat.lt_or_ge (rank r₁.state) (rank r.state) with hlt | hge
    · rcases h.down hlt with ⟨m, hm, hrest⟩ | hseen
      · exact .inl ⟨m, mem_append_right _ hm, hrest⟩
      · exact .inr (mem_append_right _ hseen)
    · rcases h'.down (Nat.lt_of_lt_of_le hw hge) with ⟨m, hm, hid, hsigner, hkind⟩ | hseen
      · exact .inl ⟨m, mem_append_left _ hm, hid, h.key ▸ hsigner, hkind⟩
      · exact .inr (mem_append_left _ hseen)

/-- What every step does: no confirmed row is lost, and every move has its cause. -/
structure Caused (C : FederationConfig) (n n' : Node) : Prop where
  signed : n.signed ⊆ n'.signed
  rows : ∃ new seen, n'.effects = new ++ n.effects ∧ n'.observed = seen ++ n.observed ∧
    (∀ m ∈ new, m ∈ n'.signed ∧ Addressed C m) ∧
    ∀ id r, n.relay.peers.lookup id = some r → r.peeredAt.isSome →
      ∃ r', n'.relay.peers.lookup id = some r' ∧ RowKept new seen id r r'

theorem Caused.refl (C : FederationConfig) (n : Node) : Caused C n n :=
  ⟨fun _ h => h, [], [], rfl, rfl, by simp, fun _ r hr hp => ⟨r, hr, RowKept.refl hp⟩⟩

theorem Caused.trans {n₁ : Node} (h : Caused C n n₁) (h' : Caused C n₁ n') : Caused C n n' := by
  obtain ⟨hsigned, new, seen, heff, hobs, hnew, hrows⟩ := h
  obtain ⟨hsigned', new', seen', heff', hobs', hnew', hrows'⟩ := h'
  refine ⟨fun _ hx => hsigned' (hsigned hx), new' ++ new, seen' ++ seen, ?_, ?_, ?_, ?_⟩
  · rw [heff', heff, append_assoc]
  · rw [hobs', hobs, append_assoc]
  · intro m hm
    rcases mem_append.mp hm with hm' | hm'
    · exact hnew' m hm'
    · exact ⟨hsigned' (hnew m hm').1, (hnew m hm').2⟩
  · intro id r hr hp
    obtain ⟨r₁, hr₁, hkept₁⟩ := hrows id r hr hp
    obtain ⟨r₂, hr₂, hkept₂⟩ := hrows' id r₁ hr₁ hkept₁.confirmed
    exact ⟨r₂, hr₂, hkept₁.trans hkept₂⟩

/-- The confirm a confirmed row rests on. -/
def Born (C : FederationConfig) (n : Node) : Prop :=
  ∀ id r, n.relay.peers.lookup id = some r → r.peeredAt.isSome → ∃ m ∈ n.signed, Addressed C m ∧
    m.envelope.kind = .peerConfirm ∧ m.envelope.sender = id ∧
    m.signer = toLowerCase r.publicKey ∧ ∃ nonce, m.envelope.body = .confirm nonce r.endpointUrl

/-! ## §2. The invariant -/

/-- Rows are kept under their own ids. -/
def RowsKeyed (t : PeerTable) : Prop := ∀ id r, t.lookup id = some r → r.peerRelayId = id

/-- The message's nonce is on record until the message is stale for good. -/
def Spent (s : Relay) (m : SignedFederationMessage) : Prop :=
  (∃ row ∈ s.nonces, row.sender = m.envelope.sender ∧ row.nonce = m.envelope.nonce ∧
    m.envelope.ts + federationNonceRetentionMs ≤ row.expiresAt) ∨
  m.envelope.ts + federationNonceRetentionMs < s.now

/-- An acknowledgement of the heartbeat that drew the `k`-th nonce. -/
def Answers (H : Home) (m : SignedFederationMessage) (k : Nat) : Prop :=
  m.envelope.kind = .heartbeatAck ∧ ∃ count, m.envelope.body = .heartbeatAck (H.nonceAt k) count

structure Inv (H : Home) (n : Node) : Prop where
  keyed : RowsKeyed n.relay.peers
  born : Born H.config n
  cap : n.crowded = false → activeCount n.relay.peers ≤ H.config.maxPeers
  spent : ∀ m ∈ n.effects, m.envelope.kind ≠ .heartbeatAck → Spent n.relay m
  answers : ∀ m ∈ n.effects, m.envelope.kind = .heartbeatAck → ∃ k < n.drawn, Answers H m k
  once : n.lingered = false → n.effects.Nodup

/-- What a thread's step may do: an acknowledgement it takes answers a nonce it drew. -/
structure Guar (H : Home) (t : Nat) (n n' : Node) : Prop where
  caused : Caused H.config n n'
  drawn : n.drawn ≤ n'.drawn
  owner : ∀ k < n.drawn, n'.owner k = n.owner k
  own : ∀ m ∈ n'.effects, m ∈ n.effects ∨ ∀ k, Answers H m k → n'.owner k = t

theorem Guar.refl (t : Nat) (n : Node) : Guar H t n n :=
  ⟨Caused.refl _ n, Nat.le_refl _, fun _ _ => rfl, fun _ h => .inl h⟩

theorem Guar.trans {t : Nat} {n₁ : Node} (h : Guar H t n n₁) (h' : Guar H t n₁ n')
    (hstill : ∀ k, n'.owner k = n₁.owner k) : Guar H t n n' where
  caused := h.caused.trans h'.caused
  drawn := Nat.le_trans h.drawn h'.drawn
  owner k hk := (h'.owner k (Nat.lt_of_lt_of_le hk h.drawn)).trans (h.owner k hk)
  own m hm := by
    rcases h'.own m hm with hmem | hown
    · rcases h.own m hmem with hold | hown
      · exact .inl hold
      · exact .inr fun k hk => (hstill k).trans (hown k hk)
    · exact .inr hown

theorem Inv.aside (hi : Inv H n) {s : Relay} (hpeers : s.peers = n.relay.peers)
    (hnonces : s.nonces = n.relay.nonces) (hnow : s.now = n.relay.now) (t : Nat) :
    Inv H { n with relay := s } ∧ Guar H t n { n with relay := s } := by
  refine ⟨⟨?_, ?_, ?_, ?_, hi.answers, hi.once⟩, ⟨fun _ h => h, [], [], rfl, rfl,
    by simp, fun id r hr hp => ⟨r, ?_, RowKept.refl hp⟩⟩, Nat.le_refl _,
    fun _ _ => rfl, fun _ h => .inl h⟩
  · show RowsKeyed s.peers
    rw [hpeers]
    exact hi.keyed
  · intro id r hr
    exact hi.born id r (hpeers ▸ hr)
  · show n.crowded = false → activeCount s.peers ≤ _
    rw [hpeers]
    exact hi.cap
  · intro m hm hkind
    unfold Spent
    rw [show ({ n with relay := s } : Node).relay = s from rfl, hnonces, hnow]
    exact hi.spent m hm hkind
  · rw [show ({ n with relay := s } : Node).relay = s from rfl, hpeers]
    exact hr

/-! ## §3. Nonces -/

variable {windows : String → Option Window} {cosmetics : List (String × Cosmetic)} {peers : PeerTable} {nonces : List NonceRow} {sender nonce : String}

theorem Spent.consume {s : Relay} {key : String} {ts : Int} {b : Bool} (h : Spent s m)
    (hc : consumeFederationNonce sender nonce ts s.now s.nonces = (b, nonces)) :
    Spent ⟨s.now, peers, nonces, windows, cosmetics, key⟩ m := by
  rcases h with ⟨row, hrow, hsender, hnonce, hexpires⟩ | hstale
  · by_cases hlive : row.expiresAt < s.now
    · exact .inr (Int.lt_of_le_of_lt hexpires hlive)
    · have hkept : row ∈ s.nonces.filter fun r => !(r.expiresAt < s.now) :=
        mem_filter.mpr ⟨hrow, by simpa using hlive⟩
      refine .inl ⟨row, ?_, hsender, hnonce, hexpires⟩
      unfold consumeFederationNonce at hc
      dsimp only at hc
      split at hc
      · cases hc
        exact hkept
      · cases hc
        exact mem_cons_of_mem _ hkept
  · exact .inr hstale

theorem spent_consumed {now : Int} {rows nonces : List NonceRow} {key : String}
    (hc : consumeFederationNonce m.envelope.sender m.envelope.nonce m.envelope.ts now rows =
      (true, nonces)) : Spent ⟨now, peers, nonces, windows, cosmetics, key⟩ m := by
  unfold consumeFederationNonce at hc
  dsimp only at hc
  split at hc
  · cases hc
  cases hc
  refine .inl ⟨_, mem_cons_self, rfl, rfl, ?_⟩
  exact Int.add_le_add_right (Int.le_max_left _ _) _

variable {checkedAt : Int}

theorem Inv.unspent (hi : Inv H n)
    (hseen : federationNonceSeen n.relay.nonces m.envelope.sender m.envelope.nonce = false)
    (hfresh : (checkedAt - m.envelope.ts).natAbs ≤ maxSkewMs)
    (hsoon : ¬(maxSkewMs : Int) < n.relay.now - checkedAt)
    (hkind : m.envelope.kind ≠ .heartbeatAck) : m ∉ n.effects := by
  intro hm
  rcases hi.spent m hm hkind with ⟨row, hrow, hsender, hnonce, -⟩ | hstale
  · exact any_eq_false.mp hseen row hrow (decide_eq_true ⟨hsender, hnonce⟩)
  · unfold federationNonceRetentionMs at hstale
    unfold maxSkewMs at hfresh hsoon
    omega

/-! ## §4. A message takes effect -/

theorem Authorized.kept {t t' : PeerTable} (h : Authorized m t t') {r : PeerRow}
    (hr : t.lookup id = some r) (hp : r.peeredAt.isSome) :
    ∃ r', t'.lookup id = some r' ∧ RowKept [m] [] id r r' := by
  cases h with
  | born row hset hold =>
    by_cases hid : id = m.envelope.sender
    · subst hid
      rw [hold r hr] at hp
      cases hp
    · exact ⟨r, (hset.others id hid).trans hr, RowKept.refl hp⟩
  | moved cur row hset hcur hpeered hrid hkey hsigner hendpoint hdown =>
    by_cases hid : id = m.envelope.sender
    · subst hid
      rw [hcur] at hr
      cases hr
      refine ⟨row, hset.here, hkey, hpeered.2, fun hs => ?_, fun hw => ?_⟩
      · rcases hdown with ⟨-, hnot⟩ | ⟨hkind, -⟩
        · exact absurd hs hnot
        · exact ⟨m, mem_singleton.mpr rfl, rfl, hsigner, hkind⟩
      · rcases hdown with ⟨hkind, -⟩ | ⟨-, hnot⟩
        · exact .inl ⟨m, mem_singleton.mpr rfl, rfl, hsigner, hkind⟩
        · exact absurd hw hnot
    · exact ⟨r, (hset.others id hid).trans hr, RowKept.refl hp⟩

theorem Authorized.sets {t t' : PeerTable} (h : Authorized m t t') :
    ∃ r, Sets t t' m.envelope.sender r := by
  cases h with
  | born r hset => exact ⟨r, hset⟩
  | moved cur r hset => exact ⟨r, hset⟩

theorem Authorized.keyed {t t' : PeerTable} (h : Authorized m t t') (hkeyed : RowsKeyed t) :
    RowsKeyed t' := by
  intro id r hr
  have hset : ∃ row, Sets t t' m.envelope.sender row ∧ row.peerRelayId = m.envelope.sender := by
    cases h with
    | born row hset _ hid => exact ⟨row, hset, hid⟩
    | moved cur row hset hcur _ hid => exact ⟨row, hset, hid.trans (hkeyed _ cur hcur)⟩
  obtain ⟨row, hset, hid⟩ := hset
  by_cases hsame : id = m.envelope.sender
  · subst hsame
    rw [hset.here] at hr
    cases hr
    exact hid
  · exact hkeyed id r ((hset.others id hsame).symm.trans hr)

/-- **A message took effect**: rows, confirms and the cap. -/
theorem Inv.message (hi : Inv H n) (s : Relay) (lingered : Bool)
    (hauth : Authorized m n.relay.peers s.peers) (hm : m ∈ n.signed) (haddr : Addressed H.config m)
    (hspent : ∀ x ∈ m :: n.effects, x.envelope.kind ≠ .heartbeatAck → Spent s x)
    (hanswers : m.envelope.kind = .heartbeatAck → ∃ k < n.drawn, Answers H m k)
    (honce : lingered = false → n.lingered = false ∧ m ∉ n.effects) :
    let n' : Node := { n with
      relay := s
      effects := m :: n.effects
      lingered := lingered
      crowded := n.crowded || crowds H.config n.relay.peers s.peers m.envelope.sender }
    Inv H n' ∧ Caused H.config n n' := by
  refine ⟨⟨?_, ?_, ?_, hspent, ?_, ?_⟩, fun _ h => h, [m], [], rfl, rfl, ?_,
    fun id r hr hp => hauth.kept hr hp⟩
  · exact hauth.keyed hi.keyed
  · intro id r hr hp
    cases hauth with
    | born row hset _ _ hkind hsigner hbody =>
      by_cases hsame : id = m.envelope.sender
      · subst hsame
        have heq : s.peers.lookup m.envelope.sender = some r := hr
        rw [hset.here] at heq
        cases heq
        exact ⟨m, hm, haddr, hkind, rfl, hsigner, hbody⟩
      · exact hi.born id r ((hset.others id hsame).symm.trans hr) hp
    | moved cur row hset hcur hpeered _ hkey hsigner hendpoint _ =>
      by_cases hsame : id = m.envelope.sender
      · subst hsame
        have heq : s.peers.lookup m.envelope.sender = some r := hr
        rw [hset.here] at heq
        cases heq
        rcases hendpoint with hurl | ⟨hkind, hbody⟩
        · obtain ⟨m₀, hm₀, haddr₀, hkind₀, hid₀, hsigner₀, hbody₀⟩ := hi.born _ cur hcur hpeered.1
          exact ⟨m₀, hm₀, haddr₀, hkind₀, hid₀, hkey ▸ hsigner₀, hurl ▸ hbody₀⟩
        · exact ⟨m, hm, haddr, hkind, rfl, hkey ▸ hsigner, hbody⟩
      · exact hi.born id r ((hset.others id hsame).symm.trans hr) hp
  · intro hroom
    obtain ⟨hclean, hwrite⟩ := Bool.or_eq_false_iff.mp hroom
    obtain ⟨row, hset⟩ := hauth.sets
    exact hset.cap (hi.cap hclean) hwrite
  · intro x hx hkind
    rcases mem_cons.mp hx with rfl | hold
    · exact hanswers hkind
    · exact hi.answers x hold hkind
  · intro hl
    obtain ⟨hclean, hfresh⟩ := honce hl
    exact nodup_cons.mpr ⟨hfresh, hi.once hclean⟩
  · intro x hx
    rw [mem_singleton.mp hx]
    exact ⟨hm, haddr⟩

/-! ## §5. This relay's own observation -/

theorem Inv.observe (hi : Inv H n) {b next : PeerRow}
    (hw : writePeerRow (some b) (.update next) .observed n.relay.peers = (true, peers))
    (hmissed : b.missedHeartbeats ≤ next.missedHeartbeats) (hrank : rank next.state ≤ rank b.state)
    (hurl : next.endpointUrl = b.endpointUrl) :
    Inv H { n with relay := { n.relay with peers := peers }, observed := b.peerRelayId :: n.observed } ∧
      Caused H.config n { n with
        relay := { n.relay with peers := peers }, observed := b.peerRelayId :: n.observed } := by
  rcases writePeerRow_ok hw with ⟨r, hins, -⟩ | ⟨b', r, cur, hb, hup, hcur, hread, hpeered, hnext, -, rfl⟩ |
    ⟨b', cur, -, hdel, -⟩
  · cases hins
  · cases hb
    cases hup
    obtain ⟨hreadId, hreadKey, hreadUrl, hreadState, -, hreadPeered, -, hreadMissed⟩ := hread
    have hset := sets_insert n.relay.peers b.peerRelayId (cur.assign next)
    have hcurPeered : cur.peeredAt.isSome := by
      rw [hreadPeered, Option.isSome_iff_ne_none]
      exact hpeered
    have hother : ∀ id r, (n.relay.peers.insert b.peerRelayId (cur.assign next)).lookup id = some r →
        (id = b.peerRelayId ∧ r = cur.assign next) ∨
          (id ≠ b.peerRelayId ∧ n.relay.peers.lookup id = some r) := by
      intro id r hr
      by_cases hid : id = b.peerRelayId
      · subst hid
        rw [hset.here] at hr
        exact .inl ⟨rfl, (Option.some.inj hr).symm⟩
      · exact .inr ⟨hid, (hset.others id hid).symm.trans hr⟩
    refine ⟨⟨?_, ?_, ?_, ?_, hi.answers, hi.once⟩, fun _ h => h, [], [b.peerRelayId], rfl, rfl,
      by simp, ?_⟩
    · intro id r hr
      rcases hother id r hr with ⟨rfl, rfl⟩ | ⟨-, hold⟩
      · exact hreadId
      · exact hi.keyed id r hold
    · intro id r hr hp
      rcases hother id r hr with ⟨rfl, rfl⟩ | ⟨-, hold⟩
      · obtain ⟨m₀, hm₀, haddr₀, hkind₀, hid₀, hsigner₀, hbody₀⟩ := hi.born _ cur hcur hcurPeered
        refine ⟨m₀, hm₀, haddr₀, hkind₀, hid₀, hsigner₀, ?_⟩
        show ∃ nonce, m₀.envelope.body = .confirm nonce next.endpointUrl
        rw [hurl, ← hreadUrl]
        exact hbody₀
      · exact hi.born id r hold hp
    · intro hroom
      refine hset.cap (hi.cap hroom) ?_
      -- an observation turns no row active
      unfold crowds isActive
      rw [hset.here, hcur]
      by_cases hactive : next.state = .active
      · have hwas : b.state = .active := by
          rw [hactive] at hrank
          cases hb : b.state with
          | active => rfl
          | pending | suspended | removed => rw [hb] at hrank; exact absurd hrank (by decide)
        simp [hreadState, hwas]
      · simp [PeerRow.assign, hactive]
    · exact fun x hx hkind => hi.spent x hx hkind
    · intro id r hr hp
      by_cases hid : id = b.peerRelayId
      · subst hid
        rw [hcur] at hr
        cases hr
        refine ⟨cur.assign next, hset.here, rfl, Option.isSome_iff_ne_none.mpr hnext, fun hs => ?_,
          fun _ => .inr (mem_singleton.mpr rfl)⟩
        rcases hs with hchanged | hlower | hraised
        · exact absurd (hurl.trans hreadUrl.symm) hchanged
        · rw [hreadMissed] at hlower
          exact absurd hlower (Nat.not_lt.mpr hmissed)
        · rw [hreadState] at hraised
          exact absurd hraised (Nat.not_lt.mpr hrank)
      · exact ⟨r, (hset.others id hid).trans hr, RowKept.refl hp⟩
  · cases hdel

theorem missedRow_rank {peer : PeerRow} (h : peer.state = .active ∨ peer.state = .suspended) :
    rank (missedRow peer).state ≤ rank peer.state := by
  unfold missedRow
  dsimp only
  split
  · exact Nat.zero_le _
  split
  · rcases h with hactive | hsuspended
    · rw [hactive]
      decide
    · rw [hsuspended]
  · exact Nat.le_refl _

theorem elsewhere_inv (hi : Inv H n) (h : Elsewhere H n n') (t : Nat) : Inv H n' ∧ Guar H t n n' := by
  cases h with
  | tick now hnow =>
    refine ⟨{ hi with spent := fun m hm hkind => ?_ },
      ⟨fun _ h => h, [], [], rfl, rfl, by simp,
        fun _ r hr hp => ⟨r, hr, RowKept.refl hp⟩⟩, Nat.le_refl _, fun _ _ => rfl, fun _ h => .inl h⟩
    rcases hi.spent m hm hkind with hrow | hstale
    · exact .inl hrow
    · exact .inr (Int.lt_of_lt_of_le hstale hnow)
  | sign =>
    refine ⟨{ hi with born := fun id r hr hp => ?_ },
      ⟨subset_cons_self _ _, [], [], rfl, rfl, by simp,
        fun _ r hr hp => ⟨r, hr, RowKept.refl hp⟩⟩, Nat.le_refl _, fun _ _ => rfl, fun _ h => .inl h⟩
    obtain ⟨m₀, hm₀, hrest⟩ := hi.born id r hr hp
    exact ⟨m₀, mem_cons_of_mem _ hm₀, hrest⟩
  | breaker endpointUrl before peers hrow hwrite =>
    unfold suspendPeer at hwrite
    rw [hrow] at hwrite
    have hactive : before.state = .active := by
      have hfound := find?_some hrow
      exact (of_decide_eq_true hfound).2
    obtain ⟨hinv, hcaused⟩ := hi.observe hwrite (Nat.le_refl _) (by rw [hactive]; exact rank_le_active _) rfl
    exact ⟨hinv, hcaused, Nat.le_refl _, fun _ _ => rfl, fun _ h => .inl h⟩
  | count relayId => exact hi.aside (s := (checkPeerLimit relayId n.relay).2) rfl rfl rfl t

/-! ## §6. The protocol -/

def authority (H : Home) : Protocol (peering H) where
  Inv := Inv H
  Guar := Guar H
  Fresh _ _ := True
  refl := .refl

theorem signed_stable {t : Nat} (m : SignedFederationMessage) :
    (authority H).Stable t fun n => m ∈ n.signed := by
  intro n n' hi _ hr hm
  rcases hr with ⟨u, -, hg⟩ | he
  · exact hg.caused.signed hm
  · exact (elsewhere_inv hi he t).2.caused.signed hm

section

variable {t : Nat} {L : Node → Prop}

theorem ask_ensures (w : PeerWait) (hL : (authority H).Stable t L) :
    (authority H).Ensures t (Task.ask w : PeerWork (PeerHeard w)) L (fun _ => L) fun _ _ => True := by
  refine .ask (fun _ => hL) fun n x n' hi hl ha => ?_
  obtain ⟨rfl, -⟩ := ha
  exact ⟨hi, Guar.refl t n', hl⟩

theorem received_ensures (wire : Wire) :
    (authority H).Ensures t (received wire) (fun _ => True) (fun m n => m ∈ n.signed)
      fun _ _ => True := by
  cases wire with
  | absent | malformed => exact .throw fun _ _ _ => trivial
  | message m =>
    have hask : (authority H).Ensures t (Task.ask (PeerWait.arrive m) : PeerWork Unit)
        (fun _ => True) (fun _ n => m ∈ n.signed) fun _ _ => True := by
      refine .ask (fun _ => signed_stable m) fun n x n' hi _ ha => ?_
      obtain ⟨rfl, hm⟩ := ha
      exact ⟨hi, Guar.refl t n', hm⟩
    exact hask.bind fun _ => .pure fun _ _ hm => hm

variable {α : Type}

theorem look_ensures {f : Relay → Except PeerFault α} (hL : (authority H).Stable t L) :
    (authority H).Ensures t (look f) L
      (fun a n => L n ∧ ∃ s : Relay, RowsKeyed s.peers ∧ f s = .ok a.1 ∧ s.now = a.2)
      fun _ _ => True := by
  have hstable : ∀ a : Except PeerFault (α × Int), (authority H).Stable t fun n => L n ∧
      ∀ b, a = .ok b → ∃ s : Relay, RowsKeyed s.peers ∧ f s = .ok b.1 ∧ s.now = b.2 :=
    fun a n n' hi hi' hr hl => ⟨hL n n' hi hi' hr hl.1, hl.2⟩
  refine .bind (Q := fun a n => L n ∧ ∀ b, a = .ok b → ∃ s : Relay,
    RowsKeyed s.peers ∧ f s = .ok b.1 ∧ s.now = b.2) (.act hstable fun n hi hl => ?_) fun a => ?_
  · refine ⟨hi, Guar.refl t n, hl, fun b hb => ⟨n.relay, hi.keyed, ?_⟩⟩
    cases hf : f n.relay with rw [hf] at hb
    | error => cases hb
    | ok =>
      cases hb
      exact ⟨rfl, rfl⟩
  · cases a with
    | ok b => exact .pure fun _ _ hl => ⟨hl.1, hl.2 b rfl⟩
    | error => exact .throw fun _ _ _ => trivial

theorem verifySignature_ensures {expect : Expectation} (hL : (authority H).Stable t L) :
    (authority H).Ensures t (verifySignature expect m) L
      (fun _ n => L n ∧ verifyClose expect m = none) fun _ _ => True := by
  refine (ask_ensures .verify hL).bind fun _ => ?_
  cases hclose : verifyClose expect m with
  | some => exact .throw fun _ _ _ => trivial
  | none => exact .pure fun _ _ hl => ⟨hl, rfl⟩

theorem onRelay_aside {f : Relay → Except PeerFault α × Relay}
    (hf : ∀ s, (f s).2.peers = s.peers ∧ (f s).2.nonces = s.nonces ∧ (f s).2.now = s.now) :
    (authority H).Ensures t (turn (onRelay f)) (fun _ => True) (fun _ _ => True)
      fun _ _ => True := by
  refine .bind (Q := fun _ _ => True) (.act (fun _ => .true) fun n hi _ => ?_) fun a => ?_
  · obtain ⟨hpeers, hnonces, hnow⟩ := hf n.relay
    obtain ⟨hinv, hguar⟩ := hi.aside hpeers hnonces hnow t
    exact ⟨hinv, hguar, trivial⟩
  · cases a with
    | ok => exact .pure fun _ _ _ => trivial
    | error => exact .throw fun _ _ _ => trivial

/-- **The turn a verified message authorizes.** -/
theorem underKey_ensures {write : Relay → Bool × PeerTable} {done : Relay → α × Relay}
    (hkind : m.envelope.kind ≠ .heartbeatAck) (haddr : Addressed H.config m)
    (hfresh : (checkedAt - m.envelope.ts).natAbs ≤ maxSkewMs)
    (hwrite : ∀ s peers, write s = (true, peers) → Authorized m s.peers peers)
    (hdone : ∀ s, ∃ cosmetics, (done s).2 = { s with cosmetics := cosmetics }) :
    (authority H).Ensures t (turn (underKey H.config m checkedAt (authorized m write done)))
      (fun n => m ∈ n.signed) (fun _ _ => True) fun _ _ => True := by
  refine .bind (Q := fun _ _ => True) (.act (fun _ => .true) fun n hi hm => ?_) fun a => ?_
  · unfold underKey
    cases hauth : authorized m write done n.relay with
    | mk result s =>
      cases result with
      | error =>
        obtain ⟨windows, -, rfl⟩ := authorized_error hauth
        obtain ⟨hinv, hguar⟩ := hi.aside (s := { n.relay with windows := windows }) rfl rfl rfl t
        exact ⟨hinv, hguar, trivial⟩
      | ok =>
        obtain ⟨hseen, windows, nonces, peers, -, hconsume, hlanded, hafter⟩ := authorized_ok hauth
        obtain ⟨cosmetics, hdone'⟩ := hdone { n.relay with
          windows := windows, nonces := nonces, peers := peers }
        have hs : s = { n.relay with
            windows := windows, nonces := nonces, peers := peers, cosmetics := cosmetics } := by
          rw [← hdone', ← hafter]
        subst hs
        have hmoved := hwrite _ _ hlanded
        have hspent : ∀ x ∈ m :: n.effects, x.envelope.kind ≠ .heartbeatAck → Spent { n.relay with
            windows := windows, nonces := nonces, peers := peers, cosmetics := cosmetics } x := by
          intro x hx hxkind
          rcases mem_cons.mp hx with rfl | hold
          · exact spent_consumed hconsume
          · exact (hi.spent x hold hxkind).consume hconsume
        have honce : (n.lingered || decide ((maxSkewMs : Int) < n.relay.now - checkedAt)) = false →
            n.lingered = false ∧ m ∉ n.effects := by
          intro hl
          rw [Bool.or_eq_false_iff, decide_eq_false_iff_not] at hl
          exact ⟨hl.1, hi.unspent hseen hfresh hl.2 hkind⟩
        obtain ⟨hinv, hcaused⟩ := hi.message _ _ hmoved hm haddr hspent
          (fun hack => absurd hack hkind) honce
        refine ⟨hinv, ⟨hcaused, Nat.le_refl _, fun _ _ => rfl, fun x hx => ?_⟩, trivial⟩
        rcases mem_cons.mp hx with rfl | hold
        · exact .inr fun k hk => absurd hk.1 hkind
        · exact .inl hold
  · cases a with
    | ok => exact .pure fun _ _ _ => trivial
    | error => exact .throw fun _ _ _ => trivial

end

/-! ## §7. The routes -/

section

variable {t : Nat}

theorem propose_ensures (r : Propose) (rand : String) :
    (authority H).Ensures t (propose H.config r rand) (fun _ => True) (fun _ _ => True)
      fun _ _ => True := by
  unfold propose
  split
  · exact .throw fun _ _ _ => trivial
  refine (ask_ensures (.outbound r.endpointUrl) Stable.true).bind fun open_ => ?_
  split
  · refine (look_ensures Stable.true).bind fun a => ?_
    refine .mono (L := fun _ => True) ?_ fun _ _ _ => trivial
    refine (ask_ensures .sign Stable.true).bind fun signed => ?_
    split
    · exact onRelay_aside fun s => ⟨rfl, rfl, rfl⟩
    · exact .throw fun _ _ _ => trivial
  · exact .throw fun _ _ _ => trivial

theorem confirm_ensures (r : Confirm) :
    (authority H).Ensures t (confirm H.config r) (fun _ => True) (fun _ _ => True)
      fun _ _ => True := by
  unfold confirm
  split
  · exact .throw fun _ _ _ => trivial
  refine (received_ensures r.message).bind fun m => ?_
  refine (look_ensures (signed_stable m)).bind fun a => ?_
  obtain ⟨existing, checkedAt⟩ := a
  refine .of_pure fun hlook => ?_
  obtain ⟨s, hkeyed, hopen, rfl⟩ := hlook
  obtain ⟨hexisting, hkey, hlower, hchecks⟩ := confirmOpen_ok hopen
  refine (verifySignature_ensures (signed_stable m)).bind fun _ => ?_
  refine .of_pure fun hclose => ?_
  have hv := verified_of_checks hchecks hclose
  have hkind : m.envelope.kind = .peerConfirm := hv.kind
  refine underKey_ensures (by rw [hkind]; decide) hv.addressed hv.fresh ?_ fun s => ⟨_, rfl⟩
  intro s' peers hw
  refine confirm_authorized (fun p hp => hkeyed _ p ?_) hkey hv hlower hw
  rw [← hp, hexisting]

theorem heartbeat_ensures (r : Heartbeat) :
    (authority H).Ensures t (heartbeat H.config r) (fun _ => True) (fun _ _ => True)
      fun _ _ => True := by
  refine (received_ensures r.message).bind fun m => ?_
  split
  · exact .throw fun _ _ _ => trivial
  next agentCount _ =>
  refine (look_ensures (signed_stable m)).bind fun a => ?_
  obtain ⟨peer, checkedAt⟩ := a
  refine .of_pure fun hlook => ?_
  obtain ⟨s, hkeyed, hopen, rfl⟩ := hlook
  obtain ⟨hpeer, -, hchecks⟩ := heartbeatOpen_ok hopen
  refine (verifySignature_ensures (signed_stable m)).bind fun _ => ?_
  refine .of_pure fun hclose => ?_
  have hv := verified_of_checks hchecks hclose
  have hkind : m.envelope.kind = .heartbeat := hv.kind
  exact underKey_ensures (by rw [hkind]; decide) hv.addressed hv.fresh
    (fun s' peers hw => heartbeat_authorized (hkeyed _ peer hpeer) hv hw) fun s' => ⟨_, rfl⟩

theorem remove_ensures (wire : Wire) :
    (authority H).Ensures t (remove H.config wire) (fun _ => True) (fun _ _ => True)
      fun _ _ => True := by
  refine (received_ensures wire).bind fun m => ?_
  refine (look_ensures (signed_stable m)).bind fun a => ?_
  obtain ⟨peer, checkedAt⟩ := a
  refine .of_pure fun hlook => ?_
  obtain ⟨s, hkeyed, hopen, rfl⟩ := hlook
  obtain ⟨hpeer, hchecks⟩ := removeOpen_ok hopen
  refine (verifySignature_ensures (signed_stable m)).bind fun _ => ?_
  refine .of_pure fun hclose => ?_
  have hv := verified_of_checks hchecks hclose
  have hkind : m.envelope.kind = .peerRemove := hv.kind
  exact underKey_ensures (by rw [hkind]; decide) hv.addressed hv.fresh
    (fun s' peers hw => remove_authorized (hkeyed _ peer hpeer) hv hw) fun s' => ⟨_, rfl⟩

theorem Inv.consume (hi : Inv H n) {ts : Int} {b : Bool}
    (hc : consumeFederationNonce sender nonce ts n.relay.now n.relay.nonces = (b, nonces)) :
    Inv H { n with relay := { n.relay with nonces := nonces, windows := windows } } ∧
      Guar H t n { n with relay := { n.relay with nonces := nonces, windows := windows } } :=
  ⟨{ hi with spent := fun m hm hkind => (hi.spent m hm hkind).consume hc },
    ⟨fun _ h => h, [], [], rfl, rfl, by simp,
      fun _ r hr hp => ⟨r, hr, RowKept.refl hp⟩⟩, Nat.le_refl _, fun _ _ => rfl, fun _ h => .inl h⟩

theorem work_ensures (r : WorkRequest) :
    (authority H).Ensures t (work H.config r) (fun _ => True) (fun _ _ => True)
      fun _ _ => True := by
  refine (received_ensures r.message).bind fun m => ?_
  refine (look_ensures (signed_stable m)).bind fun a => ?_
  refine .mono (L := fun _ => True) ?_ fun _ _ _ => trivial
  refine (verifySignature_ensures Stable.true).bind fun _ => ?_
  refine .mono (L := fun _ => True) ?_ fun _ _ _ => trivial
  refine .bind (Q := fun _ _ => True) (.act (fun _ => .true) fun n hi _ => ?_) fun a => ?_
  · obtain ⟨b, nonces, windows, -, hconsume, hafter⟩ := workClose_snd m n.relay
    have hstep : Inv H { n with relay := { n.relay with nonces := nonces, windows := windows } } ∧
        Guar H t n { n with relay := { n.relay with nonces := nonces, windows := windows } } :=
      hi.consume hconsume
    unfold onRelay
    dsimp only
    rw [hafter]
    exact ⟨hstep.1, hstep.2, trivial⟩
  · cases a with
    | ok => exact .pure fun _ _ _ => trivial
    | error => exact .throw fun _ _ _ => trivial

end

end Motebit.Peers
