/-
  Motebit.Peers.Peering — THE PEERING PROTOCOL over every run.

  Main results: `peer_row_authority`, `replay_after_pause`, `peers_within_cap`.
-/

import Motebit.Peers.Alone
import Motebit.Peers.Loop

namespace Motebit.Peers

open Motebit.Lib List

variable {H : Home} {n n' : Node}

/-! ## §1. Soundness -/

theorem unpeered_inv (h : Unpeered n) : Inv H n := by
  obtain ⟨hsigned, heffects, hobserved, hdrawn⟩ := h.histories
  refine ⟨fun id r hr => (h.rows id r hr).1, fun id r hr hp => ?_, fun _ => ?_, ?_, ?_, ?_⟩
  · rw [(h.rows id r hr).2.1] at hp
    cases hp
  · have hnone : activeCount n.relay.peers = 0 := by
      refine Keyed.countWhere_eq_zero fun id r hr => ?_
      exact decide_eq_false (h.rows id r hr).2.2
    rw [hnone]
    exact Nat.zero_le _
  · rw [heffects]
    simp
  · rw [heffects]
    simp
  · rw [heffects]
    exact fun _ => nodup_nil

theorem restart_inv (hi : Inv H n) (h : (peering H).crash n n') (t : Nat) :
    Inv H n' ∧ Guar H t n n' := by
  obtain ⟨key, rfl⟩ := h
  exact hi.aside (s := { n.relay with windows := fun _ => none, cosmetics := [], handshakeKey := key })
    rfl rfl rfl t

theorem authority_verified (H : Home) : Protocol.Verified (authority H) where
  init n h := ⟨unpeered_inv h, fun _ => trivial⟩
  env n n' hi he := ⟨(elsewhere_inv hi he 0).1, fun _ _ => trivial⟩
  crash n n' hi hc := ⟨(restart_inv hi hc 0).1, fun _ _ => trivial⟩
  fresh _ _ _ _ _ _ _ _ := trivial
  entry t p hp := by
    refine ⟨Protocol.Stable.true, ?_⟩
    cases hp with
    | propose r rand => exact (propose_ensures r rand).detach
    | confirm r => exact (confirm_ensures r).detach
    | heartbeat r => exact (heartbeat_ensures r).detach
    | remove wire => exact (remove_ensures wire).detach
    | work r => exact (work_ensures r).detach
    | loop => exact sendHeartbeats_ensures.detach

/-! ## §2. A relay with room for one peer -/

def keyOfB : String := "bbbbbbbbbbbbbbbbbbbbbbbbbbbbbbbbbbbbbbbbbbbbbbbbbbbbbbbbbbbbbbbb"

def keyOfA : String := "aaaaaaaaaaaaaaaaaaaaaaaaaaaaaaaaaaaaaaaaaaaaaaaaaaaaaaaaaaaaaaaa"

def keyOfD : String := "dddddddddddddddddddddddddddddddddddddddddddddddddddddddddddddddd"

def random : String := "0123456789abcdef0123456789abcdef"

def small : Home where
  config :=
    { self := ⟨"B", keyOfB⟩
      federationEnabled := true
      maxPeers := 1
      blockedPeers := []
      allowedPeers := []
      relaySpecVersion := "motebit/relay-federation@2.0"
      tag := fun key _ _ _ _ _ => key }
  nonceAt k := String.ofList (List.replicate k 'n')
  nonceAt_injective j k h := by
    have hlen := congrArg (fun s : String => s.toList.length) h
    simpa using hlen

def smallRelay (now : Int) : Relay := ⟨now, ∅, [], fun _ => none, [], random⟩

def opened : Node := ⟨smallRelay 600000, [], [], [], 0, fun _ => 0, false, false⟩

/-- A configuration reached, and a program that waits in it. -/
def Stands (n : Node) (parked : Option (Prog Node PeerWait PeerHeard Unit)) : Prop :=
  ∃ c, (peering small).Reachable c ∧ c.store = n ∧
    ∀ p, parked = some p → ∃ t, t < c.next ∧ c.thread t = some p

theorem opened_stands : Stands opened none := by
  refine ⟨_, .init opened ⟨fun id r hr => ?_, ⟨rfl, rfl, rfl, rfl⟩, rfl, rfl⟩, rfl,
    nofun⟩
  cases hr

variable {parked : Option (Prog Node PeerWait PeerHeard Unit)}
  {p q : Prog Node PeerWait PeerHeard Unit}

theorem Stands.begin (h : Stands n parked)
    (hentry : ∀ t, Calls small t p) (hwalk : Walk (peering small) p n q n') :
    Stands n' parked ∧ Stands n' (some q) := by
  obtain ⟨c, hreach, rfl, hparked⟩ := h
  obtain ⟨c', hreach', hstore', hthread', hothers', hnext'⟩ := hwalk.beside hreach (hentry c.next)
  refine ⟨⟨c', hreach', hstore', fun p hp => ?_⟩, ⟨c', hreach', hstore', fun p hp => ?_⟩⟩
  · obtain ⟨t, ht, hthread⟩ := hparked p hp
    exact ⟨t, by omega, (hothers' t (Nat.ne_of_lt ht)).trans hthread⟩
  · cases hp
    exact ⟨c.next, by omega, hthread'⟩

theorem Stands.resume (h : Stands n (some p))
    (hwalk : Walk (peering small) p n q n') : Stands n' none := by
  obtain ⟨c, hreach, rfl, hparked⟩ := h
  obtain ⟨t, -, hthread⟩ := hparked p rfl
  obtain ⟨c', hreach', hstore', -⟩ := hwalk.resume hreach hthread
  exact ⟨c', hreach', hstore', nofun⟩

theorem Stands.env (h : Stands n parked) (henv : Elsewhere small n n') : Stands n' parked := by
  obtain ⟨c, hreach, rfl, hparked⟩ := h
  exact ⟨_, hreach.step (.env c n' henv), rfl, hparked⟩

def inviteOf (id key : String) : Propose := ⟨id, key, "https://" ++ id, none, "nonce", none⟩

def confirmMessage (id key : String) (ts : Int) : SignedFederationMessage :=
  ⟨⟨.peerConfirm, id, "B", keyOfB, ts, "confirm", .confirm (random ++ random) ("https://" ++ id),
    federationMessageSuite⟩, key⟩

def confirmOf (id key : String) (ts : Int) : Confirm :=
  ⟨.message (confirmMessage id key ts), random ++ random, key, "https://" ++ id, none⟩

/-- `id` proposed, and signed its confirm. -/
def invited (id key : String) (n : Node) : Node :=
  { n with
    relay := rememberCosmetics (random ++ random) ⟨none, none⟩ n.relay
    signed := confirmMessage id key n.relay.now :: n.signed }

theorem Stands.invited (h : Stands n parked) (id key : String)
    (hfields : proposeFields small.config (inviteOf id key) = none)
    (hturn : proposeTurn small.config (inviteOf id key) random n.relay = .ok (random ++ random)) :
    Stands (invited id key n) parked :=
  (h.begin (fun _ => .propose (inviteOf id key) random) (propose_walk hfields hturn)).1.env
    (.sign _ (confirmMessage id key n.relay.now))

/-- The confirm of `id` landed. -/
def joined (id key : String) (ts checkedAt : Int) (existing : Option PeerRow) (n : Node) : Node :=
  (underKey small.config (confirmMessage id key ts) checkedAt
    (confirmClose small.config (confirmOf id key ts) (confirmMessage id key ts) existing) n).2

theorem confirm_verifies (id key : String) (ts : Int) (hkey : toLowerCase (toLowerCase key) = key) :
    verifyClose (confirmExpects (confirmOf id key ts) id) (confirmMessage id key ts) = none := by
  have hbody : (confirmExpects (confirmOf id key ts) id).body =
      (confirmMessage id key ts).envelope.body := rfl
  have hsigner : (confirmMessage id key ts).signer =
      toLowerCase (confirmExpects (confirmOf id key ts) id).senderPublicKeyHex := hkey.symm
  unfold verifyClose
  rw [if_neg (not_not.mpr hbody), if_neg (not_not.mpr hsigner)]

/-- What the confirm of `id` has still to do when its signature is awaited. -/
def waiting (id key : String) (ts checkedAt : Int) (existing : Option PeerRow) :
    Prog Node PeerWait PeerHeard Unit :=
  (afterChecks small.config (confirmExpects (confirmOf id key ts) id) (confirmMessage id key ts)
    checkedAt (confirmClose small.config (confirmOf id key ts) (confirmMessage id key ts)
      existing)).detach

variable {existing : Option PeerRow}

theorem waiting_walk (id key : String) (ts : Int) (hm : confirmMessage id key ts ∈ n.signed)
    (hopen : confirmOpen small.config (confirmOf id key ts) (confirmMessage id key ts) n.relay =
      .ok existing) : Walk (peering small) (confirm small.config (confirmOf id key ts)).detach n
      (waiting id key ts n.relay.now existing) n :=
  confirm_waits rfl rfl hm hopen

theorem joined_walk (id key : String) (ts checkedAt : Int) (existing : Option PeerRow)
    (hkey : toLowerCase (toLowerCase key) = key) :
    ∃ q, Walk (peering small) (waiting id key ts checkedAt existing) n q
      (joined id key ts checkedAt existing n) :=
  afterChecks_walk (H := small) (confirm_verifies id key ts hkey) checkedAt _ n

theorem Stands.joined (h : Stands n parked) (id key : String) (ts : Int)
    (hm : confirmMessage id key ts ∈ n.signed)
    (hopen : confirmOpen small.config (confirmOf id key ts) (confirmMessage id key ts) n.relay =
      .ok existing) (hkey : toLowerCase (toLowerCase key) = key) :
    Stands (joined id key ts n.relay.now existing n) parked := by
  obtain ⟨q, hwalk⟩ := joined_walk (n := n) id key ts n.relay.now existing hkey
  exact (h.begin (fun _ => .confirm (confirmOf id key ts))
    ((waiting_walk id key ts hm hopen).trans hwalk)).1

/-! ## §3. Authority -/

/-- **Who may move a peer's row**, between any configuration reached and any later one. -/
theorem peer_row_authority {c c' : Config Node PeerWait PeerHeard} (hreach : (peering H).Reachable c)
    (hlater : Relation.ReflTransGen (peering H).Step c c') :
    Born H.config c'.store ∧ Caused H.config c.store c'.store ∧
      (c'.store.lingered = false → c'.store.effects.Nodup) := by
  have hinv := Protocol.sound (authority_verified H) (Protocol.reachable_later hreach hlater)
  have hcaused : Caused H.config c.store c'.store :=
    Protocol.sound_later (authority_verified H) (R := Caused H.config) (Caused.refl _)
      (fun _ _ _ => Caused.trans) (fun _ _ _ _ hg => hg.caused)
      (fun _ _ hi he => (elsewhere_inv hi he 0).2.caused)
      (fun _ _ hi hc => (restart_inv hi hc 0).2.caused) hreach hlater
  exact ⟨hinv.born, hcaused, hinv.once⟩

def joinedA : Node := joined "A" keyOfA 600000 600000 none (invited "A" keyOfA opened)

theorem joinedA_stands : Stands joinedA none := by
  have hinvited : Stands (invited "A" keyOfA opened) none :=
    opened_stands.invited "A" keyOfA (by decide +kernel) (by decide +kernel)
  have hopen : confirmOpen small.config (confirmOf "A" keyOfA 600000)
      (confirmMessage "A" keyOfA 600000) (invited "A" keyOfA opened).relay = .ok none := by
    decide +kernel
  exact hinvited.joined "A" keyOfA 600000 mem_cons_self hopen (by decide +kernel)

/-- A run in which `A` joins. -/
theorem peer_row_authority_joined : ∃ c, (peering small).Reachable c ∧ c.store.lingered = false ∧
    (c.store.relay.peers.lookup "A").any (fun r => r.state = .active) = true ∧
    Born small.config c.store ∧ Caused small.config c.store c.store ∧ c.store.effects.Nodup := by
  obtain ⟨c, hreach, hstore, -⟩ := joinedA_stands
  obtain ⟨hborn, hcaused, honce⟩ := peer_row_authority hreach .refl
  have hsoon : c.store.lingered = false := by
    rw [hstore]
    decide +kernel
  refine ⟨c, hreach, hsoon, ?_, hborn, hcaused, honce hsoon⟩
  rw [hstore]
  decide +kernel

/-- The clock moved on. -/
def atTime (now : Int) (n : Node) : Node := { n with relay := { n.relay with now := now } }

def removeMessageA : SignedFederationMessage :=
  ⟨⟨.peerRemove, "A", "B", keyOfB, 600000, "remove", .remove, federationMessageSuite⟩, keyOfA⟩

def rowA : PeerRow :=
  confirmedRow small.config (confirmOf "A" keyOfA 600000) (some ⟨none, none⟩) 600000
    (bornRow (confirmOf "A" keyOfA 600000) "A" 600000) none

/-- `A` left again. -/
def removedA : Node :=
  (underKey small.config removeMessageA 600000 (removeClose removeMessageA rowA)
    { joinedA with signed := removeMessageA :: joinedA.signed }).2

theorem removedA_stands : Stands removedA none := by
  have hsigned := joinedA_stands.env (.sign _ removeMessageA)
  have hopen : removeOpen small.config removeMessageA joinedA.relay = .ok rowA := by
    decide +kernel
  obtain ⟨q, hwalk⟩ := afterChecks_walk (H := small) (m := removeMessageA)
    (show verifyClose (removeExpects rowA) removeMessageA = none by decide +kernel) 600000
    (removeClose removeMessageA rowA) { joinedA with signed := removeMessageA :: joinedA.signed }
  exact (hsigned.begin (fun _ => .remove (.message removeMessageA))
    ((remove_waits (n := { joinedA with signed := removeMessageA :: joinedA.signed })
      mem_cons_self hopen).trans hwalk)).1

/-- The row as the second delivery of `A`'s confirm reads it. -/
def leftRow : PeerRow := { rowA with state := .removed }

def joinedD : Node :=
  joined "D" keyOfD 1200001 1200001 none
    (invited "D" keyOfD (atTime 1200001 (atTime 900000 removedA)))

def rejoinedA : Node := joined "A" keyOfA 600000 900000 (some leftRow) joinedD

/-- **A consumed confirm is taken again**: `A` joined and left.  Its confirm comes a second time
    at the last moment it is fresh; while its signature is verified more than five minutes pass,
    and another peer's message purges the nonce.  `A` is active again, by one message twice. -/
theorem replay_after_pause : ∃ c, (peering small).Reachable c ∧ ¬c.store.effects.Nodup ∧
    (c.store.relay.peers.lookup "A").any (fun r => r.state = .active) = true ∧
    ¬∀ c' c'', (peering small).Reachable c' →
      Relation.ReflTransGen (peering small).Step c' c'' → c''.store.effects.Nodup := by
  have hlate : Stands (atTime 900000 removedA) none :=
    removedA_stands.env (.tick _ 900000 (by decide +kernel))
  -- the second delivery waits for its signature
  have hwaits : Stands (atTime 900000 removedA) (some (waiting "A" keyOfA 600000 900000 (some leftRow))) :=
    (hlate.begin (fun _ => .confirm (confirmOf "A" keyOfA 600000))
      (waiting_walk "A" keyOfA 600000 (by decide +kernel) (by decide +kernel))).2
  -- meanwhile another relay joins, and its message purges the expired nonces
  have hinvited := (hwaits.env (.tick _ 1200001 (by decide +kernel))).invited "D" keyOfD
    (by decide +kernel) (by decide +kernel)
  have hjoined : Stands joinedD (some (waiting "A" keyOfA 600000 900000 (some leftRow))) :=
    hinvited.joined "D" keyOfD 1200001 mem_cons_self (by decide +kernel) (by decide +kernel)
  obtain ⟨q, hwalk⟩ := joined_walk (n := joinedD) "A" keyOfA 600000 900000 (some leftRow)
    (by decide +kernel)
  obtain ⟨c, hreach, hstore, -⟩ := hjoined.resume hwalk
  have htwice : ¬c.store.effects.Nodup := by
    rw [hstore]
    decide +kernel
  refine ⟨c, hreach, htwice, ?_, fun hall => htwice (hall c c hreach .refl)⟩
  rw [hstore]
  decide +kernel

/-! ## §4. The cap -/

/-- **Active peers stay within the cap** as long as no write turns a row active at it. -/
theorem peers_within_cap {c : Config Node PeerWait PeerHeard} (hreach : (peering H).Reachable c)
    (hroom : c.store.crowded = false) : activeCount c.store.relay.peers ≤ H.config.maxPeers :=
  (Protocol.sound (authority_verified H) hreach).cap hroom

/-- The run in which `A` joins fills the relay, and not beyond. -/
theorem peers_within_cap_joined : ∃ c, (peering small).Reachable c ∧ c.store.crowded = false ∧
    activeCount c.store.relay.peers = 1 ∧ activeCount c.store.relay.peers ≤ small.config.maxPeers := by
  obtain ⟨c, hreach, hstore, -⟩ := joinedA_stands
  have hroom : c.store.crowded = false := by
    rw [hstore]
    decide +kernel
  refine ⟨c, hreach, hroom, ?_, peers_within_cap hreach hroom⟩
  rw [hstore]
  decide +kernel

/-- `A` and `D` joined, each invited while the relay had no peer. -/
def joinedBoth : Node :=
  joined "D" keyOfD 600000 600000 none
    (joined "A" keyOfA 600000 600000 none (invited "D" keyOfD (invited "A" keyOfA opened)))

/-- **Two handshakes in flight pass the cap.** -/
theorem cap_overrun : ∃ c, (peering small).Reachable c ∧ small.config.maxPeers = 1 ∧
    activeCount c.store.relay.peers = 2 ∧
    ¬∀ c', (peering small).Reachable c' → activeCount c'.store.relay.peers ≤ small.config.maxPeers := by
  have hinvited : Stands (invited "D" keyOfD (invited "A" keyOfA opened)) none :=
    (opened_stands.invited "A" keyOfA (by decide +kernel) (by decide +kernel)).invited "D" keyOfD
      (by decide +kernel) (by decide +kernel)
  have hopenA : confirmOpen small.config (confirmOf "A" keyOfA 600000)
      (confirmMessage "A" keyOfA 600000) (invited "D" keyOfD (invited "A" keyOfA opened)).relay =
        .ok none := by
    decide +kernel
  have hjoinedA := hinvited.joined "A" keyOfA 600000 (by decide +kernel) hopenA (by decide +kernel)
  have hopenD : confirmOpen small.config (confirmOf "D" keyOfD 600000)
      (confirmMessage "D" keyOfD 600000) (joined "A" keyOfA 600000 600000 none
        (invited "D" keyOfD (invited "A" keyOfA opened))).relay = .ok none := by
    decide +kernel
  obtain ⟨c, hreach, hstore, -⟩ : Stands joinedBoth none :=
    hjoinedA.joined "D" keyOfD 600000 (by decide +kernel) hopenD (by decide +kernel)
  have htwo : activeCount c.store.relay.peers = 2 := by
    rw [hstore]
    decide +kernel
  refine ⟨c, hreach, rfl, htwo, fun hall => ?_⟩
  have hcap := hall c hreach
  rw [htwo] at hcap
  exact absurd hcap (by decide)

end Motebit.Peers
