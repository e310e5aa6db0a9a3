/-
  Motebit.Peers.TwoRuns — ONE PEER'S MESSAGES IN TWO RUNS of a relay, one with all requests and one
  with those signed by peer `A`'s key alone.

  Main results: `Alike`, `Alike.other`, `Alike.own`.
-/

import Motebit.Peers.Alone
import Motebit.Peers.Authority

namespace Motebit.Peers

open Motebit.Lib List Function

/-! ## §1. Whose requests -/

def Wire.carried : Wire → Option SignedFederationMessage
  | .message m => some m
  | _ => none

def Request.carried : Request → Option SignedFederationMessage
  | .confirm r => r.message.carried
  | .heartbeat r => r.message.carried
  | .remove wire => wire.carried
  | .work r => r.message.carried
  | _ => none

def Request.signer : Request → Option String
  | .witness r => some r.signer
  | .vote r => some r.signer
  | r => r.carried.map (·.signer)

def Request.names : Request → Option String
  | .propose r _ _ _ => some r.relayId
  | .witness r => some r.issuerId
  | .vote r => some r.requesterId
  | .discover r => some r.originRelay
  | r => r.carried.map (·.envelope.sender)

def signedBy (K : String) (i : Int × Request) : Bool := i.2.signer = some K

/-- A request that is counted before anything is verified. -/
def Request.countedUnverified : Request → Bool
  | .witness _ | .vote _ | .discover _ => true
  | _ => false

/-- What the holder of `K` does as relay `A`: it signs only as `A`, uses no nonce for two
    messages, and sends at most as much as the limit in any window.  The clock does not go back. -/
structure Honest (A K : String) (is : List (Int × Request)) : Prop where
  sorted : is.Pairwise fun i j => i.1 ≤ j.1
  own : ∀ i ∈ is, signedBy K i = true → i.2.names = some A
  nonces : ∀ i ∈ is, ∀ j ∈ is, ∀ m m', i.2.carried = some m → j.2.carried = some m' →
    m.signer = K → m'.signer = K → m.envelope.nonce = m'.envelope.nonce →
      m.envelope.ts = m'.envelope.ts
  modest : ∀ t : Int, (is.filter fun i => signedBy K i && (t ≤ i.1 && i.1 < t + windowMs)).length ≤
    maxRequests

theorem Honest.tail {A K : String} {i : Int × Request} {is : List (Int × Request)}
    (h : Honest A K (i :: is)) : Honest A K is where
  sorted := (pairwise_cons.mp h.sorted).2
  own j hj := h.own j (mem_cons_of_mem _ hj)
  nonces j hj k hk := h.nonces j (mem_cons_of_mem _ hj) k (mem_cons_of_mem _ hk)
  modest t := by
    refine Nat.le_trans ?_ (h.modest t)
    exact ((sublist_cons_self i is).filter _).length_le

variable {A K : String} {i : Int × Request} {is : List (Int × Request)}

/-! ## §2. Nonces of the two runs -/

/-- The full run's records of `A`'s nonces, and the other's: they differ in expired ones only. -/
structure NoncesAlike (A K : String) (is : List (Int × Request)) (n n' : List NonceRow) : Prop where
  kept : ∀ ρ ∈ n, ρ.sender = A → ρ ∈ n'
  live : ∀ ρ ∈ n', ρ.sender = A → (∃ i ∈ is, i.1 ≤ ρ.expiresAt) → ρ ∈ n
  recorded : ∀ ρ ∈ n', ρ.sender = A → ∀ i ∈ is, ∀ m, i.2.carried = some m → m.signer = K →
    m.envelope.nonce = ρ.nonce → m.envelope.ts + federationNonceRetentionMs ≤ ρ.expiresAt

variable {n n' : List NonceRow}

theorem NoncesAlike.tail (h : NoncesAlike A K (i :: is) n n') : NoncesAlike A K is n n' where
  kept := h.kept
  live ρ hρ hA hlater := by
    obtain ⟨j, hj, hle⟩ := hlater
    exact h.live ρ hρ hA ⟨j, mem_cons_of_mem _ hj, hle⟩
  recorded ρ hρ hA j hj := h.recorded ρ hρ hA j (mem_cons_of_mem _ hj)

def unexpired (now : Int) (n : List NonceRow) : List NonceRow :=
  n.filter fun ρ => !(ρ.expiresAt < now)

variable {now : Int} {m : SignedFederationMessage} {nonces : List NonceRow} {α : Type} {r : Confirm}
  {t : PeerTable}

theorem mem_unexpired {ρ : NonceRow} : ρ ∈ unexpired now n ↔ ρ ∈ n ∧ now ≤ ρ.expiresAt := by
  unfold unexpired
  rw [mem_filter, Bool.not_eq_true', decide_eq_false_iff_not, Int.not_lt]

theorem NoncesAlike.purge_full (h : NoncesAlike A K (i :: is) n n')
    (hsorted : (i :: is).Pairwise fun i j => i.1 ≤ j.1) :
    NoncesAlike A K is (unexpired i.1 n) n' where
  kept ρ hρ hA := h.kept ρ (mem_unexpired.mp hρ).1 hA
  live ρ hρ hA hlater := by
    obtain ⟨j, hj, hle⟩ := hlater
    refine mem_unexpired.mpr ⟨h.live ρ hρ hA ⟨j, mem_cons_of_mem _ hj, hle⟩, ?_⟩
    exact Int.le_trans ((pairwise_cons.mp hsorted).1 j hj) hle
  recorded := h.tail.recorded

theorem NoncesAlike.purge (h : NoncesAlike A K (i :: is) n n')
    (hsorted : (i :: is).Pairwise fun i j => i.1 ≤ j.1) :
    NoncesAlike A K is (unexpired i.1 n) (unexpired i.1 n') where
  kept ρ hρ hA := by
    obtain ⟨hmem, hle⟩ := mem_unexpired.mp hρ
    exact mem_unexpired.mpr ⟨h.kept ρ hmem hA, hle⟩
  live ρ hρ hA hlater := (h.purge_full hsorted).live ρ (mem_unexpired.mp hρ).1 hA hlater
  recorded ρ hρ := h.tail.recorded ρ (mem_unexpired.mp hρ).1

theorem NoncesAlike.cons_full (h : NoncesAlike A K is n n') {ρ : NonceRow} (hρ : ρ.sender ≠ A) :
    NoncesAlike A K is (ρ :: n) n' where
  kept r hr hA := by
    rcases mem_cons.mp hr with rfl | hold
    · exact absurd hA hρ
    · exact h.kept r hold hA
  live r hr hA hlater := mem_cons_of_mem _ (h.live r hr hA hlater)
  recorded := h.recorded

theorem NoncesAlike.cons (h : NoncesAlike A K is n n') {ρ : NonceRow}
    (hrecorded : ∀ i ∈ is, ∀ m, i.2.carried = some m → m.signer = K →
      m.envelope.nonce = ρ.nonce → m.envelope.ts + federationNonceRetentionMs ≤ ρ.expiresAt) :
    NoncesAlike A K is (ρ :: n) (ρ :: n') where
  kept r hr hA := by
    rcases mem_cons.mp hr with rfl | hold
    · exact mem_cons_self
    · exact mem_cons_of_mem _ (h.kept r hold hA)
  live r hr hA hlater := by
    rcases mem_cons.mp hr with rfl | hold
    · exact mem_cons_self
    · exact mem_cons_of_mem _ (h.live r hold hA hlater)
  recorded r hr hA := by
    rcases mem_cons.mp hr with rfl | hold
    · exact hrecorded
    · exact h.recorded r hold hA

theorem seen_iff {sender nonce : String} :
    federationNonceSeen n sender nonce = true ↔ ∃ ρ ∈ n, ρ.sender = sender ∧ ρ.nonce = nonce := by
  unfold federationNonceSeen
  rw [any_eq_true]
  constructor
  · rintro ⟨ρ, hρ, hboth⟩
    exact ⟨ρ, hρ, of_decide_eq_true hboth⟩
  · rintro ⟨ρ, hρ, hboth⟩
    exact ⟨ρ, hρ, decide_eq_true hboth⟩

theorem NoncesAlike.unexpired_seen (h : NoncesAlike A K (i :: is) n n') (nonce : String) :
    federationNonceSeen (unexpired i.1 n) A nonce = federationNonceSeen (unexpired i.1 n') A nonce := by
  refine Bool.eq_iff_iff.mpr ?_
  rw [seen_iff, seen_iff]
  constructor
  · rintro ⟨ρ, hρ, hA, hnonce⟩
    obtain ⟨hmem, hle⟩ := mem_unexpired.mp hρ
    exact ⟨ρ, mem_unexpired.mpr ⟨h.kept ρ hmem hA, hle⟩, hA, hnonce⟩
  · rintro ⟨ρ, hρ, hA, hnonce⟩
    obtain ⟨hmem, hle⟩ := mem_unexpired.mp hρ
    exact ⟨ρ, mem_unexpired.mpr ⟨h.live ρ hmem hA ⟨i, mem_cons_self, hle⟩, hle⟩, hA, hnonce⟩

/-- A fresh message of `A` is on record in both runs or in neither, and a record is not expired. -/
theorem NoncesAlike.fresh_seen (h : NoncesAlike A K (i :: is) n n') (hm : i.2.carried = some m)
    (hsigner : m.signer = K) (hfresh : (i.1 - m.envelope.ts).natAbs ≤ maxSkewMs) :
    federationNonceSeen n A m.envelope.nonce = federationNonceSeen (unexpired i.1 n) A m.envelope.nonce ∧
      federationNonceSeen n' A m.envelope.nonce =
        federationNonceSeen (unexpired i.1 n') A m.envelope.nonce := by
  have hlive : ∀ ρ ∈ n', ρ.sender = A → ρ.nonce = m.envelope.nonce → i.1 ≤ ρ.expiresAt := by
    intro ρ hρ hA hnonce
    have hrec := h.recorded ρ hρ hA i mem_cons_self m hm hsigner hnonce.symm
    unfold federationNonceRetentionMs at hrec
    unfold maxSkewMs at hfresh
    omega
  have hkept := fun ρ hρ hA => hlive ρ (h.kept ρ hρ hA) hA
  constructor <;> (rw [Bool.eq_iff_iff, seen_iff, seen_iff]; constructor)
  · rintro ⟨ρ, hρ, hA, hnonce⟩
    exact ⟨ρ, mem_unexpired.mpr ⟨hρ, hkept ρ hρ hA hnonce⟩, hA, hnonce⟩
  · rintro ⟨ρ, hρ, hA, hnonce⟩
    exact ⟨ρ, (mem_unexpired.mp hρ).1, hA, hnonce⟩
  · rintro ⟨ρ, hρ, hA, hnonce⟩
    exact ⟨ρ, mem_unexpired.mpr ⟨hρ, hlive ρ hρ hA hnonce⟩, hA, hnonce⟩
  · rintro ⟨ρ, hρ, hA, hnonce⟩
    exact ⟨ρ, (mem_unexpired.mp hρ).1, hA, hnonce⟩

/-! ## §3. Room in the run of `A` alone -/

/-- `A`'s window has room for all that it still sends while it lasts. -/
def Roomy (A K : String) (is : List (Int × Request)) (windows : String → Option Window) : Prop :=
  ∀ w, windows A = some w →
    w.count + (is.filter fun i => signedBy K i && i.1 < w.resetAt).length ≤ maxRequests

variable {windows : String → Option Window}

theorem Roomy.tail (h : Roomy A K (i :: is) windows) : Roomy A K is windows := by
  intro w hw
  refine Nat.le_trans (Nat.add_le_add_left ?_ _) (h w hw)
  exact ((sublist_cons_self i is).filter _).length_le

theorem roomy_begun (h : Honest A K (i :: is)) (hi : signedBy K i = true)
    (hw : windows A = some ⟨1, i.1 + windowMs⟩) : Roomy A K is windows := by
  intro w hw'
  rw [hw] at hw'
  cases hw'
  have hmodest := h.modest i.1
  have hpos : i.1 < i.1 + windowMs := by
    unfold windowMs
    omega
  rw [filter_cons_of_pos (by simp [hi, hpos])] at hmodest
  have hsame : (is.filter fun j => signedBy K j && j.1 < i.1 + windowMs) =
      is.filter fun j => signedBy K j && (i.1 ≤ j.1 && j.1 < i.1 + windowMs) := by
    refine filter_congr fun j hj => ?_
    have hle := (pairwise_cons.mp h.sorted).1 j hj
    simp [hle]
  rw [length_cons] at hmodest
  show 1 + _ ≤ _
  rw [hsame]
  omega

/-- **Alone, `A` always finds room.** -/
theorem Roomy.counts (h : Roomy A K (i :: is) windows) (hhonest : Honest A K (i :: is))
    (hi : signedBy K i = true) :
    (checkLimit A i.1 windows).1 = true ∧ Roomy A K is (checkLimit A i.1 windows).2 := by
  unfold checkLimit
  cases hw : windows A with
  | none => exact ⟨rfl, roomy_begun hhonest hi (update_self ..)⟩
  | some w =>
    dsimp only
    split
    · exact ⟨rfl, roomy_begun hhonest hi (update_self ..)⟩
    · next hover =>
        have hroom := h w hw
        rw [filter_cons_of_pos (by simp [hi, Int.not_le.mp hover]), length_cons] at hroom
        refine ⟨decide_eq_true (by omega), fun w' hw' => ?_⟩
        dsimp only at hw'
        rw [update_self] at hw'
        cases hw'
        dsimp only
        omega

/-! ## §4. The two runs -/

/-- What the full run and the run of `A` alone have in common. -/
structure Alike (A K : String) (is : List (Int × Request)) (s s' : Relay) : Prop where
  honest : Honest A K is
  keyed : RowsKeyed s.peers ∧ RowsKeyed s'.peers
  row : s.peers.lookup A = s'.peers.lookup A
  /-- `A`'s row is a confirmed one under its key, -/
  held : ∀ r, s.peers.lookup A = some r → r.peeredAt.isSome ∧ toLowerCase r.publicKey = K
  /-- or there is none, and no other key's holder confirms its id. -/
  claim : s.peers.lookup A = none → ∀ i ∈ is, ∀ r m, i.2 = .confirm r → r.message = .message m →
    m.envelope.sender = A → m.signer = K
  key : s.handshakeKey = s'.handshakeKey
  nonces : NoncesAlike A K is s.nonces s'.nonces
  room : Roomy A K is s'.windows

variable {C : FederationConfig} {P : QueryPolicy} {s s' : Relay}

theorem Alike.tail (h : Alike A K (i :: is) s s') : Alike A K is s s' where
  __ := h
  honest := h.honest.tail
  claim hnone j hj := h.claim hnone j (mem_cons_of_mem _ hj)
  nonces := h.nonces.tail
  room := h.room.tail

theorem Alike.aside (h : Alike A K is s s') (now now' : Int) (windows : String → Option Window)
    (cosmetics cosmetics' : List (String × Cosmetic)) :
    Alike A K is { s with now := now, windows := windows, cosmetics := cosmetics }
      { s' with now := now', cosmetics := cosmetics' } :=
  { h with }

theorem Alike.signer (h : Alike A K (i :: is) s s') {peer : PeerRow} {expect : Expectation}
    (hpeer : s.peers.lookup A = some peer) (hkey : expect.senderPublicKeyHex = peer.publicKey)
    (hclose : verifyClose expect m = none) : m.signer = K := by
  unfold verifyClose at hclose
  split at hclose
  · cases hclose
  split at hclose
  · cases hclose
  next hsigner =>
  rw [not_not.mp hsigner, hkey]
  exact (h.held peer hpeer).2

/-! ## §5. Another's request -/

theorem consume_cases {sender nonce : String} {ts : Int} {rows : List NonceRow} {b : Bool}
    (h : consumeFederationNonce sender nonce ts now rows = (b, nonces)) :
    (b = false ∧ federationNonceSeen (unexpired now rows) sender nonce = true ∧
      nonces = unexpired now rows) ∨
    (b = true ∧ federationNonceSeen (unexpired now rows) sender nonce = false ∧
      nonces = ⟨sender, nonce, max ts now + federationNonceRetentionMs⟩ :: unexpired now rows) := by
  unfold consumeFederationNonce at h
  dsimp only at h
  split at h
  · next hseen =>
    cases h
    exact .inl ⟨rfl, hseen, rfl⟩
  · next hseen =>
    cases h
    exact .inr ⟨rfl, Bool.eq_false_iff.mpr hseen, rfl⟩

theorem answerOf_snd (reply : α → Reply) (x : Except PeerFault α × Relay) :
    (answerOf reply x).2 = x.2 := by
  obtain ⟨result, s⟩ := x
  cases result <;> rfl

theorem Alike.consumed (h : Alike A K (i :: is) s s') {sender nonce : String} {ts : Int} {b : Bool}
    {windows : String → Option Window} (hsender : sender ≠ A)
    (hc : consumeFederationNonce sender nonce ts i.1 s.nonces = (b, nonces)) :
    Alike A K is { s with nonces := nonces, windows := windows } s' := by
  have hn : NoncesAlike A K is nonces s'.nonces := by
    have hpurged := h.nonces.purge_full h.honest.sorted
    rcases consume_cases hc with ⟨-, -, rfl⟩ | ⟨-, -, rfl⟩
    · exact hpurged
    · exact hpurged.cons_full hsender
  exact ⟨h.honest.tail, h.keyed, h.row, h.held, h.tail.claim, h.key, hn, h.room.tail⟩

theorem Alike.other_authorized (h : Alike A K (i :: is) s s') {write : Relay → Bool × PeerTable}
    {done : Relay → α × Relay} {reply : α → Reply} (hnow : s.now = i.1) (hsender : m.envelope.sender ≠ A)
    (hwrite : ∀ windows peers, write { s with windows := windows } = (true, peers) →
      Authorized m s.peers peers)
    (hdone : ∀ σ, ∃ cosmetics, (done σ).2 = { σ with cosmetics := cosmetics }) :
    Alike A K is (answerOf reply (authorized m write done s)).2 s' ∧
      (answerOf reply (authorized m write done s)).2.windows A = s.windows A := by
  cases hauth : authorized m write done s with
  | mk result t =>
    cases result with
    | error =>
      obtain ⟨windows, hcounts, rfl⟩ := authorized_error hauth
      exact ⟨h.tail.aside s.now s'.now windows s.cosmetics s'.cosmetics, hcounts A (Ne.symm hsender)⟩
    | ok =>
      obtain ⟨-, windows, nonces, peers, hcounts, hconsume, hlanded, hafter⟩ := authorized_ok hauth
      obtain ⟨cosmetics, hdone'⟩ := hdone { s with windows := windows, nonces := nonces, peers := peers }
      have ht : t = { s with
          windows := windows, nonces := nonces, peers := peers, cosmetics := cosmetics } := by
        rw [← hdone', ← hafter]
      subst ht
      rw [hnow] at hconsume
      have hcons : Alike A K is { s with nonces := nonces, windows := windows } s' :=
        h.consumed hsender hconsume
      have hmoved := hwrite windows peers hlanded
      obtain ⟨row, hset⟩ := hmoved.sets
      have hsame : peers.lookup A = s.peers.lookup A := hset.others A (Ne.symm hsender)
      refine ⟨⟨hcons.honest, ⟨hmoved.keyed h.keyed.1, h.keyed.2⟩, hsame.trans h.row, fun r hr => ?_,
        fun hnone => ?_, h.key, hcons.nonces, h.room.tail⟩, hcounts A (Ne.symm hsender)⟩
      · exact h.held r (hsame ▸ hr)
      · exact h.tail.claim (hsame ▸ hnone)

theorem Alike.other_counted (h : Alike A K (i :: is) s s') (relayId : String) (answer : Relay → Answer) :
    Alike A K is (countedFirst relayId answer s).2 s' ∧
      (relayId ≠ A → (countedFirst relayId answer s).2.windows A = s.windows A) := by
  obtain ⟨windows, hcounts, hlimit⟩ := checkPeerLimit_snd relayId s
  have hsnd : (countedFirst relayId answer s).2 = { s with windows := windows } := by
    rw [← hlimit]
    unfold countedFirst
    split
    · next fault s₁ heq => rw [heq]
    · next s₁ heq => rw [heq]
  rw [hsnd]
  exact ⟨h.tail.aside s.now s'.now windows s.cosmetics s'.cosmetics, fun hne => hcounts A (Ne.symm hne)⟩

/-- A signed route is felt through its close alone: a request that it refuses leaves the relay as it is. -/
theorem Alike.other_route {x : SignedRoute β} {counted : Prop} (h : Alike A K (i :: is) s s')
    (hclose : ∀ m b, x.Passes m b s →
      Alike A K is (x.close m b s).2 s' ∧ (x.close m b s).2.windows A = s.windows A) :
    Alike A K is (x.handle s).2 s' ∧ (counted → (x.handle s).2.windows A = s.windows A) := by
  rcases x.handle_cases s with ⟨m, b, hp, hclosed⟩ | ⟨hsame, -⟩
  · rw [hclosed]
    exact (hclose m b hp).imp_right fun hwindow _ => hwindow
  · rw [hsame]
    exact ⟨h.tail, fun _ => rfl⟩

theorem heartbeat_passes {r : Heartbeat} {b : Nat × PeerRow} (h : (heartbeatRoute C r).Passes m b s) :
    heartbeatOpen C b.1 r.revocations m s = .ok b.2 ∧
      verifyClose (heartbeatExpects b.1 r.revocations b.2) m = none := by
  obtain ⟨-, hopen, hclose⟩ := h
  refine ⟨?_, hclose⟩
  unfold heartbeatRoute at hopen
  split at hopen
  · cases hopen
  next agentCount _ =>
  obtain ⟨peer, hp, hopen⟩ := Throws.bind_eq_ok.mp hopen
  cases hopen
  exact hp

theorem Alike.confirm_signer (h : Alike A K (i :: is) s s') {existing : Option PeerRow}
    (hi : i.2 = .confirm r) (hp : (confirmRoute C r).Passes m existing s)
    (hsender : m.envelope.sender = A) : m.signer = K := by
  obtain ⟨hwire, hopen, hclose⟩ := hp
  obtain ⟨hexisting, hkey, hlower, hchecks⟩ := confirmOpen_ok hopen
  cases hrow : s.peers.lookup A with
  | none => exact h.claim hrow i mem_cons_self r m hi hwire hsender
  | some peer =>
    obtain ⟨hpeered, hown⟩ := h.held peer hrow
    have hpeer : confirmed existing = some peer := by
      rw [confirmed_eq_some, hexisting, hsender]
      exact ⟨hrow, hpeered⟩
    have hsigner : m.signer = toLowerCase r.key := (verified_of_checks hchecks hclose).signer
    rw [hsigner, hlower, hkey peer hpeer]
    exact hown

/-- **Another's request is not seen**: rows, records and the handshake key of `A` stay, and its
    window too unless the request was counted unverified under `A`'s id. -/
theorem Alike.other (h : Alike A K (i :: is) s s') (hi : signedBy K i = false) :
    Alike A K is (handle C P s i).2 s' ∧ (¬(i.2.countedUnverified = true ∧ i.2.names = some A) →
      (handle C P s i).2.windows A = s.windows A) := by
  have hat : Alike A K (i :: is) { s with now := i.1 } s' :=
    h.aside i.1 s'.now s.windows s.cosmetics s'.cosmetics
  have hnot : ∀ m, i.2.carried = some m → i.2.signer = i.2.carried.map (·.signer) → m.signer ≠ K := by
    intro m hm hsigner hK
    unfold signedBy at hi
    rw [hsigner, hm, Option.map_some, hK, decide_eq_false_iff_not] at hi
    exact hi rfl
  obtain ⟨now, request⟩ := i
  unfold handle
  cases request with
  | propose =>
    dsimp only
    unfold proposeAlone
    iterate 4
      split
      · exact ⟨hat.tail, fun _ => rfl⟩
    · exact ⟨hat.tail.aside _ s'.now _ _ s'.cosmetics, fun _ => rfl⟩
  | confirm =>
    dsimp only
    split
    · exact ⟨hat.tail, fun _ => rfl⟩
    refine hat.other_route fun m existing hp => ?_
    have hsender : m.envelope.sender ≠ A := fun hA =>
      hnot m (congrArg Wire.carried hp.1) rfl (hat.confirm_signer rfl hp hA)
    obtain ⟨hexisting, hkey, hlower, hchecks⟩ := confirmOpen_ok hp.2.1
    have hv := verified_of_checks hchecks hp.2.2
    refine hat.other_authorized rfl hsender (fun windows peers hw => ?_) fun σ => ⟨_, rfl⟩
    exact confirm_authorized (fun p hp' => hat.keyed.1 _ p (hexisting.symm.trans hp')) hkey hv hlower hw
  | heartbeat =>
    refine hat.other_route fun m b hp => ?_
    obtain ⟨hopen, hclose⟩ := heartbeat_passes hp
    obtain ⟨hpeer, -, hchecks⟩ := heartbeatOpen_ok hopen
    have hsender : m.envelope.sender ≠ A := fun hA =>
      hnot m (congrArg Wire.carried hp.1) rfl (hat.signer (hA ▸ hpeer) rfl hclose)
    have hv := verified_of_checks hchecks hclose
    exact hat.other_authorized rfl hsender
      (fun windows peers hw => heartbeat_authorized (hat.keyed.1 _ b.2 hpeer) hv hw) fun σ => ⟨_, rfl⟩
  | remove =>
    refine hat.other_route fun m peer hp => ?_
    obtain ⟨hpeer, hchecks⟩ := removeOpen_ok hp.2.1
    have hsender : m.envelope.sender ≠ A := fun hA =>
      hnot m (congrArg Wire.carried hp.1) rfl (hat.signer (hA ▸ hpeer) rfl hp.2.2)
    have hv := verified_of_checks hchecks hp.2.2
    exact hat.other_authorized rfl hsender
      (fun windows peers hw => remove_authorized (hat.keyed.1 _ peer hpeer) hv hw) fun σ => ⟨_, rfl⟩
  | work r =>
    refine hat.other_route fun m peer hp => ?_
    obtain ⟨hpeer, hchecks⟩ := workOpen_ok hp.2.1
    have hsender : m.envelope.sender ≠ A := fun hA =>
      hnot m (congrArg Wire.carried hp.1) rfl (hat.signer (hA ▸ hpeer) rfl hp.2.2)
    obtain ⟨b, nonces, windows, hcounts, hconsume, hafter⟩ := workClose_snd m { s with now := now }
    rw [show ((workRoute C r).close m peer { s with now := now }).2 =
      (workClose m { s with now := now }).2 from answerOf_snd _ _, hafter]
    exact ⟨hat.consumed hsender hconsume, hcounts A (Ne.symm hsender)⟩
  | witness r =>
    obtain ⟨halike, hwindow⟩ := hat.other_counted r.issuerId (witnessAnswer r)
    exact ⟨halike, fun hno => hwindow fun hissuer => hno ⟨rfl, congrArg some hissuer⟩⟩
  | vote r =>
    dsimp only
    unfold voteRequest
    split
    · exact ⟨hat.tail, fun _ => rfl⟩
    split
    · exact ⟨hat.tail, fun _ => rfl⟩
    · obtain ⟨halike, hwindow⟩ := hat.other_counted r.requesterId (voteAnswer P r)
      exact ⟨halike, fun hno => hwindow fun hrequester => hno ⟨rfl, congrArg some hrequester⟩⟩
  | discover r =>
    dsimp only
    unfold discover
    iterate 3
      split
      · exact ⟨hat.tail, fun _ => rfl⟩
    · obtain ⟨halike, hwindow⟩ := hat.other_counted r.originRelay fun _ => .ok .agents
      exact ⟨halike, fun hno => hwindow fun horigin => hno ⟨rfl, congrArg some horigin⟩⟩

/-! ## §6. One of `A`'s own -/

/-- What the two runs make of one request of `A`: alike when `fits`, and otherwise not. -/
structure TwoRuns (A K : String) (is : List (Int × Request)) (s s' : Relay) (fits : Prop)
    (x x' : Answer × Relay) : Prop where
  same : fits → (x.1, x.2.peers.lookup A) = (x'.1, x'.2.peers.lookup A) ∧ Alike A K is x.2 x'.2
  window : fits → s.windows A = s'.windows A → x.2.windows A = x'.2.windows A
  differs : ¬fits → (x.1, x.2.peers.lookup A) ≠ (x'.1, x'.2.peers.lookup A)

theorem checkLimit_alike {windows windows' : String → Option Window} (h : windows A = windows' A) :
    (checkLimit A now windows).2 A = (checkLimit A now windows').2 A := by
  unfold checkLimit
  rw [h]
  split
  · split
    · dsimp only
      rw [update_self, update_self]
    · dsimp only
      rw [update_self, update_self]
  · dsimp only
    rw [update_self, update_self]

theorem TwoRuns.imp {fits fits' : Prop} {x x' : Answer × Relay} (h : TwoRuns A K is s s' fits x x')
    (hiff : fits' ↔ fits) : TwoRuns A K is s s' fits' x x' :=
  ⟨fun hf => h.same (hiff.mp hf), fun hf => h.window (hiff.mp hf), fun hf => h.differs (mt hiff.mpr hf)⟩

theorem TwoRuns.quiet {fits : Prop} (hfits : fits) (h : Alike A K (i :: is) s s') (a : Answer) :
    TwoRuns A K is s s' fits (a, s) (a, s') where
  same _ := ⟨by rw [h.row], h.tail⟩
  window _ hw := hw
  differs hno := absurd hfits hno

theorem authorized_replayed {write : Relay → Bool × PeerTable} {done : Relay → α × Relay}
    (hseen : federationNonceSeen s.nonces m.envelope.sender m.envelope.nonce = true) :
    authorized m write done s = (.error .replayed, s) := by
  exact if_pos hseen

theorem checkPeerLimit_full {relayId : String} (h : (checkLimit relayId s.now s.windows).1 = false) :
    ∃ retryAfter windows, checkPeerLimit relayId s =
      (some (.rateLimited retryAfter), { s with windows := windows }) := by
  unfold checkPeerLimit
  dsimp only
  rw [h]
  exact ⟨_, _, rfl⟩

theorem checkPeerLimit_room {relayId : String} (h : (checkLimit relayId s.now s.windows).1 = true) :
    checkPeerLimit relayId s = (none, { s with windows := (checkLimit relayId s.now s.windows).2 }) := by
  unfold checkPeerLimit
  dsimp only
  rw [h]
  rfl

theorem authorized_limited {write : Relay → Bool × PeerTable} {done : Relay → α × Relay}
    (hseen : federationNonceSeen s.nonces m.envelope.sender m.envelope.nonce = false)
    (hroom : (checkLimit m.envelope.sender s.now s.windows).1 = false) :
    ∃ retryAfter windows, authorized m write done s =
      (.error (.rateLimited retryAfter), { s with windows := windows }) := by
  obtain ⟨retryAfter, windows, hlimit⟩ := checkPeerLimit_full hroom
  refine ⟨retryAfter, windows, ?_⟩
  unfold authorized
  dsimp only
  rw [hseen, hlimit]
  rfl

/-- **The message takes effect.** -/
theorem authorized_lands {write : Relay → Bool × PeerTable} {done : Relay → α × Relay}
    {peers : PeerTable}
    (hseen : federationNonceSeen s.nonces m.envelope.sender m.envelope.nonce = false)
    (hroom : (checkLimit m.envelope.sender s.now s.windows).1 = true)
    (hconsume : consumeFederationNonce m.envelope.sender m.envelope.nonce m.envelope.ts s.now s.nonces =
      (true, nonces))
    (hwrite : write { s with windows := (checkLimit m.envelope.sender s.now s.windows).2 } =
      (true, peers)) : let t := done { s with
      windows := (checkLimit m.envelope.sender s.now s.windows).2, nonces := nonces, peers := peers }
    authorized m write done s = (.ok t.1, t.2) := by
  unfold authorized
  dsimp only
  rw [hseen, checkPeerLimit_room hroom]
  dsimp only
  rw [hconsume]
  rw [hwrite]
  rfl

theorem writePeerRow_lands {cur next : PeerRow} (hcur : t.lookup cur.peerRelayId = some cur)
    (hpeered : cur.peeredAt.isSome) (hid : next.peerRelayId = cur.peerRelayId)
    (hkey : next.publicKey = cur.publicKey) (hnext : next.peeredAt.isSome) :
    writePeerRow (some cur) (.update next) .peerKey t = (true, t.insert cur.peerRelayId next) := by
  have hrule : peerRowTransition (some cur) (.update next) .peerKey = none := by
    unfold peerRowTransition
    dsimp only
    rw [if_neg (Option.isSome_iff_ne_none.mp hpeered), if_neg (not_not.mpr hid),
      if_neg (not_not.mpr hkey), if_neg (Option.isSome_iff_ne_none.mp hnext)]
  have hread : asRead cur cur := ⟨rfl, rfl, rfl, rfl, rfl, rfl, rfl, rfl⟩
  have hassign : cur.assign next = next := by
    unfold PeerRow.assign
    rw [← hid, ← hkey]
  unfold writePeerRow
  rw [hrule]
  dsimp only
  rw [hcur]
  dsimp only
  rw [if_pos hread, hassign]

def Own (A K : String) (r : PeerRow) : Prop :=
  r.peerRelayId = A ∧ r.peeredAt.isSome ∧ toLowerCase r.publicKey = K

theorem RowsKeyed.insert (h : RowsKeyed t) {r : PeerRow} (hr : r.peerRelayId = A) :
    RowsKeyed (t.insert A r) := by
  intro id row hrow
  by_cases hid : id = A
  · subst hid
    rw [AList.lookup_insert] at hrow
    cases hrow
    exact hr
  · rw [AList.lookup_insert_ne hid] at hrow
    exact h id row hrow

def recordOf (A : String) (now : Int) (m : SignedFederationMessage) : NonceRow :=
  ⟨A, m.envelope.nonce, max m.envelope.ts now + federationNonceRetentionMs⟩

theorem Alike.recorded (h : Alike A K (i :: is) s s') (hm : i.2.carried = some m)
    (hsigner : m.signer = K) : NoncesAlike A K is (recordOf A i.1 m :: unexpired i.1 s.nonces)
      (recordOf A i.1 m :: unexpired i.1 s'.nonces) := by
  refine (h.nonces.purge h.honest.sorted).cons fun j hj m' hm' hsigner' hnonce => ?_
  have hts := h.honest.nonces j (mem_cons_of_mem _ hj) i mem_cons_self m' m hm' hm
    hsigner' hsigner hnonce
  rw [hts]
  exact Int.add_le_add_right (Int.le_max_left _ _) _

theorem Alike.landed (h : Alike A K (i :: is) s s') (hi : signedBy K i = true)
    (hm : i.2.carried = some m) (hsigner : m.signer = K) {row : PeerRow} (hrow : Own A K row)
    (now now' : Int) (windows : String → Option Window)
    (cosmetics cosmetics' : List (String × Cosmetic)) : Alike A K is
      ⟨now, s.peers.insert A row, recordOf A i.1 m :: unexpired i.1 s.nonces, windows, cosmetics,
        s.handshakeKey⟩
      ⟨now', s'.peers.insert A row, recordOf A i.1 m :: unexpired i.1 s'.nonces,
        (checkLimit A i.1 s'.windows).2, cosmetics', s'.handshakeKey⟩ := by
  refine ⟨h.honest.tail, ⟨h.keyed.1.insert hrow.1, h.keyed.2.insert hrow.1⟩, ?_, fun r hr => ?_,
    fun hnone => ?_, h.key, h.recorded hm hsigner, (h.room.counts h.honest hi).2⟩
  · rw [AList.lookup_insert, AList.lookup_insert]
  · rw [AList.lookup_insert] at hr
    cases hr
    exact hrow.2
  · rw [AList.lookup_insert] at hnone
    cases hnone

theorem own_lands {a : α} {write : Relay → Bool × PeerTable} {done : Relay → α × Relay}
    {row : PeerRow} (hnow : s.now = now) (hsender : m.envelope.sender = A)
    (hseen : federationNonceSeen s.nonces A m.envelope.nonce = false)
    (hlive : federationNonceSeen (unexpired now s.nonces) A m.envelope.nonce = false)
    (hroom : (checkLimit A now s.windows).1 = true)
    (hwrite : ∀ windows, write { s with windows := windows } = (true, s.peers.insert A row))
    (hdone : ∀ σ, σ.now = now → ∃ cosmetics, done σ = (a, { σ with cosmetics := cosmetics })) :
    ∃ cosmetics, authorized m write done s = (.ok a, ⟨now, s.peers.insert A row,
      recordOf A now m :: unexpired now s.nonces, (checkLimit A now s.windows).2, cosmetics,
      s.handshakeKey⟩) := by
  subst hnow hsender
  have hconsume : consumeFederationNonce m.envelope.sender m.envelope.nonce m.envelope.ts s.now
      s.nonces = (true, recordOf m.envelope.sender s.now m :: unexpired s.now s.nonces) := by
    exact if_neg (Bool.eq_false_iff.mp hlive)
  have hlands : authorized m write done s = _ := authorized_lands hseen hroom hconsume (hwrite _)
  obtain ⟨cosmetics, hdone'⟩ := hdone { s with
    windows := (checkLimit m.envelope.sender s.now s.windows).2
    nonces := recordOf m.envelope.sender s.now m :: unexpired s.now s.nonces
    peers := s.peers.insert m.envelope.sender row } rfl
  refine ⟨cosmetics, ?_⟩
  rw [hlands, hdone']

/-- **One of `A`'s messages that its route's turn takes.** -/
theorem Alike.own_authorized {a : α} (reply : α → Reply) {write : Relay → Bool × PeerTable}
    {done : Relay → α × Relay} (row row' : PeerRow) (h : Alike A K (i :: is) s s')
    (hi : signedBy K i = true) (hnow : s.now = i.1) (hnow' : s'.now = i.1)
    (hm : i.2.carried = some m) (hsender : m.envelope.sender = A) (hsigner : m.signer = K)
    (hfresh : (i.1 - m.envelope.ts).natAbs ≤ maxSkewMs)
    (hwrite : ∀ windows, write { s with windows := windows } = (true, s.peers.insert A row))
    (hwrite' : ∀ windows, write { s' with windows := windows } = (true, s'.peers.insert A row'))
    (hdone : ∀ σ, σ.now = i.1 → ∃ cosmetics, done σ = (a, { σ with cosmetics := cosmetics }))
    (hrow : Own A K row) : TwoRuns A K is s s'
      (federationNonceSeen s.nonces A m.envelope.nonce = false →
        (checkLimit A i.1 s.windows).1 = true ∧ row = row')
      (answerOf reply (authorized m write done s)) (answerOf reply (authorized m write done s')) := by
  obtain ⟨hfull, halone⟩ := h.nonces.fresh_seen hm hsigner hfresh
  have hboth := h.nonces.unexpired_seen m.envelope.nonce
  cases hseen : federationNonceSeen s.nonces A m.envelope.nonce with
  | true =>
    have hseen' : federationNonceSeen s'.nonces A m.envelope.nonce = true := by
      rw [halone, ← hboth, ← hfull, hseen]
    rw [authorized_replayed (hsender ▸ hseen), authorized_replayed (hsender ▸ hseen')]
    exact .quiet nofun h _
  | false =>
    have hseen' : federationNonceSeen s'.nonces A m.envelope.nonce = false := by
      rw [halone, ← hboth, ← hfull, hseen]
    obtain ⟨cosmetics', hlands'⟩ := own_lands hnow' hsender hseen' (halone ▸ hseen')
      (h.room.counts h.honest hi).1 hwrite' hdone
    rw [hlands']
    cases hroom : (checkLimit A i.1 s.windows).1 with
    | false =>
      -- the full run refuses what `A` alone is granted
      have hlimited : ∃ retryAfter windows, authorized m write done s =
          (.error (.rateLimited retryAfter), { s with windows := windows }) :=
        authorized_limited (hsender ▸ hseen) (by rw [hsender, hnow]; exact hroom)
      obtain ⟨retryAfter, windows, hlimited⟩ := hlimited
      rw [hlimited]
      refine ⟨fun hfits => absurd (hfits rfl).1 Bool.false_ne_true,
        fun hfits => absurd (hfits rfl).1 Bool.false_ne_true, fun _ heq => ?_⟩
      cases (Prod.ext_iff.mp heq).1
    | true =>
      obtain ⟨cosmetics, hlands⟩ := own_lands hnow hsender hseen (hfull ▸ hseen) hroom hwrite hdone
      rw [hlands]
      refine ⟨fun hfits => ?_, fun _ hw => checkLimit_alike hw, fun hno heq => hno fun _ => ⟨rfl, ?_⟩⟩
      · obtain ⟨-, rfl⟩ := hfits rfl
        refine ⟨?_, h.landed hi hm hsigner hrow ..⟩
        show (_, (s.peers.insert A row).lookup A) = (_, (s'.peers.insert A row).lookup A)
        rw [AList.lookup_insert, AList.lookup_insert]
        rfl
      · have hrows : (s.peers.insert A row).lookup A = (s'.peers.insert A row').lookup A :=
          (Prod.ext_iff.mp heq).2
        rw [AList.lookup_insert, AList.lookup_insert] at hrows
        exact Option.some.inj hrows

/-- **One of `A`'s work messages.** -/
theorem Alike.own_work (h : Alike A K (i :: is) s s') (hi : signedBy K i = true)
    (hnow : s.now = i.1) (hnow' : s'.now = i.1) (hm : i.2.carried = some m)
    (hsender : m.envelope.sender = A) (hsigner : m.signer = K) : TwoRuns A K is s s'
      (federationNonceSeen (unexpired i.1 s.nonces) A m.envelope.nonce = false →
        (checkLimit A i.1 s.windows).1 = true)
      (answerOf (fun _ => .admitted) (workClose m s)) (answerOf (fun _ => .admitted) (workClose m s')) := by
  have hboth := h.nonces.unexpired_seen m.envelope.nonce
  have hconsume : ∀ n, consumeFederationNonce A m.envelope.nonce m.envelope.ts i.1 n =
      if federationNonceSeen (unexpired i.1 n) A m.envelope.nonce then (false, unexpired i.1 n)
      else (true, recordOf A i.1 m :: unexpired i.1 n) := fun _ => rfl
  unfold workClose
  dsimp only
  rw [hsender, hnow, hnow', hconsume, hconsume, ← hboth]
  cases hseen : federationNonceSeen (unexpired i.1 s.nonces) A m.envelope.nonce with
  | true =>
    refine ⟨fun _ => ⟨?_, ?_⟩, fun _ hw => hw, fun hno => absurd nofun hno⟩
    · show (_, s.peers.lookup A) = (_, s'.peers.lookup A)
      rw [h.row]
      rfl
    · exact ⟨h.honest.tail, h.keyed, h.row, h.held, h.tail.claim, h.key,
        h.nonces.purge h.honest.sorted, h.room.tail⟩
  | false =>
    have hroom' := h.room.counts h.honest hi
    rw [if_neg Bool.false_ne_true, if_neg Bool.false_ne_true]
    dsimp only
    have halone := checkPeerLimit_room (s := ⟨i.1, s'.peers, recordOf A i.1 m :: unexpired i.1 s'.nonces,
      s'.windows, s'.cosmetics, s'.handshakeKey⟩) hroom'.1
    rw [halone]
    cases hroom : (checkLimit A i.1 s.windows).1 with
    | false =>
      obtain ⟨retryAfter, windows, hfull⟩ := checkPeerLimit_full (s := ⟨i.1, s.peers,
        recordOf A i.1 m :: unexpired i.1 s.nonces, s.windows, s.cosmetics, s.handshakeKey⟩) hroom
      rw [hfull]
      refine ⟨fun hfits => absurd (hfits rfl) Bool.false_ne_true,
        fun hfits => absurd (hfits rfl) Bool.false_ne_true, fun _ heq => ?_⟩
      cases (Prod.ext_iff.mp heq).1
    | true =>
      have hfull := checkPeerLimit_room (s := ⟨i.1, s.peers, recordOf A i.1 m :: unexpired i.1 s.nonces,
        s.windows, s.cosmetics, s.handshakeKey⟩) hroom
      rw [hfull]
      refine ⟨fun _ => ⟨?_, ?_⟩, fun _ hw => checkLimit_alike hw, fun hno => absurd (fun _ => rfl) hno⟩
      · show (_, s.peers.lookup A) = (_, s'.peers.lookup A)
        rw [h.row]
        rfl
      · exact ⟨h.honest.tail, h.keyed, h.row, h.held, h.tail.claim, h.key, h.recorded hm hsigner,
          hroom'.2⟩

/-- **One of `A`'s requests that is counted first.** -/
theorem Alike.own_counted (h : Alike A K (i :: is) s s') (hi : signedBy K i = true)
    (hnow : s.now = i.1) (hnow' : s'.now = i.1) {answer : Relay → Answer}
    (hsame : ∀ windows windows',
      answer { s with windows := windows } = answer { s' with windows := windows' })
    (hnever : ∀ σ retryAfter, answer σ ≠ .error (.inl (.rateLimited retryAfter))) :
    TwoRuns A K is s s' ((checkLimit A i.1 s.windows).1 = true) (countedFirst A answer s)
      (countedFirst A answer s') := by
  have hroom' := h.room.counts h.honest hi
  have halone : checkPeerLimit A s' = (none, { s' with windows := (checkLimit A i.1 s'.windows).2 }) := by
    rw [← hnow']
    exact checkPeerLimit_room (hnow'.symm ▸ hroom'.1)
  unfold countedFirst
  rw [halone]
  cases hroom : (checkLimit A i.1 s.windows).1 with
  | false =>
    obtain ⟨retryAfter, windows, hfull⟩ := checkPeerLimit_full (hnow.symm ▸ hroom)
    rw [hfull]
    refine ⟨fun hfits => absurd hfits Bool.false_ne_true,
      fun hfits => absurd hfits Bool.false_ne_true, fun _ heq => ?_⟩
    exact hnever _ retryAfter (Prod.ext_iff.mp heq).1.symm
  | true =>
    have hfull : checkPeerLimit A s = (none, { s with windows := (checkLimit A i.1 s.windows).2 }) := by
      rw [← hnow]
      exact checkPeerLimit_room (hnow.symm ▸ hroom)
    rw [hfull]
    refine ⟨fun _ => ⟨?_, ?_⟩, fun _ hw => checkLimit_alike hw, fun hno => absurd rfl hno⟩
    · show (answer _, s.peers.lookup A) = (answer _, s'.peers.lookup A)
      rw [hsame, h.row]
    · exact ⟨h.honest.tail, h.keyed, h.row, h.held, h.tail.claim, h.key, h.tail.nonces, hroom'.2⟩

/-! ## §7. The checks read `A`'s row and the handshake key -/

theorem confirmOpen_alike (hnow : s.now = s'.now) (hkey : s.handshakeKey = s'.handshakeKey)
    (hrow : s.peers.lookup m.envelope.sender = s'.peers.lookup m.envelope.sender) :
    confirmOpen C r m s = confirmOpen C r m s' := by
  unfold confirmOpen handshakeValid
  dsimp only
  rw [hrow, hkey, hnow]

theorem heartbeatOpen_alike {agentCount : Nat} {revocations : List String} (hnow : s.now = s'.now)
    (hrow : s.peers.lookup m.envelope.sender = s'.peers.lookup m.envelope.sender) :
    heartbeatOpen C agentCount revocations m s = heartbeatOpen C agentCount revocations m s' := by
  unfold heartbeatOpen
  rw [hrow, hnow]

theorem removeOpen_alike (hnow : s.now = s'.now)
    (hrow : s.peers.lookup m.envelope.sender = s'.peers.lookup m.envelope.sender) :
    removeOpen C m s = removeOpen C m s' := by
  unfold removeOpen
  rw [hrow, hnow]

theorem workOpen_alike {r : WorkRequest} (hnow : s.now = s'.now)
    (hrow : s.peers.lookup m.envelope.sender = s'.peers.lookup m.envelope.sender) :
    workOpen C r m s = workOpen C r m s' := by
  unfold workOpen
  rw [hrow, hnow]

/-- The request carries the message of the wire, and is signed and named as that message says. -/
def Speaks (request : Request) (wire : Wire) : Prop :=
  request.carried = wire.carried ∧ request.signer = wire.carried.map (·.signer) ∧
    request.names = wire.carried.map (·.envelope.sender)

theorem Honest.message (h : Honest A K (i :: is)) (hi : signedBy K i = true)
    (hspeaks : Speaks i.2 (.message m)) :
    i.2.carried = some m ∧ m.signer = K ∧ m.envelope.sender = A := by
  obtain ⟨hcarried, hsigner, hnames⟩ := hspeaks
  have hown := h.own i mem_cons_self hi
  unfold signedBy at hi
  rw [decide_eq_true_eq, hsigner] at hi
  exact ⟨hcarried, Option.some.inj hi, Option.some.inj (hnames.symm.trans hown)⟩

/-- **A route of `A`'s signed message**, once its checks agree. -/
theorem Alike.own_route (h : Alike A K (i :: is) s s') (hi : signedBy K i = true) {β : Type}
    {x : SignedRoute β} {fits : SignedFederationMessage → β → Prop} (hspeaks : Speaks i.2 x.wire)
    (hopens : ∀ m, m.envelope.sender = A → x.opens m s = x.opens m s')
    (hclose : ∀ m b, x.Passes m b s → i.2.carried = some m → m.signer = K → m.envelope.sender = A →
      TwoRuns A K is s s' (fits m b) (x.close m b s) (x.close m b s')) :
    TwoRuns A K is s s' (∀ m b, x.Passes m b s → fits m b) (x.handle s) (x.handle s') := by
  unfold SignedRoute.handle
  cases hwire : x.wire with
  | absent | malformed => exact .quiet (fun m b hp => by rw [hp.1] at hwire; cases hwire) h _
  | message m =>
    obtain ⟨hm, hsigner, hsender⟩ := h.honest.message hi (hwire ▸ hspeaks)
    dsimp only
    rw [← hopens m hsender]
    -- the message passes with one reading only
    have hone : ∀ m' b', x.Passes m' b' s → m' = m ∧ x.opens m s = .ok b' ∧
        verifyClose (x.expect m b') m = none := by
      intro m' b' hp
      have hm : m' = m := by
        have hwire' := hp.1
        rw [hwire] at hwire'
        exact (Wire.message.inj hwire').symm
      subst hm
      exact ⟨rfl, hp.2⟩
    cases hopen : x.opens m s with
    | error =>
      refine .quiet (fun m' b' hp => ?_) h _
      rw [(hone m' b' hp).2.1] at hopen
      cases hopen
    | ok b =>
      dsimp only
      cases hv : verifyClose (x.expect m b) m with
      | some =>
        refine .quiet (fun m' b' hp => ?_) h _
        obtain ⟨-, hopen', hv'⟩ := hone m' b' hp
        rw [hopen] at hopen'
        cases hopen'
        rw [hv] at hv'
        cases hv'
      | none =>
        refine (hclose m b ⟨hwire, hopen, hv⟩ hm hsigner hsender).imp ⟨fun hall => hall m b ⟨hwire, hopen, hv⟩, ?_⟩
        intro hfits m' b' hp
        obtain ⟨rfl, hopen', -⟩ := hone m' b' hp
        rw [hopen] at hopen'
        cases hopen'
        exact hfits

/-! ## §8. When the runs agree -/

/-- The two columns a confirm takes from what a propose left beside its nonce. -/
def cosmeticColumns (r : Confirm) (existing : Option PeerRow) (s : Relay) :
    Option String × Option String :=
  let cosmetic := (s.cosmetics.find? fun e => e.1 = r.nonce).map (·.2)
  let peer := confirmed existing
  ((cosmetic.bind (·.displayName)).or (peer.bind (·.displayName)), match cosmetic with
    | none => peer.bind (·.peerProtocolVersion)
    | some c => c.peerProtocolVersion)

def HasRoom (A : String) (s : Relay) : Prop := (checkLimit A s.now s.windows).1 = true

def Unseen (m : SignedFederationMessage) (s : Relay) : Prop :=
  federationNonceSeen s.nonces m.envelope.sender m.envelope.nonce = false

/-- The condition at one request of `A`: if it gets as far as the limiter, there is room, and a
    confirm finds the same two columns in both runs. -/
def Fits (C : FederationConfig) (A : String) (i : Int × Request) (s s' : Relay) : Prop :=
  let t := { s with now := i.1 }
  let t' := { s' with now := i.1 }
  match i.2 with
  | .confirm r => C.federationEnabled = true → ∀ m existing, (confirmRoute C r).Passes m existing t →
      Unseen m t → HasRoom A t ∧ cosmeticColumns r existing t = cosmeticColumns r existing t'
  | .heartbeat r => ∀ m b, (heartbeatRoute C r).Passes m b t → Unseen m t → HasRoom A t
  | .remove wire => ∀ m peer, (removeRoute C wire).Passes m peer t → Unseen m t → HasRoom A t
  | .work r => ∀ m peer, (workRoute C r).Passes m peer t →
      federationNonceSeen (unexpired i.1 t.nonces) m.envelope.sender m.envelope.nonce = false →
        HasRoom A t
  | .witness _ => HasRoom A t
  | .vote r => r.disputeId = r.disputeIdParam → C.federationEnabled = true → HasRoom A t
  | _ => True

/-- The row a confirm leaves of the row found. -/
def confirmedAs (C : FederationConfig) (r : Confirm) (relayId : String) (cosmetic : Option Cosmetic)
    (now : Int) : Option PeerRow → PeerRow
  | some p => confirmedRow C r cosmetic now p (some p)
  | none => confirmedRow C r cosmetic now (bornRow r relayId now) none

theorem confirmWrite_lands {cosmetic : Option Cosmetic}
    (hpeered : ∀ p, t.lookup A = some p → p.peeredAt.isSome) (hkeyed : RowsKeyed t) :
    confirmWrite C r A cosmetic now (t.lookup A) t =
      (true, t.insert A (confirmedAs C r A cosmetic now (t.lookup A))) := by
  unfold confirmWrite
  cases hrow : t.lookup A with
  | none =>
    show writePeerRow none (.insert (confirmedRow C r cosmetic now (bornRow r A now) none)) .peerKey t = _
    have hfree : (t.lookup (confirmedRow C r cosmetic now (bornRow r A now) none).peerRelayId).isSome =
        false := by
      rw [show (confirmedRow C r cosmetic now (bornRow r A now) none).peerRelayId = A from rfl, hrow]
      rfl
    unfold writePeerRow
    dsimp only
    rw [if_neg (by rw [hfree]; exact Bool.false_ne_true)]
    rfl
  | some p =>
    have hconfirmed : confirmed (some p) = some p := confirmed_eq_some.mpr ⟨rfl, hpeered p hrow⟩
    have hid := hkeyed A p hrow
    rw [hconfirmed]
    dsimp only
    have hlands : writePeerRow (some p) (.update (confirmedRow C r cosmetic now p (some p))) .peerKey t =
        (true, t.insert p.peerRelayId (confirmedRow C r cosmetic now p (some p))) :=
      writePeerRow_lands (hid.symm ▸ hrow) (hpeered p hrow) rfl rfl rfl
    rw [hlands, hid]
    rfl

theorem confirmedAs_inj {existing : Option PeerRow}
    (hpeered : ∀ p, existing = some p → p.peeredAt.isSome) :
    confirmedAs C r A ((s.cosmetics.find? fun e => e.1 = r.nonce).map (·.2)) now existing =
      confirmedAs C r A ((s'.cosmetics.find? fun e => e.1 = r.nonce).map (·.2)) now existing ↔
    cosmeticColumns r existing s = cosmeticColumns r existing s' := by
  unfold cosmeticColumns
  generalize (s.cosmetics.find? fun e => e.1 = r.nonce).map (·.2) = cosmetic
  generalize (s'.cosmetics.find? fun e => e.1 = r.nonce).map (·.2) = cosmetic'
  cases existing with
  | none => cases cosmetic <;> cases cosmetic' <;> simp [confirmedAs, confirmedRow, bornRow, confirmed]
  | some p =>
    rw [show confirmed (some p) = some p from confirmed_eq_some.mpr ⟨rfl, hpeered p rfl⟩]
    cases cosmetic <;> cases cosmetic' <;> simp [confirmedAs, confirmedRow]

section

variable (h : Alike A K (i :: is) s s') (hi : signedBy K i = true) (hnow : s.now = i.1)
  (hnow' : s'.now = i.1)
include h hi hnow hnow'

theorem Alike.own_confirm (hr : i.2 = .confirm r) :
    TwoRuns A K is s s' (∀ m existing, (confirmRoute C r).Passes m existing s → Unseen m s →
        HasRoom A s ∧ cosmeticColumns r existing s = cosmeticColumns r existing s')
      ((confirmRoute C r).handle s) ((confirmRoute C r).handle s') := by
  refine h.own_route hi (hr ▸ ⟨rfl, rfl, rfl⟩) (fun m hsender => ?_) fun m existing hp hm hsigner hsender => ?_
  · refine confirmOpen_alike (hnow.trans hnow'.symm) h.key ?_
    rw [hsender]
    exact h.row
  · obtain ⟨hexisting, hkey, hlower, hchecks⟩ := confirmOpen_ok hp.2.1
    have hv := verified_of_checks hchecks hp.2.2
    rw [hsender] at hexisting
    subst hexisting
    have hpeered : ∀ p, s.peers.lookup A = some p → p.peeredAt.isSome := fun p hp => (h.held p hp).1
    have hrow : Own A K (confirmedAs C r A ((s.cosmetics.find? fun e => e.1 = r.nonce).map (·.2)) i.1
        (s.peers.lookup A)) := by
      cases hlookup : s.peers.lookup A with
      | none => exact ⟨rfl, rfl, hv.signer.symm.trans hsigner⟩
      | some p => exact ⟨h.keyed.1 A p hlookup, rfl, (h.held p hlookup).2⟩
    have hpeered' : ∀ p, s'.peers.lookup A = some p → p.peeredAt.isSome := fun p hp =>
      (h.held p (h.row.trans hp)).1
    show TwoRuns A K is s s' _ (answerOf .confirmed (confirmClose C r m (s.peers.lookup A) s))
      (answerOf .confirmed (confirmClose C r m (s.peers.lookup A) s'))
    refine .imp (h.own_authorized .confirmed (a := i.1) _ (confirmedAs C r A
      ((s'.cosmetics.find? fun e => e.1 = r.nonce).map (·.2)) i.1 (s.peers.lookup A)) hi hnow hnow' hm hsender hsigner
      (hnow ▸ hv.fresh) (fun windows => ?_) (fun windows => ?_) (fun σ hσ => ⟨_, by rw [hσ]⟩) hrow) ?_
    · dsimp only
      rw [hsender, hnow]
      exact confirmWrite_lands hpeered h.keyed.1
    · dsimp only
      rw [hsender, hnow', h.row]
      exact confirmWrite_lands hpeered' h.keyed.2
    · unfold Unseen HasRoom
      rw [hsender, hnow, confirmedAs_inj hpeered]

/-- A write that keeps the row's id, key and first meeting lands alike in both runs. -/
theorem Alike.own_update {peer : PeerRow} (hm : i.2.carried = some m) (hsender : m.envelope.sender = A)
    (hsigner : m.signer = K) {reply : Unit → Reply} (next : Int → PeerRow)
    (hpeer : s.peers.lookup A = some peer) (hfresh : (s.now - m.envelope.ts).natAbs ≤ maxSkewMs)
    (hid : (next i.1).peerRelayId = peer.peerRelayId) (hkey : (next i.1).publicKey = peer.publicKey)
    (hfirst : (next i.1).peeredAt = peer.peeredAt) :
    let write := fun σ : Relay => writePeerRow (some peer) (.update (next σ.now)) .peerKey σ.peers
    TwoRuns A K is s s' (Unseen m s → HasRoom A s) (answerOf reply (authorized m write (fun σ => ((), σ)) s))
      (answerOf reply (authorized m write (fun σ => ((), σ)) s')) := by
  have hA : peer.peerRelayId = A := h.keyed.1 A peer hpeer
  obtain ⟨hpeered, hown⟩ := h.held peer hpeer
  have hnext : (next i.1).peeredAt.isSome := hfirst ▸ hpeered
  refine .imp (h.own_authorized reply (a := ()) (next i.1) (next i.1) hi hnow hnow' hm hsender hsigner
    (hnow ▸ hfresh) (fun windows => ?_) (fun windows => ?_) (fun σ _ => ⟨_, rfl⟩)
    ⟨hid.trans hA, hnext, (congrArg toLowerCase hkey).trans hown⟩) ?_
  · dsimp only
    rw [hnow, ← hA]
    exact writePeerRow_lands (hA.symm ▸ hpeer) hpeered hid hkey hnext
  · dsimp only
    rw [hnow', ← hA]
    exact writePeerRow_lands (hA.symm ▸ h.row.symm.trans hpeer) hpeered hid hkey hnext
  · unfold Unseen HasRoom
    rw [hsender, hnow]
    exact ⟨fun hf hu => ⟨hf hu, rfl⟩, fun hf hu => (hf hu).1⟩

theorem Alike.own_heartbeat {r : Heartbeat} (hr : i.2 = .heartbeat r) :
    TwoRuns A K is s s' (∀ m b, (heartbeatRoute C r).Passes m b s → Unseen m s → HasRoom A s)
      ((heartbeatRoute C r).handle s) ((heartbeatRoute C r).handle s') := by
  refine h.own_route hi (hr ▸ ⟨rfl, rfl, rfl⟩) (fun m hsender => ?_) fun m b hp hm hsigner hsender => ?_
  · unfold heartbeatRoute
    cases r.agentCount with
    | none => rfl
    | some =>
      dsimp only
      rw [heartbeatOpen_alike (hnow.trans hnow'.symm)]
      rw [hsender]
      exact h.row
  · obtain ⟨hopen, hclose⟩ := heartbeat_passes hp
    obtain ⟨hpeer, -, hchecks⟩ := heartbeatOpen_ok hopen
    have hv := verified_of_checks hchecks hclose
    exact h.own_update hi hnow hnow' hm hsender hsigner (fun now => heartbeatRow b.1 now b.2)
      (hsender ▸ hpeer) hv.fresh rfl rfl rfl

theorem Alike.own_remove {wire : Wire} (hr : i.2 = .remove wire) :
    TwoRuns A K is s s' (∀ m peer, (removeRoute C wire).Passes m peer s → Unseen m s → HasRoom A s)
      ((removeRoute C wire).handle s) ((removeRoute C wire).handle s') := by
  refine h.own_route hi (hr ▸ ⟨rfl, rfl, rfl⟩) (fun m hsender => ?_) fun m peer hp hm hsigner hsender => ?_
  · refine removeOpen_alike (hnow.trans hnow'.symm) ?_
    rw [hsender]
    exact h.row
  · obtain ⟨hpeer, hchecks⟩ := removeOpen_ok hp.2.1
    have hv := verified_of_checks hchecks hp.2.2
    exact h.own_update hi hnow hnow' hm hsender hsigner (fun _ => { peer with state := .removed })
      (hsender ▸ hpeer) hv.fresh rfl rfl rfl

theorem Alike.own_work_route {r : WorkRequest} (hr : i.2 = .work r) :
    TwoRuns A K is s s' (∀ m peer, (workRoute C r).Passes m peer s →
        federationNonceSeen (unexpired i.1 s.nonces) m.envelope.sender m.envelope.nonce = false →
          HasRoom A s) ((workRoute C r).handle s) ((workRoute C r).handle s') := by
  refine h.own_route hi (hr ▸ ⟨rfl, rfl, rfl⟩) (fun m hsender => ?_) fun m peer hp hm hsigner hsender => ?_
  · refine workOpen_alike (hnow.trans hnow'.symm) ?_
    rw [hsender]
    exact h.row
  · refine .imp (h.own_work hi hnow hnow' hm hsender hsigner) ?_
    unfold HasRoom
    rw [hsender, hnow]

end

theorem witnessAnswer_counted (r : WitnessSolicitationRequest) (s : Relay) (retryAfter : Int) :
    witnessAnswer r s ≠ .error (.inl (.rateLimited retryAfter)) := by
  unfold witnessAnswer
  split
  · simp
  split
  · simp
  split <;> simp

theorem voteAnswer_counted (P : QueryPolicy) (r : VoteRequest) (s : Relay) (retryAfter : Int) :
    voteAnswer P r s ≠ .error (.inl (.rateLimited retryAfter)) := by
  unfold voteAnswer
  split
  · simp
  split
  · simp
  split
  · simp
  split <;> simp

/-- **One of `A`'s own requests**: the two runs agree on it exactly when it fits. -/
theorem Alike.own (h : Alike A K (i :: is) s s') (hi : signedBy K i = true) :
    TwoRuns A K is { s with now := i.1 } { s' with now := i.1 } (Fits C A i s s') (handle C P s i)
      (handle C P s' i) := by
  have hat : Alike A K (i :: is) { s with now := i.1 } { s' with now := i.1 } :=
    h.aside i.1 i.1 s.windows s.cosmetics s'.cosmetics
  have hown := h.honest.own i mem_cons_self hi
  obtain ⟨now, request⟩ := i
  unfold handle Fits
  cases request with
  | confirm =>
    cases henabled : C.federationEnabled with
    | false => exact .quiet nofun hat _
    | true => exact (hat.own_confirm hi rfl rfl rfl).imp ⟨fun hf => hf rfl, fun hf _ => hf⟩
  | heartbeat => exact hat.own_heartbeat hi rfl rfl rfl
  | remove => exact hat.own_remove hi rfl rfl rfl
  | work => exact hat.own_work_route hi rfl rfl rfl
  | witness r =>
    have hissuer : r.issuerId = A := Option.some.inj hown
    dsimp only
    unfold horizonWitness HasRoom
    rw [hissuer]
    refine hat.own_counted hi rfl rfl (fun windows windows' => ?_) (witnessAnswer_counted r)
    unfold witnessAnswer knownPeer
    rw [hissuer, h.row]
  | vote r =>
    have hrequester : r.requesterId = A := Option.some.inj hown
    dsimp only
    unfold voteRequest HasRoom
    by_cases hid : r.disputeId = r.disputeIdParam
    · rw [if_neg (not_not.mpr hid), if_neg (not_not.mpr hid)]
      cases henabled : C.federationEnabled with
      | false => exact .quiet nofun hat _
      | true =>
        rw [hrequester]
        refine .imp (hat.own_counted hi rfl rfl (fun windows windows' => ?_)
          (voteAnswer_counted P r)) ⟨fun hf => hf hid rfl, fun hf _ _ => hf⟩
        unfold voteAnswer knownPeer
        rw [hrequester, h.row]
    · rw [if_pos hid, if_pos hid]
      exact .quiet (fun heq => absurd heq hid) hat _
  | propose r | discover r => exact absurd (of_decide_eq_true hi) (by simp [Request.signer, Request.carried])

end Motebit.Peers
