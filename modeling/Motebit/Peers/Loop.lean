/-
  Motebit.Peers.Loop — THE HEARTBEAT LOOP.

  A tick reads the peers once, exchanges a heartbeat with each, and only then writes every result
  against the row it read.  Between its reads and its writes any other route may have run.

  Main results: `beat_ensures`, `beats_ensures`, `settleBeat_step`, `settleBeats`,
  `sendHeartbeats_ensures`.
-/

import Motebit.Peers.Authority

namespace Motebit.Peers

open Motebit.Lib Motebit.Lib.Protocol List Function

variable {C : FederationConfig} {H : Home} {m : SignedFederationMessage} {n n' : Node}

/-! ## §1. One exchange -/

/-- The nonces `ks` are the tick's own, and none was answered yet. -/
def Holding (H : Home) (t : Nat) (ks : List Nat) (n : Node) : Prop :=
  ∀ k ∈ ks, k < n.drawn ∧ n.owner k = t ∧ ∀ m ∈ n.effects, ¬Answers H m k

theorem holding_stable (H : Home) (t : Nat) (ks : List Nat) :
    (authority H).Stable t (Holding H t ks) := by
  intro n n' hi _ hr hl k hk
  obtain ⟨hdrawn, howner, hnone⟩ := hl k hk
  rcases hr with ⟨u, hu, hg⟩ | he
  · refine ⟨Nat.lt_of_lt_of_le hdrawn hg.drawn, (hg.owner k hdrawn).trans howner, fun m hm hans => ?_⟩
    rcases hg.own m hm with hold | hown
    · exact hnone m hold hans
    · have hkown := (hg.owner k hdrawn).trans howner
      exact hu ((hown k hans).symm.trans hkown)
  · -- the environment draws nothing and takes no message
    cases he with
    | tick | sign | breaker | count => exact ⟨hdrawn, howner, hnone⟩

/-- A result of the exchange that drew the `k`-th nonce. -/
def Acked (H : Home) (r : PeerRow × Option SignedFederationMessage) (k : Nat) : Prop :=
  ∀ m, r.2 = some m → ∃ count checkedAt, m.envelope.sender = r.1.peerRelayId ∧
    Verified H.config.self (ackExpects r.1 (H.nonceAt k) count) checkedAt m

theorem ack_sender {own : RelayIdentity} {peer : PeerRow} {nonce : String} {count now : Int}
    (h : verifyOpen own (ackExpects peer nonce count) now m.envelope = none) :
    m.envelope.sender = peer.peerRelayId := by
  unfold verifyOpen at h
  iterate 5
    split at h
    · cases h
  next hsender =>
  rw [not_and, not_not] at hsender
  exact (Option.some.inj (hsender rfl)).symm

/-- What one exchange ends with: a nonce of its own, and an acknowledgement of it, if any. -/
def Exchanged (H : Home) (t : Nat) (ks : List Nat) (peer : PeerRow)
    (result : Option SignedFederationMessage) (k : Nat) (n : Node) : Prop :=
  (Holding H t (k :: ks) n ∧ ∀ m, result = some m → m ∈ n.signed) ∧
    (k ∉ ks ∧ Acked H (peer, result) k)

variable {t : Nat}

theorem beat_ensures {ks : List Nat} (peer : PeerRow) :
    (authority H).Ensures t (beat H t peer) (Holding H t ks)
      (fun result n => ∃ k, Exchanged H t ks peer result k n) fun _ _ => True := by
  have hsilent : ∀ k, k ∉ ks → (authority H).Ensures t
      (Pure.pure none : PeerWork (Option SignedFederationMessage)) (Holding H t (k :: ks))
      (fun result n => ∃ k, Exchanged H t ks peer result k n) fun _ _ => True := by
    intro k hk
    exact .pure fun n _ hl =>
      ⟨k, ⟨hl, by simp⟩, hk, fun _ h => by cases h⟩
  have hdraw : (authority H).Ensures t (Task.act fun n : Node =>
      (n.drawn, { n with drawn := n.drawn + 1, owner := update n.owner n.drawn t }) :
        PeerWork Nat) (Holding H t ks)
      (fun k n => Holding H t (k :: ks) n ∧ k ∉ ks) fun _ _ => True := by
    refine .act (fun k n n' hi hi' hr hl => ⟨holding_stable H t _ n n' hi hi' hr hl.1, hl.2⟩) ?_
    intro n hi hl
    have hnew : n.drawn ∉ ks := fun hmem => Nat.lt_irrefl _ (hl n.drawn hmem).1
    refine ⟨{ hi with answers := fun m hm hkind => ?_ },
      ⟨⟨fun _ h => h, [], [], rfl, rfl, by simp,
        fun _ r hr hp => ⟨r, hr, RowKept.refl hp⟩⟩, Nat.le_succ _, fun k hk => ?_, fun _ h => .inl h⟩,
      fun k hk => ?_, hnew⟩
    · obtain ⟨k, hk, hans⟩ := hi.answers m hm hkind
      exact ⟨k, Nat.lt_succ_of_lt hk, hans⟩
    · exact update_of_ne (Nat.ne_of_lt hk) ..
    · rcases mem_cons.mp hk with rfl | hold
      · refine ⟨Nat.lt_succ_self _, update_self .., fun m hm hans => ?_⟩
        -- an answer on record is to a nonce drawn before
        obtain ⟨j, hj, -, count, hbody⟩ := hi.answers m hm hans.1
        obtain ⟨-, count', hbody'⟩ := hans
        rw [hbody] at hbody'
        injection hbody' with hnonce
        exact absurd (H.nonceAt_injective hnonce) (Nat.ne_of_lt hj)
      · obtain ⟨hdrawn, howner, hnone⟩ := hl k hold
        exact ⟨Nat.lt_succ_of_lt hdrawn,
          (update_of_ne (Nat.ne_of_lt hdrawn) ..).trans howner, hnone⟩
  refine hdraw.bind fun k => ?_
  refine .of_pure fun hk => ?_
  refine (ask_ensures .sign (holding_stable H t _)).bind fun signed => ?_
  split
  swap
  · exact hsilent k hk
  -- the answer, when there is one, was signed
  have hpost : (authority H).Ensures t (Task.ask (PeerWait.post (H.nonceAt k)) : PeerWork _)
      (Holding H t (k :: ks)) (fun x n => Holding H t (k :: ks) n ∧
        ∀ m count, x = some (some m, count) → m ∈ n.signed) fun _ _ => True := by
    refine .ask (fun x n n' hi hi' hr hl => ⟨holding_stable H t _ n n' hi hi' hr hl.1,
      fun m count hx => signed_stable m n n' hi hi' hr (hl.2 m count hx)⟩) ?_
    intro n x n' hi hl ha
    obtain ⟨rfl, hm⟩ := ha
    exact ⟨hi, Guar.refl t n', hl, hm⟩
  refine hpost.bind fun x => ?_
  match x with
  | none => exact .mono (hsilent k hk) fun _ _ hl => hl.1
  | some (none, _) => exact .mono (hsilent k hk) fun _ _ hl => hl.1
  | some (some m, count) =>
    have hheld : (authority H).Stable t fun n => Holding H t (k :: ks) n ∧ m ∈ n.signed :=
      (holding_stable H t _).and (signed_stable m)
    have hread : (authority H).Ensures t (Task.read fun n : Node =>
        verifyOpen H.config.self (ackExpects peer (H.nonceAt k) count) n.relay.now m.envelope :
          PeerWork _) (fun n => Holding H t (k :: ks) n ∧ m ∈ n.signed)
        (fun opened n => (Holding H t (k :: ks) n ∧ m ∈ n.signed) ∧ (opened = none → ∃ now,
          verifyOpen H.config.self (ackExpects peer (H.nonceAt k) count) now m.envelope = none))
        fun _ _ => True := by
      refine .read (fun opened n n' hi hi' hr hl => ⟨hheld n n' hi hi' hr hl.1, hl.2⟩) ?_
      exact fun n _ hl => ⟨hl, fun hopen => ⟨n.relay.now, hopen⟩⟩
    refine .mono (L := fun n => Holding H t (k :: ks) n ∧ m ∈ n.signed) ?_
      fun n _ hl => ⟨hl.1, hl.2 m count rfl⟩
    refine hread.bind fun opened => ?_
    refine .of_pure fun hopened => ?_
    refine (ask_ensures .verify hheld).bind fun _ => ?_
    split
    · next hchecks =>
      obtain ⟨now, hopen⟩ := hopened hchecks.1
      refine .pure fun n _ hl => ⟨k, ⟨hl.1, fun m' hm' => ?_⟩, hk, fun m' hm' => ?_⟩
      · cases hm'
        exact hl.2
      · cases hm'
        exact ⟨count, now, ack_sender hopen, verified_of_checks hopen hchecks.2⟩
    · exact .mono (hsilent k hk) fun _ _ hl => hl.1

/-! ## §2. The exchanges of a tick -/

/-- What the exchanges end with: a nonce of its own for each, none of them answered yet. -/
def Exchanges (H : Home) (t : Nat) (ks : List Nat)
    (results : List (PeerRow × Option SignedFederationMessage)) (js : List Nat) (n : Node) : Prop :=
  (Holding H t (js ++ ks) n ∧ ∀ r ∈ results, ∀ m, r.2 = some m → m ∈ n.signed) ∧
    (js ++ ks).Nodup ∧ List.Forall₂ (Acked H) results js

theorem beats_ensures (peers : List PeerRow) : ∀ {ks : List Nat}, ks.Nodup →
    (authority H).Ensures t (beats H t peers) (Holding H t ks)
      (fun results n => (∃ js, Exchanges H t ks results js n) ∧ results.map (·.1) = peers)
      fun _ _ => True := by
  induction peers with
  | nil =>
    intro ks hks
    exact .pure fun n _ hl => ⟨⟨[], ⟨hl, fun _ h => absurd h not_mem_nil⟩, hks, .nil⟩, rfl⟩
  | cons peer peers ih =>
    intro ks hks
    refine (beat_ensures peer).bind fun result => .of_exists fun k => ?_
    refine .of_pure fun hpure => ?_
    obtain ⟨hk, hacked⟩ := hpure
    -- the message in hand stays signed while the others are exchanged
    have hsigned : (authority H).Stable t fun n => ∀ m, result = some m → m ∈ n.signed :=
      fun n n' hi hi' hr hl m hm => signed_stable m n n' hi hi' hr (hl m hm)
    have hown : ∀ n n' : Node, (authority H).Inv n → (authority H).Inv n' →
        (authority H).Guar t n n' → (∀ m, result = some m → m ∈ n.signed) →
          ∀ m, result = some m → m ∈ n'.signed :=
      fun n n' _ _ hg hl m hm => hg.caused.signed (hl m hm)
    have hrest := Ensures.frame hown hsigned (ih (nodup_cons.mpr ⟨hk, hks⟩))
    refine (hrest.weaken (fun _ _ _ h => h) fun _ _ _ _ => trivial).bind fun results => ?_
    refine .pure fun n _ hl => ?_
    obtain ⟨⟨⟨js, ⟨hholding, hall⟩, hnodup, hforall⟩, hmap⟩, hm⟩ := hl
    refine ⟨⟨k :: js, ⟨fun j hj => hholding j ?_, fun r hr => ?_⟩, ?_, .cons hacked hforall⟩, ?_⟩
    · rw [mem_append, mem_cons]
      rcases mem_append.mp hj with hmem | hmem
      · rcases mem_cons.mp hmem with rfl | hmem
        · exact .inr (.inl rfl)
        · exact .inl hmem
      · exact .inr (.inr hmem)
    · rcases mem_cons.mp hr with rfl | hr
      · exact hm
      · exact hall r hr
    · exact perm_middle.nodup_iff.mp hnodup
    · rw [map_cons, hmap]

/-! ## §3. The results written -/

theorem settleBeat_step (hi : Inv H n) {r : PeerRow × Option SignedFederationMessage} {k : Nat}
    (hstate : r.1.state = .active ∨ r.1.state = .suspended)
    (hsigned : ∀ m, r.2 = some m → m ∈ n.signed) (hacked : Acked H r k) (hk : Holding H t [k] n) :
    Inv H (settleBeat H.config n r) ∧ Guar H t n (settleBeat H.config n r) ∧
      (settleBeat H.config n r).drawn = n.drawn ∧ (settleBeat H.config n r).owner = n.owner ∧
      (settleBeat H.config n r).signed = n.signed ∧
      ∀ x ∈ (settleBeat H.config n r).effects, x ∈ n.effects ∨ Answers H x k := by
  obtain ⟨hdrawn, howner, hnone⟩ := hk k (mem_singleton.mpr rfl)
  obtain ⟨peer, result⟩ := r
  unfold settleBeat
  cases result with
  | none =>
    dsimp only
    split
    · exact ⟨hi, Guar.refl t n, rfl, rfl, rfl, fun _ h => .inl h⟩
    next peers hwrite =>
    obtain ⟨hinv, hcaused⟩ := hi.observe hwrite (Nat.le_succ _) (missedRow_rank hstate) rfl
    exact ⟨hinv, ⟨hcaused, Nat.le_refl _, fun _ _ => rfl, fun _ h => .inl h⟩, rfl, rfl, rfl,
      fun _ h => .inl h⟩
  | some ack =>
    dsimp only
    split
    · exact ⟨hi, Guar.refl t n, rfl, rfl, rfl, fun _ h => .inl h⟩
    next peers hwrite =>
    obtain ⟨count, checkedAt, hsender, hv⟩ := hacked ack rfl
    have hans : Answers H ack k := ⟨hv.kind, count, hv.body⟩
    have hkind : ack.envelope.kind = .heartbeatAck := hv.kind
    have hauth := ack_authorized hsender hv hwrite
    have hspent : ∀ x ∈ ack :: n.effects, x.envelope.kind ≠ .heartbeatAck →
        Spent { n.relay with peers := peers } x := by
      intro x hx hxkind
      rcases mem_cons.mp hx with rfl | hold
      · exact absurd hkind hxkind
      · exact hi.spent x hold hxkind
    obtain ⟨hinv, hcaused⟩ := hi.message { n.relay with peers := peers } n.lingered hauth
      (hsigned ack rfl) hv.addressed hspent (fun _ => ⟨k, hdrawn, hans⟩)
      fun hl => ⟨hl, fun hmem => hnone ack hmem hans⟩
    rw [hsender] at hinv hcaused
    refine ⟨hinv, ⟨hcaused, Nat.le_refl _, fun _ _ => rfl, fun x hx => ?_⟩, rfl, rfl, rfl, fun x hx => ?_⟩
    · rcases mem_cons.mp hx with rfl | hold
      · -- it answers only the nonce it was checked against
        refine .inr fun j hj => ?_
        obtain ⟨-, count', hbody'⟩ := hj
        obtain ⟨-, count'', hbody''⟩ := hans
        rw [hbody''] at hbody'
        injection hbody' with hnonce
        rw [← H.nonceAt_injective hnonce]
        exact howner
      · exact .inl hold
    · rcases mem_cons.mp hx with rfl | hold
      · exact .inr hans
      · exact .inl hold

/-- **All results written.** -/
theorem settleBeats {results : List (PeerRow × Option SignedFederationMessage)} {js : List Nat}
    (hacked : List.Forall₂ (Acked H) results js) : ∀ {n : Node}, Inv H n →
    (∀ r ∈ results, r.1.state = .active ∨ r.1.state = .suspended) →
    (∀ r ∈ results, ∀ m, r.2 = some m → m ∈ n.signed) → js.Nodup → Holding H t js n →
    Inv H (results.foldl (settleBeat H.config) n) ∧
      Guar H t n (results.foldl (settleBeat H.config) n) ∧
      (results.foldl (settleBeat H.config) n).owner = n.owner := by
  induction hacked with
  | nil => exact fun hi _ _ _ _ => ⟨hi, Guar.refl t _, rfl⟩
  | @cons r k results js hr hrest ih =>
    intro n hi hstates hsigned hnodup hholding
    obtain ⟨hk, hjs⟩ := nodup_cons.mp hnodup
    obtain ⟨hi₁, hg₁, hdrawn₁, howner₁, hsigned₁, heffects₁⟩ := settleBeat_step hi
      (hstates r mem_cons_self) (hsigned r mem_cons_self) hr
      fun j hj => hholding j (mem_singleton.mp hj ▸ mem_cons_self)
    have hholding₁ : Holding H t js (settleBeat H.config n r) := by
      intro j hj
      obtain ⟨hdrawn, howner, hnone⟩ := hholding j (mem_cons_of_mem _ hj)
      refine ⟨hdrawn₁ ▸ hdrawn, howner₁ ▸ howner, fun x hx hans => ?_⟩
      rcases heffects₁ x hx with hold | hother
      · exact hnone x hold hans
      · -- one message answers one nonce
        obtain ⟨-, count, hbody⟩ := hans
        obtain ⟨-, count', hbody'⟩ := hother
        rw [hbody] at hbody'
        injection hbody' with hnonce
        exact hk (H.nonceAt_injective hnonce ▸ hj)
    obtain ⟨hi₂, hg₂, howner₂⟩ := ih hi₁ (fun x hx => hstates x (mem_cons_of_mem _ hx))
      (fun x hx m hm => hsigned₁ ▸ hsigned x (mem_cons_of_mem _ hx) m hm) hjs hholding₁
    exact ⟨hi₂, hg₁.trans hg₂ fun k => congrFun howner₂ k, howner₂.trans howner₁⟩

/-- **A whole tick.** -/
theorem sendHeartbeats_ensures :
    (authority H).Ensures t (sendHeartbeats H t) (fun _ => True) (fun _ _ => True)
      fun _ _ => True := by
  have hread : (authority H).Ensures t (Task.read fun n : Node => heartbeatPeers n.relay :
        PeerWork _) (fun _ => True) (fun peers n => Holding H t [] n ∧
        ∀ r ∈ peers, r.state = .active ∨ r.state = .suspended) fun _ _ => True := by
    refine .read (fun peers n n' hi hi' hr hl => ⟨holding_stable H t _ n n' hi hi' hr hl.1, hl.2⟩) ?_
    refine fun n _ _ => ⟨fun _ h => absurd h not_mem_nil, fun r hr => ?_⟩
    exact of_decide_eq_true (mem_filter.mp hr).2
  refine hread.bind fun peers => .of_pure fun hstates => ?_
  refine (beats_ensures peers nodup_nil).bind fun results => ?_
  refine .of_pure fun hmap => ?_
  have hstates' : ∀ r ∈ results, r.1.state = .active ∨ r.1.state = .suspended :=
    fun r hr => hstates r.1 (hmap ▸ mem_map_of_mem hr)
  refine .act (fun _ => .true) fun n hi hl => ?_
  obtain ⟨js, ⟨hholding, hsigned⟩, hnodup, hacked⟩ := hl
  rw [append_nil] at hholding hnodup
  obtain ⟨hinv, hguar, -⟩ := settleBeats hacked hi hstates' hsigned hnodup hholding
  exact ⟨hinv, hguar, trivial⟩

end Motebit.Peers
