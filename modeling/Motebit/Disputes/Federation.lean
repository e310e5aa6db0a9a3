/-
  Motebit.Disputes.Federation — QUORUM AND ORCHESTRATION of federation verdicts.

  The worker commits a round-2 verdict only with a quorum; the appeal route's own orchestration
  shares its aggregator and commits the below-quorum split too.  An attempt marks its
  orchestration row before it signs and commits the verdict the mark announces, so a failure in
  between leaves the mark without the record.

  Main results: `round2_rests_on_quorum`, `orchestration_follows_record`,
  `appeal_commits_without_quorum`, `mark_outlives_failed_commit`.
-/

import Motebit.Disputes.Money

namespace Motebit.Disputes

open Motebit.Lib List

/-! ## §1. Quorum -/

/-- A quorum of distinct peers cast valid votes for the dispute and round. -/
def QuorumOf (s : Store) (id : String) (round : Round) : Prop :=
  ∃ peers : List String, peers.Nodup ∧ FEDERATION_QUORUM_MIN ≤ peers.length ∧
    ∀ p ∈ peers, ∃ v, v.peerId = p ∧ Cast s v ∧ v.disputeId = id ∧ v.round = round

theorem Tallied.quorumOf {s : Store} {id : String} {round : Round} {o : DisputeOutcome}
    {votes : List AdjudicatorVote} (h : Tallied s id round o votes)
    (hlen : FEDERATION_QUORUM_MIN ≤ votes.length) : QuorumOf s id round := by
  refine ⟨votes.map (·.peerId), h.distinct, by rw [length_map]; exact hlen, fun p hp => ?_⟩
  obtain ⟨v, hv, rfl⟩ := mem_map.mp hp
  exact ⟨v, rfl, h.cast v hv⟩

/-- What the resolutions of disputes the relay is a party to rest on, and the money moved on
    them. -/
structure FederationLaw (R : Relay) (s s' : Store) : Prop where
  /-- A round-2 row has its quorum. -/
  quorum : ∀ id row d, s'.resolutions id .second = some row → getDispute id s' = some d →
    relayIsParty R d = true → QuorumOf s' id .second
  /-- Money moves on a round-2 row only with its quorum. -/
  money : ∀ A, s'.escrow.allocationDisputeRows A ≠ s.escrow.allocationDisputeRows A →
    ∃ d, d.allocationId = A ∧ ToFinal d s s' ∧ (relayIsParty R d = true →
      (s'.resolutions d.disputeId .second).isSome = true → QuorumOf s' d.disputeId .second)
  /-- One vote per peer, and the outcome is their strict plurality or a split. -/
  embedded : ∀ id round row d, s'.resolutions id round = some row → getDispute id s' = some d →
    relayIsParty R d = true → (row.adjudicatorVotes.map (·.peerId)).Nodup ∧
      (StrictPlurality row.adjudicatorVotes row.resolution ∨ row.resolution = .split)

/-- **A federation round 2 rests on a quorum**, in every run in which each fan-out of the appeal
    route itself got one. -/
theorem round2_rests_on_quorum (R : Relay) {c c' : Config Store Wait Heard}
    (hreach : (relay R).Reachable c) (hstep : (relay R).Step c c')
    (hquorate : AppealsQuorate c'.store) : FederationLaw R c.store c'.store := by
  have hinv := (Protocol.sound (verified R) (hreach.step hstep)).1
  have hquorum : ∀ id row d, c'.store.resolutions id .second = some row →
      getDispute id c'.store = some d → relayIsParty R d = true → QuorumOf c'.store id .second := by
    intro id row d hrow hd hparty
    obtain ⟨htallied, hlen⟩ := hinv.tallied id .second row d hrow hd hparty
    exact htallied.quorumOf (hlen rfl hquorate)
  refine ⟨hquorum, fun A hne => ?_, fun id round row d hrow hd hparty => ?_⟩
  · have hlawful := step_lawful hreach hstep
    obtain ⟨-, d, hA, hto, -⟩ := hlawful.rows A hne
    refine ⟨d, hA, hto, fun hparty hsome => ?_⟩
    obtain ⟨row, hrow⟩ := Option.isSome_iff_exists.mp hsome
    obtain ⟨d', hd', hadv⟩ := hlawful.forward.disputes d.disputeId d hto.1
    exact hquorum _ row d' hrow hd' (by rw [hadv.party]; exact hparty)
  · obtain ⟨htallied, -⟩ := hinv.tallied id round row d hrow hd hparty
    exact ⟨htallied.distinct, htallied.outcome⟩

/-! ## §2. Orchestration rows -/

/-- The round-1 row is behind the record: ended with a resolution or without a dispute, else
    waiting for its next attempt. -/
def OrchestrationLaw (s : Store) (id : String) : Prop :=
  ∀ row, getOrchestrationState id .first s = some row →
    (row.status ≠ .inProgress ∧
      ((s.resolutions id .first).isSome = true ∨ getDispute id s = none)) ∨
    row.status = .inProgress ∧ row.nextAttemptAt.isSome = true

/-- **Orchestration state follows the record**, in every run in which no attempt throws or dies
    between its mark and its commit. -/
theorem orchestration_follows_record (R : Relay) {c : Config Store Wait Heard}
    (hreach : (relay R).Reachable c) (hinterrupted : c.store.interrupted = false) {id : String}
    (hidle : ∀ t a, (t, a) ∈ c.store.running → a.disputeId ≠ id) : OrchestrationLaw c.store id := by
  intro row hrow
  have hok := (Protocol.sound (verified R) hreach).1.orchestrations id row hrow
  by_cases hstatus : row.status = .inProgress
  · exact .inr ⟨hstatus, hok.waiting hstatus⟩
  · refine .inl ⟨hstatus, ?_⟩
    rcases hok.ended hstatus with hdecided | ⟨t, hmem⟩ | hint
    · exact .inl hdecided
    · exact absurd rfl (hidle t _ hmem)
    · rw [hinterrupted] at hint
      cases hint

/-! ## §3. A relay that is a party -/

abbrev party : Relay := sampleRelay "worker"

def samplePeers : Keyed String PeerState :=
  ((AList.insert "p" .active ∅).insert "q" .active).insert "r" .active

/-- The sample dispute with three peers to vote. -/
def peered : Store := { heard with peers := samplePeers }

theorem peered_reachable : ∃ c, (relay party).Reachable c ∧ c.store = peered ∧ c.next = 1 := by
  obtain ⟨c, hreach, hstore, hnext⟩ := heard_reachable "worker"
  have hstep := hreach.step (.env c _ (.peers samplePeers))
  rw [hstore] at hstep
  exact ⟨_, hstep, rfl, hnext⟩

/-- Every peer votes for the filer. -/
def allVote (round : Round) (peer : String) : PeerAnswer :=
  .vote ⟨"dispute", round, peer, .upheld, "because", "signature"⟩ true

def noneAnswers (_ : String) : PeerAnswer := .failed

theorem marked_walk :
    ∃ q s', Walk (relay party) (resolve party 1 "dispute" (ruling .upheld)).detach peered q s' ∧
      (getOrchestrationState "dispute" .first s').map (·.status) = some .done ∧
      s'.resolutions "dispute" .first = none ∧ (getDispute "dispute" s').isSome = true ∧
      s'.running = [] :=
  ⟨_, _, .atomic <| .atomic <| .atomic <| .atomic <| .atomic <| .atomic <| .atomic <| .atomic <|
    .atomic <| .atomic <| .atomic <| .await (x := true) rfl <| .await (x := allVote .first) rfl <|
    .atomic <| .atomic <| .atomic <| .atomic <| .atomic <| .atomic <| .atomic <| .atomic <|
    .await (x := none) rfl <| .atomic <| .refl,
    by decide +kernel, by decide +kernel, by decide +kernel, by decide +kernel⟩

/-- **The mark outlives a failed commit**: no attempt is in flight, the row says `done`, and the
    undecided dispute has no resolution. -/
theorem mark_outlives_failed_commit :
    ∃ c, (relay party).Reachable c ∧
      (∀ t a, (t, a) ∈ c.store.running → a.disputeId ≠ "dispute") ∧
      ¬OrchestrationLaw c.store "dispute" := by
  obtain ⟨c, hreach, hstore, hnext⟩ := peered_reachable
  obtain ⟨q, s', hwalk, hdone, hnone, hdispute, hidle⟩ := marked_walk
  rw [← hstore] at hwalk
  obtain ⟨c', hreach', hstore', -⟩ := hwalk.beside hreach (by
    show Entry party c.next _
    rw [hnext]
    exact .resolve "dispute" (ruling .upheld))
  refine ⟨c', hreach', fun t a ha => ?_, fun hlaw => ?_⟩
  · rw [hstore', hidle] at ha
    cases ha
  · rw [hstore'] at hlaw
    obtain ⟨row, hrow, hstatus⟩ := Option.map_eq_some_iff.mp hdone
    rcases hlaw row hrow with ⟨-, hdecided | hgone⟩ | ⟨hwaiting, -⟩
    · rw [hnone] at hdecided
      cases hdecided
    · rw [hgone] at hdispute
      cases hdispute
    · rw [hstatus] at hwaiting
      cases hwaiting

def sampleAppeal : DisputeAppeal := ⟨"dispute", "delegator", EVIDENCE_WINDOW_MS⟩

/-- The peers decide round 1.  On appeal none of them answers, or all of them vote again. -/
theorem decidedByPeers_walks :
    ∃ q s₁, Walk (relay party) (resolve party 1 "dispute" (ruling .upheld)).detach peered q s₁ ∧
      (s₁.interrupted = false ∧ s₁.running = [] ∧
        (getOrchestrationState "dispute" .first s₁).map (·.status) = some .done) ∧
      (∃ q' s₂, Walk (relay party) (appeal party 2 "dispute" sampleAppeal).detach s₁ q' s₂ ∧
        (s₂.resolutions "dispute" .second).isSome = true ∧
        (getDispute "dispute" s₂).map (relayIsParty party) = some true ∧
        ∀ f ∈ s₂.fanouts, f.round = .second → ∀ p ∈ f.contacted, f.answers p = .failed) ∧
      ∃ q' s₂, Walk (relay party) (appeal party 2 "dispute" sampleAppeal).detach s₁ q' s₂ ∧
        (s₂.resolutions "dispute" .second).isSome = true ∧ AppealsQuorate s₂ := by
  refine ⟨_, _, .atomic <| .atomic <| .atomic <| .atomic <| .atomic <| .atomic <| .atomic <| .atomic <|
    .atomic <| .atomic <| .atomic <| .await (x := true) rfl <| .await (x := allVote .first) rfl <|
    .atomic <| .atomic <| .atomic <| .atomic <| .atomic <| .atomic <| .atomic <| .atomic <|
    .await (x := some "signature") rfl <| .await (x := true) rfl <| .atomic <| .atomic <| .refl,
    ⟨by decide +kernel, by decide +kernel, by decide +kernel⟩, ?_, ?_⟩
  · refine ⟨_, _, .atomic <| .atomic <| .atomic <| .await (x := .valid) rfl <| .atomic <|
      .atomic <| .atomic <| .await (x := true) rfl <| .await (x := noneAnswers) rfl <| .atomic <|
      .atomic <| .await (x := some "signature") rfl <| .atomic <| .atomic <| .refl,
      ?_, ?_, ?_⟩
    · decide +kernel
    · decide +kernel
    · decide +kernel
  · refine ⟨_, _, .atomic <| .atomic <| .atomic <| .await (x := .valid) rfl <| .atomic <|
      .atomic <| .atomic <| .await (x := true) rfl <| .await (x := allVote .second) rfl <|
      .atomic <| .atomic <| .atomic <| .atomic <| .atomic <| .await (x := some "signature") rfl <|
      .atomic <| .atomic <| .atomic <| .refl,
      ?_, ?_⟩
    · decide +kernel
    · unfold AppealsQuorate Fanout.Quorum
      decide +kernel

theorem appealed_by_party {s₁ s₂ : Store} {q q' : Prog Store Wait Heard Unit}
    (hdecided : Walk (relay party) (resolve party 1 "dispute" (ruling .upheld)).detach peered q s₁)
    (happealed : Walk (relay party) (appeal party 2 "dispute" sampleAppeal).detach s₁ q' s₂) :
    ∃ c, (relay party).Reachable c ∧ c.store = s₂ := by
  obtain ⟨c, hreach, hstore, hnext⟩ := peered_reachable
  rw [← hstore] at hdecided
  obtain ⟨c₁, hreach₁, hstore₁, -, -, hnext₁⟩ := hdecided.beside hreach (by
    show Entry party c.next _
    rw [hnext]
    exact .resolve "dispute" (ruling .upheld))
  rw [← hstore₁] at happealed
  obtain ⟨c₂, hreach₂, hstore₂, -⟩ := happealed.beside hreach₁ (by
    show Entry party c₁.next _
    rw [hnext₁, hnext]
    exact .appeal "dispute" sampleAppeal)
  exact ⟨c₂, hreach₂, hstore₂⟩

/-- **An appeal commits round 2 without a quorum**: no peer answers, and the split overrides the
    peers' round-1 verdict. -/
theorem appeal_commits_without_quorum :
    ∃ c c', (relay party).Reachable c ∧ (relay party).Step c c' ∧
      ¬FederationLaw party c.store c'.store := by
  obtain ⟨q, s₁, hdecided, -, ⟨q', s₂, happealed, hrow, hparty, hfailed⟩, -⟩ :=
    decidedByPeers_walks
  obtain ⟨c, hreach, hstore⟩ := appealed_by_party hdecided happealed
  refine ⟨c, _, hreach, .env c _ (.freeze false), fun hlaw => ?_⟩
  obtain ⟨row, hrow⟩ := Option.isSome_iff_exists.mp hrow
  obtain ⟨d, hd, hparty⟩ := Option.map_eq_some_iff.mp hparty
  rw [← hstore] at hrow hd hfailed
  obtain ⟨peers, -, hlen, hcast⟩ := hlaw.quorum "dispute" row d hrow hd hparty
  cases peers with
  | nil => cases hlen
  | cons p =>
    obtain ⟨v, rfl, ⟨f, hf, hcontacted, hanswer, -, hround⟩, -, hsecond⟩ :=
      hcast p mem_cons_self
    rw [hfailed f hf (hround.symm.trans hsecond) v.peerId hcontacted] at hanswer
    cases hanswer

theorem round2_rests_on_quorum_voted :
    ∃ c c', (relay party).Reachable c ∧ (relay party).Step c c' ∧
      (c'.store.resolutions "dispute" .second).isSome = true ∧
      FederationLaw party c.store c'.store := by
  obtain ⟨q, s₁, hdecided, -, -, q', s₂, happealed, hrow, hquorate⟩ := decidedByPeers_walks
  obtain ⟨c, hreach, hstore⟩ := appealed_by_party hdecided happealed
  rw [← hstore] at hrow hquorate
  have hstep : (relay party).Step c ⟨{ c.store with frozen := false }, c.thread, c.next⟩ :=
    .env c _ (.freeze false)
  exact ⟨c, _, hreach, hstep, hrow, round2_rests_on_quorum party hreach hstep hquorate⟩

theorem orchestration_follows_record_decided :
    ∃ c, (relay party).Reachable c ∧
      (getOrchestrationState "dispute" .first c.store).map (·.status) = some .done ∧
      OrchestrationLaw c.store "dispute" := by
  obtain ⟨c, hreach, hstore, hnext⟩ := peered_reachable
  obtain ⟨q, s₁, hwalk, ⟨hinterrupted, hidle, hdone⟩, -⟩ := decidedByPeers_walks
  rw [← hstore] at hwalk
  obtain ⟨c', hreach', hstore', -⟩ := hwalk.beside hreach (by
    show Entry party c.next _
    rw [hnext]
    exact .resolve "dispute" (ruling .upheld))
  rw [← hstore'] at hinterrupted hidle hdone
  refine ⟨c', hreach', hdone, orchestration_follows_record party hreach' hinterrupted ?_⟩
  intro t a ha
  rw [hidle] at ha
  cases ha

end Motebit.Disputes
