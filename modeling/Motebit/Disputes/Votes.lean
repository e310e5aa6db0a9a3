/-
  Motebit.Disputes.Votes — WHAT A FEDERATION VERDICT RESTS ON.

  The votes an orchestration aggregates are the persisted ones and the valid answers of the
  peers without one.  The vote table is keyed by peer, a valid answer names the peer it came
  from, and only peers without a persisted vote are asked: so no peer counts twice.

  Main results: `fanout_tallied`.
-/

import Motebit.Disputes.Invariant

namespace Motebit.Disputes

open Motebit.Lib List

variable {R : Relay} {s : Store} {id : String} {round : Round}

/-! ## §1. Peers -/

theorem persistedVotes_distinct (s : Store) (id : String) (round : Round) :
    ((persistedVotes id round s).map (·.peerId)).Nodup := by
  unfold persistedVotes
  rw [map_map]
  refine List.Nodup.map_on ?_ (s.votes.nodupKeys.nodup.sublist filter_sublist)
  intro e he e' he' hpeer
  obtain ⟨hmem, hkey⟩ := mem_filter.mp he
  obtain ⟨hmem', hkey'⟩ := mem_filter.mp he'
  simp only [decide_eq_true_eq] at hkey hkey'
  have hpeer' : e.1.2.2 = e'.1.2.2 := hpeer
  have hfst : e.1 = e'.1 := by
    refine Prod.ext (hkey.1.trans hkey'.1.symm) (Prod.ext (hkey.2.trans hkey'.2.symm) hpeer')
  exact s.votes.nodupKeys.eq_of_fst_eq hmem hmem' hfst

theorem votingPeers_nodup (self : String) (s : Store) : (votingPeers self s).Nodup := by
  have hkeys : (s.peers.entries.map (·.1)).Nodup := s.peers.nodupKeys
  exact hkeys.sublist (filter_sublist.map _)

theorem fetchPeerVote_some {peer : String} {answer : PeerAnswer} {v : AdjudicatorVote}
    (h : fetchPeerVote id round peer answer = some v) :
    v.peerId = peer ∧ v.disputeId = id ∧ v.round = round ∧ answer = .vote v true := by
  unfold fetchPeerVote at h
  cases answer with
  | failed => cases h
  | vote w verified =>
    dsimp only at h
    split at h
    · cases h
    next hbound =>
    split at h
    · cases h
    next hpeer =>
    split at h
    · rename_i hverified
      cases h
      obtain ⟨hid, hround⟩ := not_or.mp hbound
      exact ⟨not_not.mp hpeer, not_not.mp hid, not_not.mp hround, by rw [hverified]⟩
    · cases h

theorem validAnswers_peers (id : String) (round : Round) (contacted : List String)
    (answers : String → PeerAnswer) :
    ((validAnswers id round contacted answers).map (·.peerId)).Sublist contacted := by
  unfold validAnswers
  induction contacted with
  | nil => exact .slnil
  | cons peer rest ih =>
    cases hv : fetchPeerVote id round peer (answers peer) with
    | none =>
      simp only [filterMap_cons, hv]
      exact ih.cons peer
    | some =>
      simp only [filterMap_cons, hv, map_cons, (fetchPeerVote_some hv).1]
      exact ih.cons_cons peer

/-! ## §2. Verdicts -/

theorem persistedVotes_cast (hi : Inv R s) :
    ∀ v ∈ persistedVotes id round s, Cast s v ∧ v.disputeId = id ∧ v.round = round := by
  intro v hv
  obtain ⟨e, he, rfl⟩ := mem_map.mp hv
  obtain ⟨hmem, hkey⟩ := mem_filter.mp he
  simp only [decide_eq_true_eq] at hkey
  exact ⟨hi.votes e.1 e.2 (Keyed.mem_entries.mp hmem), hkey⟩

/-- What an orchestration knows of the votes and peers it read. -/
structure Polled (s : Store) (id : String) (round : Round) (peers : List String)
    (persisted : List AdjudicatorVote) : Prop where
  distinct : (persisted.map (·.peerId)).Nodup
  cast : ∀ v ∈ persisted, Cast s v ∧ v.disputeId = id ∧ v.round = round
  peers : peers.Nodup

variable {persisted : List AdjudicatorVote} {peers : List String}

theorem Polled.mono {s' : Store} (hf : ∀ f ∈ s.fanouts, f ∈ s'.fanouts)
    (h : Polled s id round peers persisted) : Polled s' id round peers persisted :=
  ⟨h.distinct, fun v hv => ⟨(h.cast v hv).1.mono hf, (h.cast v hv).2⟩, h.peers⟩

/-- The peers asked: those without a persisted vote. -/
abbrev unpolled (peers : List String) (persisted : List AdjudicatorVote) : List String :=
  peers.filter fun p => p ∉ persisted.map (·.peerId)

variable {answers : String → PeerAnswer}

theorem validAnswers_cast {door : Door} {contacted : List String}
    (hmem : (⟨door, id, round, persisted, contacted, answers⟩ : Fanout) ∈ s.fanouts) :
    ∀ v ∈ validAnswers id round contacted answers,
      Cast s v ∧ v.disputeId = id ∧ v.round = round := by
  intro v hv
  obtain ⟨peer, hpeer, hfetch⟩ := mem_filterMap.mp hv
  obtain ⟨rfl, hid, hround, hanswer⟩ := fetchPeerVote_some hfetch
  exact ⟨⟨_, hmem, hpeer, hanswer, hid, hround⟩, hid, hround⟩

/-- **A verdict on the persisted votes and the answers to a fan-out.** -/
theorem fanout_tallied {door : Door} (hpolled : Polled s id round peers persisted)
    (hmem : (⟨door, id, round, persisted, unpolled peers persisted, answers⟩ : Fanout) ∈
      s.fanouts) (attempted : Nat) (role : Option FilerRole) :
    let votes := persisted ++ validAnswers id round (unpolled peers persisted) answers
    Tallied s id round (aggregateVotes votes attempted role).resolution
      (aggregateVotes votes attempted role).adjudicatorVotes := by
  intro votes
  rw [aggregateVotes_votes]
  have hsub := validAnswers_peers id round (unpolled peers persisted) answers
  refine ⟨?_, fun v hv => ?_, aggregateVotes_outcome votes attempted role⟩
  · rw [map_append]
    refine hpolled.distinct.append ((hpolled.peers.sublist filter_sublist).sublist hsub) ?_
    -- an answering peer was asked because it had no persisted vote
    intro peer hold hnew
    have hasked := (mem_filter.mp (hsub.subset hnew)).2
    simp only [decide_eq_true_eq] at hasked
    exact hasked hold
  · rcases mem_append.mp hv with hold | hnew
    · exact hpolled.cast v hold
    · exact validAnswers_cast hmem v hnew

theorem fanout_quorate
    (hmem : (⟨.appeal, id, round, persisted, unpolled peers persisted, answers⟩ : Fanout) ∈
      s.fanouts) :
    Quorate s round (persisted ++ validAnswers id round (unpolled peers persisted) answers) := by
  intro _ hq
  rw [length_append]
  exact hq _ hmem rfl

end Motebit.Disputes
