/-
  Motebit.Disputes.Invariant — WHAT EVERY STEP OF A DISPUTE KEEPS.

  A dispute only moves forward; its round-1 row is there exactly from `resolved` on and its
  round-2 row only from `appealed` on.  A round-2 row may be replaced, and the history says
  over which row each one was written: what depends on the replaced row is said under
  `Unreplaced`.  Likewise what depends on the tally of an inline appeal is said under
  `AppealsQuorate`, and what depends on every marked attempt reaching its commit under
  `interrupted`.

  Main results: `Forward`, `Inv.frame`, `Inv.advance`, `Inv.round2`, `Inv.fund`.
-/

import Motebit.Disputes.Routes

namespace Motebit.Disputes

open Motebit.Lib List
open Motebit.Accounts (DisputeState)

/-! ## §1. The order of states -/

/-- How far a dispute has come. -/
def rank : DisputeState → Nat
  | .opened => 0
  | .evidence => 1
  | .arbitration => 2
  | .resolved => 3
  | .appealed => 4
  | .final => 5
  | .expired => 6

/-- On the way from `evidence` to `final`. -/
def Live (st : DisputeState) : Prop := 1 ≤ rank st ∧ rank st ≤ 5

theorem final_of_rank {st : DisputeState} (hlive : Live st) (h : 5 ≤ rank st) : st = .final := by
  obtain ⟨-, hle⟩ := hlive
  cases st with
  | final => rfl
  | opened | evidence | arbitration | resolved | appealed => simp [rank] at h
  | expired => simp [rank] at hle

/-- `d'` is `d`, as far on or further, with the columns no statement writes. -/
structure Advance (d d' : Dispute) : Prop where
  disputeId : d'.disputeId = d.disputeId
  allocationId : d'.allocationId = d.allocationId
  filedBy : d'.filedBy = d.filedBy
  respondent : d'.respondent = d.respondent
  rank : rank d.state ≤ rank d'.state

theorem Advance.refl (d : Dispute) : Advance d d := ⟨rfl, rfl, rfl, rfl, Nat.le_refl _⟩

theorem Advance.trans {d₁ d₂ d₃ : Dispute} (h : Advance d₁ d₂) (h' : Advance d₂ d₃) :
    Advance d₁ d₃ where
  disputeId := h'.disputeId.trans h.disputeId
  allocationId := h'.allocationId.trans h.allocationId
  filedBy := h'.filedBy.trans h.filedBy
  respondent := h'.respondent.trans h.respondent
  rank := Nat.le_trans h.rank h'.rank

variable {d d' : Dispute} {s s' : Store}

theorem Advance.party (h : Advance d d') (R : Relay) : relayIsParty R d' = relayIsParty R d := by
  unfold relayIsParty
  rw [h.filedBy, h.respondent]

/-! ## §2. What the history says -/

def SameVerdict (row row' : DisputeResolution) : Prop :=
  row.resolution = row'.resolution ∧ row.money = row'.money

theorem SameVerdict.trans {r₁ r₂ r₃ : DisputeResolution} (h : SameVerdict r₁ r₂)
    (h' : SameVerdict r₂ r₃) : SameVerdict r₁ r₃ := ⟨h.1.trans h'.1, h.2.trans h'.2⟩

/-- No round-2 row was written over a different verdict. -/
def Unreplaced (s : Store) : Prop :=
  ∀ w ∈ s.round2Writes, ∀ row, w.found = some row → SameVerdict w.written row

/-- The votes persisted before the fan-out and the valid answers to it make a quorum. -/
def Fanout.Quorum (f : Fanout) : Prop :=
  FEDERATION_QUORUM_MIN ≤
    f.persisted.length + (validAnswers f.disputeId f.round f.contacted f.answers).length

/-- Every fan-out the appeal route ran itself got its quorum. -/
def AppealsQuorate (s : Store) : Prop := ∀ f ∈ s.fanouts, f.door = .appeal → f.Quorum

/-- The vote is a verified answer of the peer it names to a request for its dispute and
    round. -/
def Cast (s : Store) (v : AdjudicatorVote) : Prop :=
  ∃ f ∈ s.fanouts, v.peerId ∈ f.contacted ∧ f.answers v.peerId = .vote v true ∧
    v.disputeId = f.disputeId ∧ v.round = f.round

/-- What a federation verdict of a round rests on. -/
structure Tallied (s : Store) (disputeId : String) (round : Round) (resolution : DisputeOutcome)
    (votes : List AdjudicatorVote) : Prop where
  distinct : (votes.map (·.peerId)).Nodup
  cast : ∀ v ∈ votes, Cast s v ∧ v.disputeId = disputeId ∧ v.round = round
  outcome : StrictPlurality votes resolution ∨ resolution = .split

/-- A round-2 verdict has its quorum, if every inline appeal had. -/
def Quorate (s : Store) (round : Round) (votes : List AdjudicatorVote) : Prop :=
  round = .second → AppealsQuorate s → FEDERATION_QUORUM_MIN ≤ votes.length

/-- A marked attempt is still on its way to its commit, or one was interrupted there. -/
def Unsettled (s : Store) (disputeId : String) : Prop :=
  (∃ t, (t, (⟨disputeId, true⟩ : Attempt)) ∈ s.running) ∨ s.interrupted = true

/-! ## §3. What every step does -/

structure Forward (s s' : Store) : Prop where
  disputes : ∀ id d, getDispute id s = some d → ∃ d', getDispute id s' = some d' ∧ Advance d d'
  first : ∀ id row, s.resolutions id .first = some row → s'.resolutions id .first = some row
  second : ∀ id row, s.resolutions id .second = some row →
    ∃ row', s'.resolutions id .second = some row' ∧ (Unreplaced s' → SameVerdict row' row)
  writes : ∀ w ∈ s.round2Writes, w ∈ s'.round2Writes
  fanouts : ∀ f ∈ s.fanouts, f ∈ s'.fanouts
  orchestrations : ∀ id round, (getOrchestrationState id round s).isSome →
    (getOrchestrationState id round s').isSome

theorem Forward.of_eq (hd : s'.disputes = s.disputes) (hr : s'.resolutions = s.resolutions)
    (hw : ∀ w ∈ s.round2Writes, w ∈ s'.round2Writes) (hf : ∀ f ∈ s.fanouts, f ∈ s'.fanouts)
    (ho : s'.orchestrations = s.orchestrations) : Forward s s' where
  disputes id d h := by
    refine ⟨d, ?_, .refl d⟩
    unfold getDispute at h ⊢
    rw [hd]
    exact h
  first id row h := by rw [hr]; exact h
  second id row h := by
    rw [hr]
    exact ⟨row, h, fun _ => ⟨rfl, rfl⟩⟩
  writes := hw
  fanouts := hf
  orchestrations id round h := by
    unfold getOrchestrationState at h ⊢
    rw [ho]
    exact h

theorem Forward.refl (s : Store) : Forward s s :=
  .of_eq rfl rfl (fun _ h => h) (fun _ h => h) rfl

theorem Forward.unreplaced (h : Forward s s') (hu : Unreplaced s') :
    Unreplaced s := fun w hw => hu w (h.writes w hw)

theorem Forward.trans {s₁ s₂ s₃ : Store} (h : Forward s₁ s₂) (h' : Forward s₂ s₃) :
    Forward s₁ s₃ where
  disputes id d hd := by
    obtain ⟨d₂, hd₂, hadv⟩ := h.disputes id d hd
    obtain ⟨d₃, hd₃, hadv'⟩ := h'.disputes id d₂ hd₂
    exact ⟨d₃, hd₃, hadv.trans hadv'⟩
  first id row hr := h'.first id row (h.first id row hr)
  second id row hr := by
    obtain ⟨row₂, hr₂, hsame⟩ := h.second id row hr
    obtain ⟨row₃, hr₃, hsame'⟩ := h'.second id row₂ hr₂
    exact ⟨row₃, hr₃, fun hu => (hsame' hu).trans (hsame (h'.unreplaced hu))⟩
  writes w hw := h'.writes w (h.writes w hw)
  fanouts f hf := h'.fanouts f (h.fanouts f hf)
  orchestrations id round ho := h'.orchestrations id round (h.orchestrations id round ho)

section

variable (hf : ∀ f ∈ s.fanouts, f ∈ s'.fanouts)
include hf

theorem Cast.mono {v : AdjudicatorVote} (h : Cast s v) : Cast s' v := by
  obtain ⟨f, hmem, hrest⟩ := h
  exact ⟨f, hf f hmem, hrest⟩

variable {votes : List AdjudicatorVote}

theorem Tallied.mono {id : String} {round : Round}
    {o : DisputeOutcome} (h : Tallied s id round o votes) : Tallied s' id round o votes :=
  ⟨h.distinct, fun v hv => ⟨(h.cast v hv).1.mono hf, (h.cast v hv).2⟩, h.outcome⟩

theorem Quorate.mono {round : Round} (h : Quorate s round votes) : Quorate s' round votes :=
  fun hr hq => h hr fun f hmem => hq f (hf f hmem)

end

theorem Forward.put (hd : getDispute d.disputeId s = some d) (hadv : Advance d d') :
    Forward s (s.putDispute d') where
  disputes id x hx := by
    rw [getDispute_put]
    split
    · next heq =>
        rw [heq, hadv.disputeId, hd] at hx
        cases hx
        exact ⟨d', rfl, hadv⟩
    · exact ⟨x, hx, .refl x⟩
  first _ _ h := h
  second _ row h := ⟨row, h, fun _ => ⟨rfl, rfl⟩⟩
  writes _ h := h
  fanouts _ h := h
  orchestrations _ _ h := h

theorem Forward.insertRound2 (s : Store) (disputeId : String) (row : DisputeResolution) :
    Forward s (insertRound2 disputeId row s) where
  disputes _ d h := ⟨d, h, .refl d⟩
  first id r h := by
    show (s.putResolution disputeId .second row).resolutions id .first = some r
    rw [resolutions_put, if_neg fun hne => by cases hne.2]
    exact h
  second id r h := by
    show ∃ row', (s.putResolution disputeId .second row).resolutions id .second = some row' ∧ _
    rw [resolutions_put]
    by_cases heq : id = disputeId
    · subst heq
      rw [if_pos ⟨rfl, rfl⟩]
      exact ⟨row, rfl, fun hu => hu ⟨id, s.resolutions id .second, row⟩ mem_cons_self r h⟩
    · rw [if_neg fun hand => heq hand.1]
      exact ⟨r, h, fun _ => ⟨rfl, rfl⟩⟩
  writes _ h := mem_cons_of_mem _ h
  fanouts _ h := h
  orchestrations _ _ h := h

/-! ## §4. The invariant -/

/-- A round-1 orchestration row: it waits for its next attempt, or its verdict is recorded or
    on its way. -/
structure OrchestrationOk (s : Store) (id : String) (row : OrchestrationRow) : Prop where
  known : ∃ d, getDispute id s = some d
  waiting : row.status = .inProgress → row.nextAttemptAt.isSome
  ended : row.status ≠ .inProgress → (s.resolutions id .first).isSome ∨ Unsettled s id

structure Inv (R : Relay) (s : Store) : Prop where
  keyed : ∀ id d, getDispute id s = some d → d.disputeId = id ∧ Live d.state
  first : ∀ id, (s.resolutions id .first).isSome ↔
    ∃ d, getDispute id s = some d ∧ 3 ≤ rank d.state
  second : ∀ id row, s.resolutions id .second = some row →
    ∃ d, getDispute id s = some d ∧ 4 ≤ rank d.state
  votes : ∀ key row, s.votes.lookup key = some row →
    Cast s ⟨key.1, key.2.1, key.2.2, row.vote, row.rationale, row.signature⟩
  tallied : ∀ id round row d, s.resolutions id round = some row → getDispute id s = some d →
    relayIsParty R d = true → Tallied s id round row.resolution row.adjudicatorVotes ∧
      Quorate s round row.adjudicatorVotes
  orchestrations : ∀ id row, getOrchestrationState id .first s = some row →
    OrchestrationOk s id row

variable {R : Relay}

theorem inv_empty (now : Nat) : Inv R (Store.empty now) where
  keyed id d h := by cases h
  first id := by
    constructor
    · nofun
    · rintro ⟨d, h, -⟩
      cases h
  second id row h := by cases h
  votes key row h := by cases h
  tallied id round row d h := by cases h
  orchestrations id row h := by cases h

section

variable (hi : Inv R s)
include hi

theorem Inv.backed (hf : ∀ f ∈ s.fanouts, f ∈ s'.fanouts) {id : String} {round : Round}
    {row : DisputeResolution} (h : s.resolutions id round = some row)
    (hd : getDispute id s = some d) (hp : relayIsParty R d = true) :
    Tallied s' id round row.resolution row.adjudicatorVotes ∧ Quorate s' round row.adjudicatorVotes :=
  (hi.tallied id round row d h hd hp).imp (·.mono hf) (·.mono hf)

/-- **A step that touches none of the dispute tables.** -/
theorem Inv.frame (hd : s'.disputes = s.disputes)
    (hr : s'.resolutions = s.resolutions) (hv : s'.votes = s.votes)
    (ho : s'.orchestrations = s.orchestrations) (hf : ∀ f ∈ s.fanouts, f ∈ s'.fanouts)
    (hun : ∀ id, Unsettled s id → Unsettled s' id ∨ (s'.resolutions id .first).isSome) :
    Inv R s' := by
  have hget : ∀ id, getDispute id s' = getDispute id s := fun id => by
    unfold getDispute
    rw [hd]
  refine ⟨?_, ?_, ?_, ?_, ?_, ?_⟩
  · intro id d h
    rw [hget] at h
    exact hi.keyed id d h
  · intro id
    rw [hr]
    simp only [hget]
    exact hi.first id
  · intro id row h
    rw [hr] at h
    simp only [hget]
    exact hi.second id row h
  · intro key row h
    rw [hv] at h
    exact (hi.votes key row h).mono hf
  · intro id round row d h hdisp hp
    rw [hr] at h
    rw [hget] at hdisp
    exact hi.backed hf h hdisp hp
  · intro id row h
    have h' : getOrchestrationState id .first s = some row := by
      unfold getOrchestrationState at h ⊢
      rwa [ho] at h
    have hok := hi.orchestrations id row h'
    refine ⟨?_, hok.waiting, fun hne => ?_⟩
    · simp only [hget]
      exact hok.known
    · rcases hok.ended hne with hrow | huns
      · exact .inl (by rw [hr]; exact hrow)
      · exact (hun id huns).symm

/-- **A dispute's row moves on**, on the same side of `resolved`. -/
theorem Inv.advance (hd : getDispute d.disputeId s = some d) (hadv : Advance d d')
    (hlive : Live d'.state) (hside : 3 ≤ rank d'.state → 3 ≤ rank d.state) :
    Inv R (s.putDispute d') := by
  have hput : ∀ id, getDispute id (s.putDispute d') =
      if id = d.disputeId then some d' else getDispute id s := fun id => by
    rw [getDispute_put, hadv.disputeId]
  have hf : ∀ f ∈ s.fanouts, f ∈ (s.putDispute d').fanouts := fun _ h => h
  refine ⟨?_, ?_, ?_, hi.votes, ?_, ?_⟩
  · intro id x hx
    rw [hput] at hx
    rcases ite_eq_iff.mp hx with ⟨heq, ⟨⟩⟩ | ⟨-, hx⟩
    · exact ⟨hadv.disputeId.trans heq.symm, hlive⟩
    · exact hi.keyed id x hx
  · intro id
    show (s.resolutions id .first).isSome ↔ _
    rw [hi.first id]
    by_cases heq : id = d.disputeId
    · subst heq
      constructor
      · rintro ⟨x, hx, hrank⟩
        rw [hd] at hx
        cases hx
        exact ⟨d', by rw [hput, if_pos rfl], Nat.le_trans hrank hadv.rank⟩
      · rintro ⟨x, hx, hrank⟩
        rw [hput, if_pos rfl] at hx
        cases hx
        exact ⟨d, hd, hside hrank⟩
    · simp only [hput, if_neg heq]
  · intro id row h
    obtain ⟨x, hx, hrank⟩ := hi.second id row h
    by_cases heq : id = d.disputeId
    · subst heq
      rw [hd] at hx
      cases hx
      exact ⟨d', by rw [hput, if_pos rfl], Nat.le_trans hrank hadv.rank⟩
    · exact ⟨x, by rw [hput, if_neg heq]; exact hx, hrank⟩
  · intro id round row x h hx hp
    rw [hput] at hx
    rcases ite_eq_iff.mp hx with ⟨heq, ⟨⟩⟩ | ⟨-, hx⟩
    · rw [hadv.party R] at hp
      exact hi.backed hf h (heq ▸ hd) hp
    · exact hi.backed hf h hx hp
  · intro id row h
    obtain ⟨⟨x, hx⟩, hwait, hended⟩ := hi.orchestrations id row h
    refine ⟨?_, hwait, hended⟩
    by_cases heq : id = d.disputeId
    · exact ⟨d', by rw [hput, if_pos heq]⟩
    · exact ⟨x, by rw [hput, if_neg heq]; exact hx⟩

variable {row : DisputeResolution}

/-- **A round-2 verdict is written** for a dispute at least appealed. -/
theorem Inv.round2 (hd : getDispute d.disputeId s = some d)
    (hrank : 4 ≤ rank d.state) (htal : relayIsParty R d = true →
      Tallied s d.disputeId .second row.resolution row.adjudicatorVotes ∧
        Quorate s .second row.adjudicatorVotes) : Inv R (insertRound2 d.disputeId row s) := by
  have hrows : ∀ id round, (insertRound2 d.disputeId row s).resolutions id round =
      if id = d.disputeId ∧ round = .second then some row else s.resolutions id round :=
    fun id round => resolutions_put s d.disputeId .second row id round
  have hf : ∀ f ∈ s.fanouts, f ∈ (insertRound2 d.disputeId row s).fanouts := fun _ h => h
  refine ⟨hi.keyed, ?_, ?_, hi.votes, ?_, ?_⟩
  · intro id
    rw [hrows, if_neg fun h => by cases h.2]
    exact hi.first id
  · intro id r h
    rw [hrows] at h
    by_cases heq : id = d.disputeId ∧ Round.second = .second
    · rw [heq.1]
      exact ⟨d, hd, hrank⟩
    · rw [if_neg heq] at h
      exact hi.second id r h
  · intro id round r x h hx hp
    rw [hrows] at h
    rcases ite_eq_iff.mp h with ⟨⟨rfl, rfl⟩, ⟨⟩⟩ | ⟨-, h⟩
    · cases hd.symm.trans hx
      exact (htal hp).imp (·.mono hf) (·.mono hf)
    · exact hi.backed hf h hx hp
  · intro id r h
    obtain ⟨hknown, hwait, hended⟩ := hi.orchestrations id r h
    refine ⟨hknown, hwait, fun hne => ?_⟩
    rw [hrows, if_neg fun h => by cases h.2]
    exact hended hne

/-- **What a fund action leaves alone**: at most the marker of its dispute changes. -/
theorem Inv.fund {id : String} (h : FundFrame id s s') : Inv R s' ∧ Forward s s' := by
  obtain ⟨hdisputes, hr, hv, ho, hw, hf, hrun, hint, -, -⟩ := h
  have hfan : ∀ f ∈ s.fanouts, f ∈ s'.fanouts := fun f hmem => by rw [hf]; exact hmem
  have hwr : ∀ w ∈ s.round2Writes, w ∈ s'.round2Writes := fun w hmem => by rw [hw]; exact hmem
  have hun : ∀ id, Unsettled s id → Unsettled s' id ∨ (s'.resolutions id .first).isSome := by
    intro id hu
    refine .inl ?_
    unfold Unsettled at hu ⊢
    rw [hrun, hint]
    exact hu
  -- the marker alone: the row is put back with the same state and parties
  have hmarked : ∀ reason, Inv R (recordFundRefusal id reason s) ∧
      Forward s (recordFundRefusal id reason s) := by
    intro reason
    unfold recordFundRefusal
    cases hm : moveDispute id (fun _ => true) (fun d => { d with fundRefusal := reason }) s with
    | none => exact ⟨hi, .refl s⟩
    | some =>
      obtain ⟨d, hd, -, rfl⟩ := moveDispute_some hm
      obtain ⟨rfl, hlive⟩ := hi.keyed id d hd
      have hadv : Advance d { d with fundRefusal := reason } :=
        ⟨rfl, rfl, rfl, rfl, Nat.le_refl _⟩
      exact ⟨hi.advance hd hadv hlive fun h => h, .put hd hadv⟩
  rcases hdisputes with hd | ⟨reason, hd⟩
  · exact ⟨hi.frame hd hr hv ho hfan hun, .of_eq hd hr hwr hfan ho⟩
  · obtain ⟨hinv, hfwd⟩ := hmarked reason
    rw [recordFundRefusal_eq] at hinv hfwd
    refine ⟨hinv.frame hd hr hv ho hfan hun, hfwd.trans (.of_eq hd hr hwr hfan ho)⟩

/-- **A dispute is filed**, under an id no dispute has. -/
theorem Inv.filed (hnone : getDispute d.disputeId s = none)
    (hstate : d.state = .evidence) (status : String → AllocationStatus) :
    Inv R { s.putDispute d with allocationStatus := status } ∧
      Forward s { s.putDispute d with allocationStatus := status } := by
  have hput : ∀ id, getDispute id { s.putDispute d with allocationStatus := status } =
      if id = d.disputeId then some d else getDispute id s := getDispute_put s d
  have hother : ∀ id x, getDispute id s = some x →
      getDispute id { s.putDispute d with allocationStatus := status } = some x := by
    intro id x hx
    rw [hput, if_neg fun heq => by rw [heq, hnone] at hx; cases hx]
    exact hx
  have hf : ∀ f ∈ s.fanouts, f ∈ Store.fanouts { s.putDispute d with allocationStatus := status } :=
    fun _ h => h
  refine ⟨⟨?_, ?_, ?_, hi.votes, ?_, ?_⟩, ⟨?_, fun _ _ h => h, ?_, fun _ h => h, hf, fun _ _ h => h⟩⟩
  · intro id x hx
    rw [hput] at hx
    rcases ite_eq_iff.mp hx with ⟨heq, ⟨⟩⟩ | ⟨-, hx⟩
    · rw [hstate]
      exact ⟨heq.symm, by decide, by decide⟩
    · exact hi.keyed id x hx
  · intro id
    show (s.resolutions id .first).isSome ↔ _
    rw [hi.first id]
    constructor
    · rintro ⟨x, hx, hrank⟩
      exact ⟨x, hother id x hx, hrank⟩
    · rintro ⟨x, hx, hrank⟩
      rw [hput] at hx
      rcases ite_eq_iff.mp hx with ⟨-, ⟨⟩⟩ | ⟨-, hx⟩
      · rw [hstate] at hrank
        exact absurd hrank (by decide)
      · exact ⟨x, hx, hrank⟩
  · intro id row h
    obtain ⟨x, hx, hrank⟩ := hi.second id row h
    exact ⟨x, hother id x hx, hrank⟩
  · intro id round row x h hx hp
    have hold : getDispute id s = some x := by
      rw [hput] at hx
      rcases ite_eq_iff.mp hx with ⟨heq, -⟩ | ⟨-, hx⟩
      · -- a resolution row has a dispute, and this id had none
        have hsome : ∃ y, getDispute id s = some y := by
          cases round with
          | first =>
            obtain ⟨y, hy, -⟩ := (hi.first id).mp (Option.isSome_iff_exists.mpr ⟨row, h⟩)
            exact ⟨y, hy⟩
          | second =>
            obtain ⟨y, hy, -⟩ := hi.second id row h
            exact ⟨y, hy⟩
        obtain ⟨y, hy⟩ := hsome
        rw [heq, hnone] at hy
        cases hy
      · exact hx
    exact hi.backed hf h hold hp
  · intro id row h
    obtain ⟨⟨x, hx⟩, hwait, hended⟩ := hi.orchestrations id row h
    exact ⟨⟨x, hother id x hx⟩, hwait, hended⟩
  · intro id x hx
    exact ⟨x, hother id x hx, .refl x⟩
  · intro id row h
    exact ⟨row, h, fun _ => ⟨rfl, rfl⟩⟩

/-- **A round-1 verdict is recorded** with the move to `resolved`. -/
theorem Inv.round1 (hd : getDispute d.disputeId s = some d)
    (hrank : rank d.state ≤ 3) (hnone : s.resolutions d.disputeId .first = none)
    (htal : relayIsParty R d = true →
      Tallied s d.disputeId .first row.resolution row.adjudicatorVotes) :
    Inv R ((s.putDispute (d.resolved row)).putResolution d.disputeId .first row) ∧
      Forward s ((s.putDispute (d.resolved row)).putResolution d.disputeId .first row) := by
  set s' := (s.putDispute (d.resolved row)).putResolution d.disputeId .first row with hs'
  have hput : ∀ id, getDispute id s' =
      if id = d.disputeId then some (d.resolved row) else getDispute id s :=
    getDispute_put s (d.resolved row)
  have hrows : ∀ id round, s'.resolutions id round =
      if id = d.disputeId ∧ round = .first then some row else s.resolutions id round :=
    fun id round => resolutions_put (s.putDispute (d.resolved row)) d.disputeId .first row id round
  have hadv : Advance d (d.resolved row) := ⟨rfl, rfl, rfl, rfl, hrank⟩
  have hf : ∀ f ∈ s.fanouts, f ∈ s'.fanouts := fun _ h => h
  refine ⟨⟨?_, ?_, ?_, hi.votes, ?_, ?_⟩, ⟨?_, ?_, ?_, fun _ h => h, hf, fun _ _ h => h⟩⟩
  · intro id x hx
    rw [hput] at hx
    rcases ite_eq_iff.mp hx with ⟨heq, ⟨⟩⟩ | ⟨-, hx⟩
    · exact ⟨heq.symm, (show 1 ≤ 3 by decide), (show 3 ≤ 5 by decide)⟩
    · exact hi.keyed id x hx
  · intro id
    rw [hrows, hput]
    by_cases heq : id = d.disputeId
    · rw [if_pos ⟨heq, rfl⟩, if_pos heq]
      exact ⟨fun _ => ⟨_, rfl, Nat.le_refl 3⟩, fun _ => rfl⟩
    · rw [if_neg fun h => heq h.1, if_neg heq]
      exact hi.first id
  · intro id r h
    rw [hrows, if_neg fun h => by cases h.2] at h
    obtain ⟨x, hx, hrank'⟩ := hi.second id r h
    refine ⟨x, ?_, hrank'⟩
    rw [hput, if_neg fun heq => ?_]
    · exact hx
    · rw [heq, hd] at hx
      cases hx
      exact absurd (Nat.le_trans hrank' hrank) (by decide)
  · intro id round r x h hx hp
    rw [hrows] at h
    rw [hput] at hx
    by_cases heq : id = d.disputeId
    · rw [if_pos heq] at hx
      cases hx
      have hpd : relayIsParty R d = true := hp
      by_cases hround : round = .first
      · rw [if_pos ⟨heq, hround⟩] at h
        cases h
        subst heq hround
        refine ⟨(htal hpd).mono hf, fun hsecond => ?_⟩
        cases hsecond
      · rw [if_neg fun h => hround h.2] at h
        exact hi.backed hf h (heq ▸ hd) hpd
    · rw [if_neg fun h => heq h.1] at h
      rw [if_neg heq] at hx
      exact hi.backed hf h hx hp
  · intro id r h
    obtain ⟨⟨x, hx⟩, hwait, hended⟩ := hi.orchestrations id r h
    refine ⟨?_, hwait, fun hne => ?_⟩
    · rw [hput]
      split
      · exact ⟨_, rfl⟩
      · exact ⟨x, hx⟩
    · rw [hrows]
      split
      · exact .inl rfl
      · exact hended hne
  · intro id x hx
    rw [hput]
    by_cases heq : id = d.disputeId
    · rw [heq, hd] at hx
      cases hx
      rw [if_pos heq]
      exact ⟨_, rfl, hadv⟩
    · rw [if_neg heq]
      exact ⟨x, hx, .refl x⟩
  · intro id r h
    rw [hrows, if_neg fun hand => ?_]
    · exact h
    · rw [hand.1, hnone] at h
      cases h
  · intro id r h
    rw [hrows, if_neg fun h => by cases h.2]
    exact ⟨r, h, fun _ => ⟨rfl, rfl⟩⟩

theorem Inv.vote {v : AdjudicatorVote} (hcast : Cast s v) : Inv R (insertVote v s) where
  __ := hi
  votes key row h := by
    by_cases heq : key = (v.disputeId, v.round, v.peerId)
    · subst heq
      rw [show (insertVote v s).votes.lookup (v.disputeId, v.round, v.peerId) =
        some ⟨v.vote, v.rationale, v.signature⟩ from AList.lookup_insert s.votes] at h
      cases h
      exact hcast
    · rw [show (insertVote v s).votes.lookup key = s.votes.lookup key from
        AList.lookup_insert_ne heq] at h
      exact hi.votes key row h
  tallied id round row d h hd hp := by
    refine hi.backed ?_ h hd hp
    exact fun _ h => h
  orchestrations id row h := by
    obtain ⟨hknown, hwait, hended⟩ := hi.orchestrations id row h
    exact ⟨hknown, hwait, hended⟩

end

/-! ## §5. Orchestrations and attempts -/

theorem Forward.orchestration (s : Store) (id : String) (round : Round)
    (row : OrchestrationRow) : Forward s (s.putOrchestration id round row) where
  disputes _ d h := ⟨d, h, .refl d⟩
  first _ _ h := h
  second _ row h := ⟨row, h, fun _ => ⟨rfl, rfl⟩⟩
  writes _ h := h
  fanouts _ h := h
  orchestrations id' round' h := by
    rw [getOrchestrationState_put]
    split
    · rfl
    · exact h

theorem Inv.orchestration (hi : Inv R s) {id : String} {round : Round} {row : OrchestrationRow}
    (hrow : round = .first → OrchestrationOk s id row) :
    Inv R (s.putOrchestration id round row) where
  __ := hi
  tallied id' round' r d h hd hp := by
    refine hi.backed ?_ h hd hp
    exact fun _ h => h
  orchestrations id' r h := by
    rw [getOrchestrationState_put] at h
    rcases ite_eq_iff.mp h with ⟨⟨rfl, hround⟩, ⟨⟩⟩ | ⟨-, h⟩
    · obtain ⟨hknown, hwait, hended⟩ := hrow hround.symm
      exact ⟨hknown, hwait, hended⟩
    · obtain ⟨hknown, hwait, hended⟩ := hi.orchestrations id' r h
      exact ⟨hknown, hwait, hended⟩

variable {set : OrchestrationRow → OrchestrationRow}

theorem Inv.reattempt (hi : Inv R s) (id : String) (round : Round)
    (hstatus : ∀ row, (set row).status = row.status)
    (hnext : ∀ row, (set row).nextAttemptAt.isSome) : Inv R (updateOrchestration id round set s) ∧
      Forward s (updateOrchestration id round set s) := by
  unfold updateOrchestration
  split
  · exact ⟨hi, .refl s⟩
  · rename_i row hrow
    refine ⟨hi.orchestration fun hround => ?_, .orchestration s id round _⟩
    subst hround
    obtain ⟨hknown, -, hended⟩ := hi.orchestrations id row hrow
    refine ⟨hknown, fun _ => hnext row, fun hne => hended ?_⟩
    rwa [hstatus] at hne

theorem Inv.attempts (hi : Inv R s) (running : List (Nat × Attempt)) (interrupted : Bool)
    (h : ∀ id, Unsettled s id →
      Unsettled { s with running := running, interrupted := interrupted } id ∨
        (s.resolutions id .first).isSome) :
    Inv R { s with running := running, interrupted := interrupted } :=
  hi.frame rfl rfl rfl rfl (fun _ hf => hf) h

/-- Thread `t` has no attempt in flight. -/
def Idle (t : Nat) (s : Store) : Prop := ∀ a, (t, a) ∉ s.running

def Own (t : Nat) (id : String) (s : Store) : Prop := ∀ a, (t, a) ∈ s.running → a.disputeId = id

/-- And none of them marked. -/
def Trying (t : Nat) (id : String) (s : Store) : Prop :=
  ∀ a, (t, a) ∈ s.running → a.disputeId = id ∧ a.marked = false

theorem mem_others {t u : Nat} {a : Attempt} {running : List (Nat × Attempt)} (hne : u ≠ t) :
    (u, a) ∈ running.filter (·.1 ≠ t) ↔ (u, a) ∈ running := by
  simp [hne]

theorem idle_filter (t : Nat) (running : List (Nat × Attempt)) (a : Attempt) :
    (t, a) ∉ running.filter (·.1 ≠ t) := by
  simp

theorem Inv.begin (hi : Inv R s) (t : Nat) (id : String) : Inv R (beginAttempt t id s) := by
  refine hi.attempts ((t, ⟨id, false⟩) :: s.running) s.interrupted fun id' hu => .inl ?_
  rcases hu with ⟨u, hu⟩ | hint
  · exact .inl ⟨u, mem_cons_of_mem _ hu⟩
  · exact .inr hint

theorem Inv.endAttempt (hi : Inv R s) {t : Nat}
    (hdone : ∀ id, (t, (⟨id, true⟩ : Attempt)) ∈ s.running → (s.resolutions id .first).isSome) :
    Inv R (endAttempt t s) := by
  refine hi.attempts (s.running.filter (·.1 ≠ t)) s.interrupted fun id hu => ?_
  rcases hu with ⟨u, hu⟩ | hint
  · by_cases hut : u = t
    · subst hut
      exact .inr (hdone id hu)
    · exact .inl (.inl ⟨u, (mem_others hut).mpr hu⟩)
  · exact .inl (.inr hint)

theorem Inv.abandon (hi : Inv R s) (t : Nat) : Inv R (abandonAttempt t s) := by
  refine hi.attempts (s.running.filter (·.1 ≠ t))
    (s.interrupted || s.running.any fun r => r.1 == t && r.2.marked) fun id hu => .inl ?_
  rcases hu with ⟨u, hu⟩ | hint
  · by_cases hut : u = t
    · subst hut
      refine .inr ?_
      show (s.interrupted || _) = true
      rw [Bool.or_eq_true, any_eq_true]
      exact .inr ⟨_, hu, by simp⟩
    · exact .inl ⟨u, (mem_others hut).mpr hu⟩
  · refine .inr ?_
    show (s.interrupted || _) = true
    rw [hint]
    rfl

theorem Inv.abandonAll (hi : Inv R s) : Inv R (abandonAll s) := by
  refine hi.frame rfl rfl rfl rfl (fun _ hf => hf) fun id hu => .inl (.inr ?_)
  show (s.interrupted || _) = true
  rcases hu with ⟨u, hu⟩ | hint
  · rw [Bool.or_eq_true, any_eq_true]
    exact .inr ⟨_, hu, rfl⟩
  · rw [hint]
    rfl

/-- **The terminal mark of a round-1 attempt**: from here its row runs ahead of the record. -/
theorem Inv.mark (hi : Inv R s) {t : Nat} {id : String} (hown : Own t id s)
    (hstatus : ∀ row, (set row).status ≠ .inProgress) :
    Inv R (markAttempt t id (updateOrchestration id .first set s)) ∧
      Forward s (markAttempt t id (updateOrchestration id .first set s)) := by
  have hmarked : Inv R (markAttempt t id s) := by
    refine hi.attempts ((t, ⟨id, true⟩) :: s.running.filter (·.1 ≠ t)) s.interrupted
      fun id' hu => .inl ?_
    rcases hu with ⟨u, hu⟩ | hint
    · by_cases hut : u = t
      · subst hut
        rw [show id' = id from hown _ hu]
        exact .inl ⟨u, mem_cons_self⟩
      · exact .inl ⟨u, mem_cons_of_mem _ ((mem_others hut).mpr hu)⟩
    · exact .inr hint
  have hfwd : Forward s (markAttempt t id s) :=
    .of_eq rfl rfl (fun _ h => h) (fun _ h => h) rfl
  unfold updateOrchestration
  split
  · exact ⟨hmarked, hfwd⟩
  · rename_i row hrow
    refine ⟨hmarked.orchestration fun _ => ?_, hfwd.trans (.orchestration _ id .first _)⟩
    obtain ⟨hknown, -, -⟩ := hmarked.orchestrations id row hrow
    refine ⟨hknown, fun heq => absurd heq (hstatus row), fun _ => .inr (.inl ⟨t, ?_⟩)⟩
    exact mem_cons_self

end Motebit.Disputes
