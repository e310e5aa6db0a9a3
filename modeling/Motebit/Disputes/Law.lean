/-
  Motebit.Disputes.Law — THE LAW OF A DISPUTE STEP.

  A step takes every dispute forward, and it moves money only when it moves a dispute to
  `final`.  Between two of its steps a thread may rely on this: a dispute it read is still there
  and as far on or further, a row it read still stands (a round-2 row with the same verdict
  unless one was written over it).

  Main results: `Lawful`, `finalizeResolved_spec`, `finalizeAppealed_spec`,
  `retryAppealed_spec`.
-/

import Motebit.Disputes.Votes

namespace Motebit.Disputes

open Motebit.Lib List
open Motebit.Accounts (DisputeState)

/-! ## §1. The law of a step -/

def ToFinal (d : Dispute) (s s' : Store) : Prop :=
  getDispute d.disputeId s = some d ∧ d.state ≠ .final ∧
    ∃ d', getDispute d.disputeId s' = some d' ∧ d'.state = .final

/-- The step moves the money of `A`, which no dispute had moved, with the move of its dispute
    to `final`; by the ratio of the governing row unless a round-2 row was replaced. -/
structure Finalizes (A : String) (s s' : Store) : Prop where
  first : s.escrow.allocationDisputeRows A = []
  moved : ∃ d, d.allocationId = A ∧ ToFinal d s s' ∧ (Unreplaced s' →
    ∃ row, governing s' d.disputeId = some row ∧
      MovesBy row.money.splitRatio A s.escrow s'.escrow)

structure Lawful (s s' : Store) : Prop where
  forward : Forward s s'
  rows : ∀ A, s'.escrow.allocationDisputeRows A ≠ s.escrow.allocationDisputeRows A →
    Finalizes A s s'
  claims : s'.fundActions = s.fundActions ∨ ∃ d, ToFinal d s s'

variable {s s' : Store} {L : Store → Prop} {d : Dispute} {finalAt : Nat}

theorem Lawful.of_escrow (hf : Forward s s') (he : s'.escrow = s.escrow)
    (hc : s'.fundActions = s.fundActions) : Lawful s s' :=
  ⟨hf, fun A h => absurd (by rw [he]) h, .inl hc⟩

theorem Lawful.refl (s : Store) : Lawful s s := .of_escrow (.refl s) rfl rfl

/-- Lawful, and no attempt begins, is marked or ends. -/
def Drift (s s' : Store) : Prop := Lawful s s' ∧ s'.running = s.running

/-- No round-2 row is written, no round-2 commit begins or ends. -/
structure Aside (s s' : Store) : Prop where
  second : ∀ id, s'.resolutions id .second = s.resolutions id .second
  writes : s'.round2Writes = s.round2Writes
  committing : s'.committing = s.committing
  raced : s'.raced = s.raced

theorem Aside.refl (s : Store) : Aside s s := ⟨fun _ => rfl, rfl, rfl, rfl⟩

def Plain (s s' : Store) : Prop := Drift s s' ∧ Aside s s'

theorem Plain.refl (s : Store) : Plain s s := ⟨⟨.refl s, rfl⟩, .refl s⟩

theorem Plain.of_frame (hf : Forward s s')
    (h : s'.escrow = s.escrow ∧ s'.fundActions = s.fundActions ∧ s'.running = s.running)
    (ha : Aside s s') : Plain s s' :=
  ⟨⟨.of_escrow hf h.1 h.2.1, h.2.2⟩, ha⟩

/-- Where no two round-2 commits raced, one of a dispute is in flight at a time and each found
    no row. -/
structure Unraced (s : Store) : Prop where
  writes : s.raced = false → ∀ w ∈ s.round2Writes, w.found = none
  commits : s.raced = false → ∀ t u id, (t, id) ∈ s.committing → (u, id) ∈ s.committing → t = u

theorem Unraced.unreplaced (h : Unraced s) (hr : s.raced = false) : Unreplaced s := by
  intro w hw row hfound
  rw [h.writes hr w hw] at hfound
  cases hfound

theorem Unraced.aside (h : Unraced s) (ha : Aside s s') : Unraced s' where
  writes hr := by
    rw [ha.raced] at hr
    rw [ha.writes]
    exact h.writes hr
  commits hr := by
    rw [ha.raced] at hr
    rw [ha.committing]
    exact h.commits hr

/-- Thread `t` touches no other thread's attempts and commits, and writes a round-2 row only
    while it commits one. -/
structure Moves (t : Nat) (s s' : Store) : Prop where
  lawful : Lawful s s'
  running : ∀ u, u ≠ t → ∀ a, (u, a) ∈ s'.running ↔ (u, a) ∈ s.running
  committing : ∀ u, u ≠ t → ∀ id, (u, id) ∈ s'.committing ↔ (u, id) ∈ s.committing
  second : ∀ id, s'.resolutions id .second ≠ s.resolutions id .second → (t, id) ∈ s.committing
  raced : s'.raced = false → s.raced = false

theorem Plain.moves (h : Plain s s') (t : Nat) : Moves t s s' where
  lawful := h.1.1
  running u _ a := by rw [h.1.2]
  committing u _ id := by rw [h.2.committing]
  second id hne := absurd (h.2.second id) hne
  raced hr := by
    rwa [h.2.raced] at hr

variable {R : Relay}

def protocol (R : Relay) : Protocol (relay R) where
  Inv s := Inv R s ∧ Unraced s
  Guar := Moves
  Fresh := Idle
  refl t s := (Plain.refl s).moves t

theorem background_plain (hi : Inv R s) (h : Background s s') : Inv R s' ∧ Plain s s' := by
  have hforward : ∀ s' : Store, s'.disputes = s.disputes → s'.resolutions = s.resolutions →
      s'.round2Writes = s.round2Writes → s'.fanouts = s.fanouts →
      s'.orchestrations = s.orchestrations → Forward s s' := by
    intro s' hd hr hw hf ho
    exact .of_eq hd hr (fun w hmem => by rw [hw]; exact hmem)
      (fun f hmem => by rw [hf]; exact hmem) ho
  cases h with
  | ledger db h =>
    exact ⟨hi.frame rfl rfl rfl rfl (fun _ h => h) fun _ h => .inl h,
      ⟨⟨hforward _ rfl rfl rfl rfl rfl, fun A hne => absurd (h A) hne, .inl rfl⟩, rfl⟩,
      fun _ => rfl, rfl, rfl, rfl⟩
  | tick | freeze | status | peers =>
    exact ⟨hi.frame rfl rfl rfl rfl (fun _ h => h) fun _ h => .inl h,
      ⟨.of_escrow (hforward _ rfl rfl rfl rfl rfl) rfl rfl, rfl⟩, fun _ => rfl, rfl, rfl, rfl⟩
  | round2 id row =>
    exact ⟨hi.orchestration nofun,
      ⟨.of_escrow (.orchestration s id .second row) rfl rfl, rfl⟩, fun _ => rfl, rfl, rfl, rfl⟩

theorem updateOrchestration_eq (id : String) (round : Round)
    (set : OrchestrationRow → OrchestrationRow) (s : Store) :
    updateOrchestration id round set s =
      { s with orchestrations := (updateOrchestration id round set s).orchestrations } := by
  unfold updateOrchestration
  split <;> rfl

variable {set : OrchestrationRow → OrchestrationRow}

theorem Plain.orchestration {id : String} {round : Round}
    (h : Forward s (updateOrchestration id round set s)) :
    Plain s (updateOrchestration id round set s) := by
  rw [updateOrchestration_eq] at h ⊢
  exact ⟨⟨.of_escrow h rfl rfl, rfl⟩, fun _ => rfl, rfl, rfl, rfl⟩

theorem reattempt_plain (hi : Inv R s) (id : String) (round : Round)
    (hstatus : ∀ row, (set row).status = row.status)
    (hnext : ∀ row, (set row).nextAttemptAt.isSome) :
    Inv R (updateOrchestration id round set s) ∧ Plain s (updateOrchestration id round set s) := by
  obtain ⟨hinv, hfwd⟩ := hi.reattempt id round hstatus hnext
  exact ⟨hinv, .orchestration hfwd⟩

theorem second_plain (hi : Inv R s) (id : String) (set : OrchestrationRow → OrchestrationRow) :
    Inv R (updateOrchestration id .second set s) ∧
      Plain s (updateOrchestration id .second set s) := by
  have hfwd : Forward s (updateOrchestration id .second set s) := by
    unfold updateOrchestration
    split
    · exact .refl s
    · exact .orchestration s id .second _
  refine ⟨?_, .orchestration hfwd⟩
  unfold updateOrchestration
  split
  · exact hi
  · exact hi.orchestration fun h => by cases h

/-! ## §2. What a thread may rely on -/

/-- An assertion every step forward keeps. -/
def Kept (L : Store → Prop) : Prop := ∀ s s', Forward s s' → L s → L s'

abbrev Framed (R : Relay) (t : Nat) (L : Store → Prop) : Prop :=
  Protocol.Framed (protocol R) Drift t L

theorem Kept.framed (h : Kept L) (t : Nat) : Framed R t L where
  others _ s s' _ _ _ hg := h s s' hg.lawful.forward
  quiet s s' _ _ hq := h s s' hq.1.forward

theorem framed_running {t : Nat} {p : Attempt → Prop} :
    Framed R t fun s => ∀ a, (t, a) ∈ s.running → p a where
  others u s s' _ _ hu hg h a ha := h a ((hg.running t hu.symm a).mp ha)
  quiet s s' _ _ hq h a ha := h a (by rw [← hq.2]; exact ha)

theorem framed_stable {t : Nat} (h : Framed R t L) : (protocol R).Stable t L := by
  intro s s' hi hi' hr hl
  rcases hr with ⟨u, hu, hg⟩ | he
  · exact h.others u s s' hi hi' hu hg hl
  · exact h.quiet s s' hi hi' (background_plain hi.1 he).2.1 hl

/-- The dispute is still there, `d` or further, and at least as far as `n`. -/
def Past (n : Nat) (d : Dispute) (s : Store) : Prop :=
  ∃ d', getDispute d.disputeId s = some d' ∧ Advance d d' ∧ n ≤ rank d'.state

theorem kept_past (n : Nat) (d : Dispute) : Kept (Past n d) := by
  rintro s s' hf ⟨d', hd', hadv, hn⟩
  obtain ⟨d'', hd'', hadv'⟩ := hf.disputes d.disputeId d' hd'
  exact ⟨d'', hd'', hadv.trans hadv', Nat.le_trans hn hadv'.rank⟩

theorem kept_first (id : String) (row : DisputeResolution) :
    Kept fun s => s.resolutions id .first = some row := fun _ _ hf h => hf.first id row h

theorem kept_decided (id : String) : Kept fun s => (s.resolutions id .first).isSome = true := by
  intro s s' hf h
  obtain ⟨row, hrow⟩ := Option.isSome_iff_exists.mp h
  exact Option.isSome_iff_exists.mpr ⟨row, hf.first id row hrow⟩

/-- A second row stands, with the verdict read unless one was replaced. -/
def Second (id : String) (row : DisputeResolution) (s : Store) : Prop :=
  ∃ row', s.resolutions id .second = some row' ∧ (Unreplaced s → SameVerdict row' row)

theorem kept_second (id : String) (row : DisputeResolution) : Kept (Second id row) := by
  rintro s s' hf ⟨row', hrow', hsame⟩
  obtain ⟨row'', hrow'', hsame'⟩ := hf.second id row' hrow'
  exact ⟨row'', hrow'', fun hu => (hsame' hu).trans (hsame (hf.unreplaced hu))⟩

def Based (R : Relay) (d : Dispute) (round : Round) (verdict : Verdict) (s : Store) : Prop :=
  relayIsParty R d = true →
    Tallied s d.disputeId round verdict.resolution verdict.adjudicatorVotes ∧
      Quorate s round verdict.adjudicatorVotes

theorem kept_based (d : Dispute) (round : Round) (verdict : Verdict) :
    Kept (Based R d round verdict) := by
  intro s s' hf h hp
  obtain ⟨ht, hq⟩ := h hp
  exact ⟨ht.mono hf.fanouts, hq.mono hf.fanouts⟩

theorem Kept.and {L' : Store → Prop} (h : Kept L) (h' : Kept L') : Kept fun s => L s ∧ L' s :=
  fun s s' hf hl => ⟨h s s' hf hl.1, h' s s' hf hl.2⟩

theorem kept_const (c : Prop) : Kept fun _ => c := fun _ _ _ h => h


/-! ## §3. The finalizing transactions -/

theorem MovesBy.rows_ne {ratio : ℚ} {A B : String} {db db' : Escrow.Db}
    (h : MovesBy ratio A db db') (hne : B ≠ A) :
    db'.allocationDisputeRows B = db.allocationDisputeRows B := by
  obtain ⟨rows, hlog, hrows⟩ := h.log
  unfold Escrow.Db.allocationDisputeRows
  have hnew : rows.filter (fun t => t.stamp.any fun st =>
      st.allocationId == B && Escrow.isDisputeKind st.kind) = [] := by
    refine filter_eq_nil_iff.mpr fun t ht => ?_
    obtain ⟨kind, hstamp, -⟩ := hrows t ht
    rw [hstamp]
    simp [hne.symm]
  rw [hlog, filter_append, hnew, append_nil]

/-- **The fund action of a dispute that just became `final`**: `s₂` is `s` with the dispute
    final and its governing row in place. -/
theorem finalize_lawful {s₂ : Store} {d₀ d₁ : Dispute} {money : Money}
    (hd₀ : getDispute d.disputeId s = some d₀) (hadv : Advance d d₀) (hopen : d₀.state ≠ .final)
    (hi₂ : Inv R s₂) (hf₂ : Forward s s₂) (hd₁ : getDispute d.disputeId s₂ = some d₁)
    (hfin : d₁.state = .final)
    (hsame : s₂.escrow = s.escrow ∧ s₂.fundActions = s.fundActions ∧ s₂.running = s.running)
    (hgov : Unreplaced s₂ → ∃ row, governing s₂ d.disputeId = some row ∧ row.money = money)
    (hexec : executeFundAction R d money s₂ = .ok s') :
    Inv R s' ∧ Drift s s' ∧ Past 5 d s' ∧ Aside s₂ s' := by
  obtain ⟨hesc, hclaims, hrun⟩ := hsame
  obtain ⟨hframe, hmoved⟩ := executeFundAction_ok hexec
  obtain ⟨hinv, hfwd⟩ := hi₂.fund hframe
  obtain ⟨d', hd', hadv'⟩ := hfwd.disputes d.disputeId d₁ hd₁
  have hrank : 5 ≤ rank d'.state := by
    have hle := hadv'.rank
    rwa [hfin] at hle
  have hfinal : d'.state = .final := final_of_rank (hinv.keyed _ d' hd').2 hrank
  have hto : ToFinal d₀ s s' := by
    unfold ToFinal
    rw [hadv.disputeId]
    exact ⟨hd₀, hopen, d', hd', hfinal⟩
  have hpast : Past 5 d s' := by
    obtain ⟨d'', hd'', hadv''⟩ := (hf₂.trans hfwd).disputes d.disputeId d₀ hd₀
    rw [hd'] at hd''
    cases hd''
    exact ⟨d', hd', hadv.trans hadv'', hrank⟩
  have haside : Aside s₂ s' := by
    obtain ⟨hwrites, -, -, -, hcommitting, hraced⟩ := hframe.history
    exact ⟨fun id => by rw [hframe.resolutions], hwrites, hcommitting, hraced⟩
  refine ⟨hinv, ⟨⟨hf₂.trans hfwd, fun A hne => ?_, .inr ⟨d₀, hto⟩⟩, ?_⟩, hpast, haside⟩
  · rcases hmoved with hstill | hmoved
    · exact absurd (by rw [hstill.1, hesc]) hne
    · by_cases hA : A = d.allocationId
      · subst hA
        refine ⟨by rw [← hesc]; exact hmoved.first, d₀, hadv.allocationId, hto, fun hu => ?_⟩
        obtain ⟨row, hrow, hmoney⟩ := hgov (hfwd.unreplaced hu)
        refine ⟨row, ?_, ?_⟩
        · rw [hadv.disputeId]
          unfold governing at hrow ⊢
          rw [hframe.resolutions]
          exact hrow
        · rw [hmoney, ← hesc]
          exact hmoved.moves
      · exact absurd ((hmoved.moves.rows_ne hA).trans (by rw [hesc])) hne
  · rw [hframe.history.2.2.1, hrun]

/-- What a guarded move to `final` left. -/
structure Closed (R : Relay) (d d₀ d₁ : Dispute) (s s₁ : Store) : Prop where
  before : getDispute d.disputeId s = some d₀
  same : Advance d d₀
  after : getDispute d.disputeId s₁ = some d₁
  key : d₁.disputeId = d.disputeId
  party : relayIsParty R d₁ = relayIsParty R d
  final : d₁.state = .final
  put : s₁ = s.putDispute d₁
  inv : Inv R s₁
  forward : Forward s s₁

theorem moveDispute_closed {s₁ : Store} {st : DisputeState} {set : Dispute → Dispute}
    (hi : Inv R s) (hp : Past 0 d s) (hst : 3 ≤ rank st)
    (hset : ∀ x, rank x.state ≤ 5 → Advance x (set x) ∧ (set x).state = .final)
    (h : moveDispute d.disputeId (· == st) set s = some s₁) :
    ∃ d₀, d₀.state = st ∧ Closed R d d₀ (set d₀) s s₁ := by
  obtain ⟨d₀, hd₀, hadv, -⟩ := hp
  obtain ⟨x, hx, hx', rfl⟩ := moveDispute_some h
  rw [hd₀] at hx
  cases hx
  obtain ⟨hkey, hlive⟩ := hi.keyed _ d₀ hd₀
  obtain ⟨hadv₁, hfin⟩ := hset d₀ hlive.2
  have hself : getDispute d₀.disputeId s = some d₀ := by rw [hkey]; exact hd₀
  have hx' := beq_iff_eq.mp hx'
  refine ⟨d₀, hx', ⟨hd₀, hadv, ?_, hadv₁.disputeId.trans hkey, ?_, hfin, rfl, ?_, .put hself hadv₁⟩⟩
  · rw [getDispute_put, if_pos (hadv₁.disputeId.trans hkey).symm]
  · exact (hadv.trans hadv₁).party R
  · refine hi.advance hself hadv₁ ?_ fun _ => hx' ▸ hst
    rw [hfin]
    exact ⟨by decide, by decide⟩

theorem advance_toFinal (x : Dispute) (finalAt : Option Nat) (h : rank x.state ≤ 5) :
    Advance x { x with state := .final, finalAt := finalAt } := ⟨rfl, rfl, rfl, rfl, h⟩

theorem advance_finalized (x : Dispute) (row : DisputeResolution) (finalAt : Nat)
    (h : rank x.state ≤ 5) : Advance x (x.finalized row finalAt) := ⟨rfl, rfl, rfl, rfl, h⟩

variable {row : DisputeResolution} {moved : Bool}

theorem finalizeResolved_spec (hi : Inv R s)
    (hp : Past 0 d s) (hrow : s.resolutions d.disputeId .first = some row)
    (h : finalizeResolved R d row finalAt s = .ok (moved, s')) :
    Inv R s' ∧ Plain s s' ∧ (moved = true → Past 5 d s') := by
  unfold finalizeResolved at h
  split at h
  · cases h
    exact ⟨hi, .refl s, fun h => by cases h⟩
  next s₁ hmove =>
  obtain ⟨d₀, hst, hclosed⟩ := moveDispute_closed hi hp (by decide)
    (fun x hx => ⟨advance_toFinal x _ hx, rfl⟩) hmove
  obtain ⟨s₂, hexec, h⟩ := Throws.bind_eq_ok.mp h
  cases h
  have hkept : governing s₁ d.disputeId = governing s d.disputeId := by
    rw [hclosed.put]
    rfl
  have hgov : governing s₁ d.disputeId = some row := by
    rw [hkept]
    unfold governing
    cases hsecond : s.resolutions d.disputeId .second with
    | none => exact hrow
    | some row₂ =>
      obtain ⟨y, hy, hrank⟩ := hi.second _ row₂ hsecond
      rw [hclosed.before] at hy
      cases hy
      rw [hst] at hrank
      exact absurd hrank (by decide)
  obtain ⟨hinv, hdrift, hpast, haside⟩ := finalize_lawful hclosed.before hclosed.same
    (by rw [hst]; decide) hclosed.inv hclosed.forward hclosed.after hclosed.final
    (by rw [hclosed.put]; exact ⟨rfl, rfl, rfl⟩) (fun _ => ⟨row, hgov, rfl⟩) hexec
  rw [hclosed.put] at haside
  exact ⟨hinv, ⟨hdrift, haside.second, haside.writes, haside.committing, haside.raced⟩,
    fun _ => hpast⟩

/-- At most the round-2 row of `id` was written, over what stood there. -/
structure Wrote (id : String) (s s' : Store) : Prop where
  second : ∀ id', id' ≠ id → s'.resolutions id' .second = s.resolutions id' .second
  writes : ∀ w ∈ s'.round2Writes, w ∈ s.round2Writes ∨ w.found = s.resolutions id .second
  committing : s'.committing = s.committing
  raced : s'.raced = s.raced

theorem Wrote.refl (id : String) (s : Store) : Wrote id s s :=
  ⟨fun _ _ => rfl, fun _ h => .inl h, rfl, rfl⟩

theorem Wrote.insertRound2 (id : String) (row : DisputeResolution) (s : Store) :
    Wrote id s (insertRound2 id row s) where
  second id' hne := by
    show (s.putResolution id .second row).resolutions id' .second = _
    rw [resolutions_put, if_neg fun h => hne h.1]
  writes w hw := by
    rcases mem_cons.mp hw with rfl | hold
    · exact .inr rfl
    · exact .inl hold
  committing := rfl
  raced := rfl

theorem Wrote.aside {id : String} {s₁ s₂ : Store} (h : Wrote id s s₁) (ha : Aside s₁ s₂) :
    Wrote id s s₂ where
  second id' hne := (ha.second id').trans (h.second id' hne)
  writes w hw := by
    rw [ha.writes] at hw
    exact h.writes w hw
  committing := ha.committing.trans h.committing
  raced := ha.raced.trans h.raced

theorem finalizeAppealed_spec {verdict : Verdict} {resolvedAt : Nat} {signature : String}
    (hi : Inv R s) (hp : Past 0 d s) (hb : Based R d .second verdict s)
    (h : finalizeAppealed R d (resolutionRow R verdict resolvedAt signature) finalAt s
      = .ok (moved, s')) : Inv R s' ∧ Drift s s' ∧ Wrote d.disputeId s s' := by
  set row := resolutionRow R verdict resolvedAt signature with hrow
  unfold finalizeAppealed at h
  split at h
  · cases h
    exact ⟨hi, ⟨.refl s, rfl⟩, .refl _ s⟩
  next s₁ hmove =>
  obtain ⟨d₀, hst, hclosed⟩ := moveDispute_closed hi hp (by decide)
    (fun x hx => ⟨advance_finalized x row finalAt hx, rfl⟩) hmove
  obtain ⟨s₂, hexec, h⟩ := Throws.bind_eq_ok.mp h
  cases h
  have hafter : getDispute (d₀.finalized row finalAt).disputeId s₁ =
      some (d₀.finalized row finalAt) := by
    rw [hclosed.key]
    exact hclosed.after
  have hround2 : Inv R (insertRound2 d.disputeId row s₁) := by
    rw [← hclosed.key]
    refine hclosed.inv.round2 hafter (by rw [hclosed.final]; decide) fun hparty => ?_
    rw [hclosed.party] at hparty
    rw [hclosed.key]
    exact kept_based d .second verdict s s₁ hclosed.forward hb hparty
  have hgov : governing (insertRound2 d.disputeId row s₁) d.disputeId = some row := by
    unfold governing
    rw [show (insertRound2 d.disputeId row s₁).resolutions d.disputeId .second = some row from by
      show (s₁.putResolution d.disputeId .second row).resolutions d.disputeId .second = _
      rw [resolutions_put, if_pos ⟨rfl, rfl⟩]]
  obtain ⟨hinv, hdrift, -, haside⟩ := finalize_lawful hclosed.before hclosed.same
    (by rw [hst]; decide) hround2 (hclosed.forward.trans (.insertRound2 s₁ _ row))
    hclosed.after hclosed.final (by rw [hclosed.put]; exact ⟨rfl, rfl, rfl⟩)
    (fun _ => ⟨row, hgov, rfl⟩) hexec
  refine ⟨hinv, hdrift, Wrote.aside ?_ haside⟩
  have hwrote := Wrote.insertRound2 d.disputeId row (s.putDispute (d₀.finalized row finalAt))
  rw [hclosed.put]
  exact ⟨hwrote.second, hwrote.writes, hwrote.committing, hwrote.raced⟩

theorem finalizeAppealed_error {e : Fault} (hi : Inv R s)
    (hp : Past 0 d s) (h : finalizeAppealed R d row finalAt s = .error e) : Past 4 d s := by
  unfold finalizeAppealed at h
  split at h
  · cases h
  next s₁ hmove =>
  obtain ⟨d₀, hst, hclosed⟩ := moveDispute_closed hi hp (by decide)
    (fun x hx => ⟨advance_finalized x row finalAt hx, rfl⟩) hmove
  exact ⟨d₀, hclosed.before, hclosed.same, by rw [hst]; decide⟩

theorem retryAppealed_spec (hi : Inv R s) (hp : Past 0 d s)
    (hrow : Second d.disputeId row s) (h : retryAppealed R d row finalAt s = .ok (moved, s')) :
    Inv R s' ∧ Plain s s' := by
  unfold retryAppealed at h
  split at h
  · cases h
    exact ⟨hi, .refl s⟩
  next s₁ hmove =>
  obtain ⟨d₀, hst, hclosed⟩ := moveDispute_closed hi hp (by decide)
    (fun x hx => ⟨advance_finalized x row finalAt hx, rfl⟩) hmove
  obtain ⟨s₂, hexec, h⟩ := Throws.bind_eq_ok.mp h
  cases h
  obtain ⟨row', hrow', hsame⟩ := kept_second d.disputeId row s s₁ hclosed.forward hrow
  have hgov : governing s₁ d.disputeId = some row' := by
    unfold governing
    rw [hrow']
  obtain ⟨hinv, hdrift, -, haside⟩ := finalize_lawful hclosed.before hclosed.same
    (by rw [hst]; decide) hclosed.inv hclosed.forward hclosed.after hclosed.final
    (by rw [hclosed.put]; exact ⟨rfl, rfl, rfl⟩)
    (fun hu => ⟨row', hgov, (hsame hu).2⟩) hexec
  rw [hclosed.put] at haside
  exact ⟨hinv, hdrift, haside.second, haside.writes, haside.committing, haside.raced⟩

end Motebit.Disputes
