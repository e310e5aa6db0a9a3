/-
  Motebit.Disputes.Safety — EVERY ROUTE KEEPS THE LAW, under any interleaving.

  Main results: `verified`.
-/

import Motebit.Disputes.Law

namespace Motebit.Disputes

open Motebit.Lib Motebit.Lib.Protocol List

variable {R : Relay} {t : Nat} {α β : Type} {L K : Store → Prop} {Q : α → Store → Prop}

/-! ## §1. Plain work -/

/-- From `L` to `Q` in plain steps: whatever else the thread knows of its attempts and of the
    past it still knows at the end, also if the work throws. -/
def Plainly (R : Relay) (t : Nat) (x : Work α) (L : Store → Prop) (Q : α → Store → Prop) : Prop :=
  ∀ F, Framed R t F →
    (protocol R).Ensures t x (fun s => L s ∧ F s) (fun a s => Q a s ∧ F s) fun _ s => F s

variable {x : Work α} {g : Store → α} {s : Store} {d : Dispute} {F : Store → Prop}
  {E : Fault → Store → Prop}

theorem Plainly.bind {g : α → Work β} {Q' : β → Store → Prop} (hx : Plainly R t x L Q)
    (hg : ∀ a, Plainly R t (g a) (Q a) Q') : Plainly R t (x >>= g) L Q' :=
  fun F hF => (hx F hF).bind fun a => hg a F hF

theorem Plainly.mono {L' : Store → Prop} (hx : Plainly R t x L Q) (hL : ∀ s, Inv R s → L' s → L s) :
    Plainly R t x L' Q :=
  fun F hF => (hx F hF).mono fun s hi hl => ⟨hL s hi.1 hl.1, hl.2⟩

theorem Plainly.pure {a : α} (h : ∀ s, Inv R s → L s → Q a s) :
    Plainly R t (Pure.pure a : Work α) L Q :=
  fun _ _ => .pure fun s hi hl => ⟨h s hi.1 hl.1, hl.2⟩

theorem Plainly.throw {e : Fault} : Plainly R t (throw e : Work α) L Q :=
  fun _ _ => .throw fun _ _ hl => hl.2

theorem Plainly.frame (hK : Kept K) (hx : Plainly R t x L Q) :
    Plainly R t x (fun s => L s ∧ K s) fun a s => Q a s ∧ K s := by
  intro F hF
  have hall := hx (fun s => K s ∧ F s) ((hK.framed t).and hF)
  refine (hall.mono fun s _ hl => ⟨hl.1.1, hl.1.2, hl.2⟩).weaken ?_ ?_
  · exact fun _ _ _ hq => ⟨⟨hq.1, hq.2.1⟩, hq.2.2⟩
  · exact fun _ _ _ he => he.2

theorem Plainly.txn {f : Store → Except Fault (α × Store)} (hQ : ∀ a, Kept (Q a))
    (h : ∀ s a s', Inv R s → L s → f s = .ok (a, s') → Inv R s' ∧ Plain s s' ∧ Q a s') :
    Plainly R t (Task.txn f) L Q := by
  intro F hF
  refine .txn (fun a => framed_stable (((hQ a).framed t).and hF))
    (fun _ => framed_stable hF) (fun s a s' hi hl hf => ?_) fun s e hi hl _ => hl.2
  obtain ⟨hinv, hplain, hq⟩ := h s a s' hi.1 hl.1 hf
  have hi' : (protocol R).Inv s' := ⟨hinv, hi.2.aside hplain.2⟩
  exact ⟨hi', hplain.moves t, hq, hF.quiet s s' hi hi' hplain.1 hl.2⟩

theorem Plainly.act {f : Store → α × Store} (hQ : ∀ a, Kept (Q a))
    (h : ∀ s, Inv R s → L s → Inv R (f s).2 ∧ Plain s (f s).2 ∧ Q (f s).1 (f s).2) :
    Plainly R t (Task.act f) L Q := by
  refine .txn hQ fun s a s' hi hl hf => ?_
  have heq : f s = (a, s') := Except.ok.inj hf
  have hall := h s hi hl
  rwa [heq] at hall

theorem Plainly.modify {f : Store → Store} (hL : Kept L)
    (h : ∀ s, Inv R s → L s → Inv R (f s) ∧ Plain s (f s)) :
    Plainly R t (Task.modify f) L fun _ => L := by
  refine .act (fun _ => hL) fun s hi hl => ?_
  obtain ⟨hinv, hplain⟩ := h s hi hl
  exact ⟨hinv, hplain, hL s (f s) hplain.1.1.forward hl⟩

theorem Plainly.read (hL : Kept L) (hQ : ∀ a, Kept (Q a)) (h : ∀ s, Inv R s → L s → Q (g s) s) :
    Plainly R t (Task.read g) L fun a s => L s ∧ Q a s :=
  Plainly.act (fun a => hL.and (hQ a)) fun s hi hl => ⟨hi, .refl s, hl, h s hi hl⟩

theorem Plainly.look (hL : Kept L) : Plainly R t (Task.read g) L fun _ => L :=
  Plainly.act (fun _ => hL) fun s hi hl => ⟨hi, .refl s, hl⟩

theorem Plainly.wait (r : Wait) (hr : ∀ s a, answered s r a = s) (hL : Kept L) :
    Plainly R t (Task.ask r) L fun _ => L := by
  intro F hF
  refine .ask (fun _ => framed_stable ((hL.framed t).and hF)) fun s a s' hi hl ha => ?_
  rw [show s' = s from (show s' = answered s r a from ha).trans (hr s a)]
  exact ⟨hi, (protocol R).refl t s, hl⟩

theorem Plainly.catching {h : Fault → Work α} (hK : Kept K) (hx : Plainly R t x L Q)
    (hL : ∀ s, Inv R s → L s → K s) (hh : ∀ e, Plainly R t (h e) K Q) :
    Plainly R t (Task.catching x h) L Q := by
  intro F hF
  have hall : (protocol R).Ensures t x (fun s => L s ∧ F s) (fun a s => Q a s ∧ K s ∧ F s)
      fun _ s => K s ∧ F s :=
    (hx (fun s => K s ∧ F s) ((hK.framed t).and hF)).mono
      fun s hi hl => ⟨hl.1, hL s hi.1 hl.1, hl.2⟩
  refine Ensures.catching (hall.weaken ?_ fun _ _ _ he => he) fun e => hh e F hF
  exact fun _ _ _ hq => ⟨hq.1, hq.2.2⟩

theorem Plainly.ite {c : Prop} [Decidable c] {y : Work α} (hx : c → Plainly R t x L Q)
    (hy : ¬c → Plainly R t y L Q) : Plainly R t (if c then x else y) L Q := by
  split
  · next h => exact hx h
  · next h => exact hy h

theorem Plainly.detach (hx : Plainly R t x (fun _ => True) Q) :
    (protocol R).Safe t x.detach (Idle t) fun _ _ => True :=
  ((hx _ framed_running).mono fun _ _ hidle => ⟨trivial, fun a ha => hidle a ha⟩).detach

/-! ## §2. Filing -/

/-- Nothing is said about the store. -/
abbrev Quietly (R : Relay) (t : Nat) (x : Work α) : Prop :=
  Plainly R t x (fun _ => True) fun _ _ => True

theorem Plainly.skip {a : α} : Plainly R t (Pure.pure a : Work α) L fun _ _ => True :=
  .pure fun _ _ _ => trivial

theorem Plainly.glance : Plainly R t (Task.read g) L fun _ _ => True :=
  Plainly.act (fun _ => kept_const True) fun s hi _ => ⟨hi, .refl s, trivial⟩

theorem standing_quietly (req : DisputeRequest) (worker : String) (delegator : Option String) :
    Quietly R t (standing req worker delegator) := by
  cases delegator with
  | none => exact .throw
  | some delegator =>
    refine .ite (fun _ => .throw) fun _ => ?_
    cases filerRole req.filedBy worker delegator with
    | none => exact .throw
    | some =>
      exact .ite (fun _ => .throw) fun _ => .skip

theorem withinWindow_quietly (receivedAt : Nat) (settledAt : Option Nat) :
    Quietly R t (withinWindow receivedAt settledAt) := by
  exact .ite (fun _ => .throw) fun _ => .skip

theorem allocationTerms_quietly (req : DisputeRequest) (receivedAt : Nat)
    (alloc : Escrow.Allocation) (status : AllocationStatus) :
    Quietly R t (allocationTerms R req receivedAt alloc status) := by
  refine .ite (fun _ => .throw) fun _ => ?_
  refine .bind .glance fun delegator => ?_
  refine .bind (standing_quietly req _ delegator) fun role => ?_
  refine .ite (fun _ => .throw) fun _ => ?_
  refine .ite (fun _ => ?_) fun _ => ?_
  · refine .bind .glance fun settledAt => ?_
    exact .bind (withinWindow_quietly receivedAt settledAt) fun _ => .skip
  · refine .bind .skip fun settledAt => ?_
    exact .bind (withinWindow_quietly receivedAt settledAt) fun _ => .skip

theorem p2pTerms_quietly (req : DisputeRequest) (receivedAt : Nat) :
    Quietly R t (p2pTerms R req receivedAt) := by
  refine .bind .glance fun settlement => ?_
  cases settlement with
  | none => exact .throw
  | some =>
    refine .bind (standing_quietly req _ _) fun role => ?_
    exact .bind (withinWindow_quietly receivedAt _) fun _ => .skip

theorem checkFiling_quietly (allocationId : String) (req : DisputeRequest) :
    Quietly R t (checkFiling R allocationId req) := by
  refine .ite (fun _ => .throw) fun _ => ?_
  refine .bind .glance fun receivedAt => ?_
  refine .ite (fun _ => .throw) fun _ => ?_
  refine .bind (.wait .verify (fun _ _ => rfl) (kept_const True)) fun verification => ?_
  cases verification with
  | notRegistered | invalid => exact .throw
  | valid =>
    refine .bind .glance fun existing => ?_
    refine .ite (fun _ => .throw) fun _ => ?_
    refine .bind .glance fun allocation => ?_
    cases allocation with
    | none =>
      refine .bind (p2pTerms_quietly req receivedAt) fun terms => ?_
      refine .bind .glance fun active => ?_
      exact .ite (fun _ => .throw) fun _ => .skip
    | some a =>
      obtain ⟨alloc, status⟩ := a
      refine .bind (allocationTerms_quietly req receivedAt alloc status) fun terms => ?_
      refine .bind .glance fun active => ?_
      exact .ite (fun _ => .throw) fun _ => .skip

theorem fileDispute_quietly (allocationId : String) (req : DisputeRequest) :
    Quietly R t (fileDispute R allocationId req) := by
  refine .bind (checkFiling_quietly allocationId req) fun terms => ?_
  refine .txn (fun _ => kept_const True) fun s _ s' hi _ h => ?_
  unfold insertDispute at h
  split at h
  · cases h
  split at h
  · cases h
  split at h
  · cases h
  next hnone =>
  cases h
  have hfree : getDispute (filedDispute req terms).disputeId s = none := by
    rwa [Option.not_isSome_iff_eq_none] at hnone
  obtain ⟨hinv, hfwd⟩ := hi.filed hfree rfl _
  exact ⟨hinv, .of_frame hfwd ⟨rfl, rfl, rfl⟩ ⟨fun _ => rfl, rfl, rfl, rfl⟩, trivial⟩

/-! ## §3. Finalizing -/

/-- `d'` is the dispute `d` was read as, as it was seen last. -/
def Again (d d' : Dispute) (s : Store) : Prop := Past 0 d' s ∧ d'.disputeId = d.disputeId

theorem kept_again (d d' : Dispute) : Kept (Again d d') := (kept_past 0 d').and (kept_const _)

theorem past_of_get (hi : Inv R s) {id : String} (hd : getDispute id s = some d) : Past 0 d s := by
  obtain ⟨rfl, -⟩ := hi.keyed id d hd
  exact ⟨d, hd, .refl d, Nat.zero_le _⟩

theorem Past.congr {n : Nat} {d' : Dispute} (h : Past n d s) (hsame : Advance d' d) :
    Past n d' s := by
  obtain ⟨x, hx, hadv, hn⟩ := h
  exact ⟨x, by rw [← hsame.disputeId]; exact hx, hsame.trans hadv, hn⟩

theorem marked_plain (hi : Inv R s) (id : String) (reason : Option FundRefusalReason) :
    Inv R (recordFundRefusal id reason s) ∧ Plain s (recordFundRefusal id reason s) := by
  have hframe := FundFrame.marked id reason s
  obtain ⟨hinv, hfwd⟩ := hi.fund hframe
  obtain ⟨hesc, hclaims⟩ := Still.marked id reason s
  obtain ⟨hwrites, -, hrunning, -, hcommitting, hraced⟩ := hframe.history
  exact ⟨hinv, ⟨.of_escrow hfwd hesc hclaims, hrunning⟩,
    fun id => by rw [hframe.resolutions], hwrites, hcommitting, hraced⟩

theorem afterRefusal_plainly (d : Dispute) (e : Fault) :
    Plainly R t (afterRefusal d e) (Past 0 d) (Again d) := by
  cases e with
  | fundActionRefused =>
    refine .bind (.modify (kept_past 0 d) fun s hi _ => marked_plain hi _ _) fun _ => ?_
    refine .pure fun s _ hp => ⟨hp.congr ⟨rfl, rfl, rfl, rfl, Nat.le_refl _⟩, rfl⟩
  | http | emergencyFrozen | error => exact .pure fun s _ hp => ⟨hp, rfl⟩

theorem reread_plainly (d : Dispute) : Plainly R t (reread d) (Past 0 d) (Again d) := by
  refine .bind (.read (Q := fun now => Again d (now.getD d)) (kept_past 0 d)
    (fun now => kept_again d (now.getD d)) fun s hi hp => ?_) fun now => ?_
  · obtain ⟨d', hd', -⟩ := hp
    rw [hd']
    exact ⟨past_of_get hi hd', (hi.keyed _ d' hd').1⟩
  · exact .pure fun s _ h => h.2

theorem tryFinalizePersistedRound2_plainly (d : Dispute) :
    Plainly R t (tryFinalizePersistedRound2 R d) (Past 0 d) (Again d) := by
  refine .bind (.read (Q := fun found s => ∀ row, found = some row → Second d.disputeId row s)
    (kept_past 0 d) (fun found s s' hf h row heq => kept_second _ row s s' hf (h row heq))
    fun s hi hp row heq => ⟨row, heq, fun _ => ⟨rfl, rfl⟩⟩) fun found => ?_
  cases found with
  | none => exact .pure fun s _ h => ⟨h.1, rfl⟩
  | some row =>
    have hkept := (kept_past 0 d).and (kept_second d.disputeId row)
    refine .bind ((Plainly.look hkept).mono fun s _ h => ⟨h.1, h.2 row rfl⟩) fun finalAt => ?_
    refine .catching (kept_past 0 d) (.bind (.txn (fun _ => kept_past 0 d) ?_) fun _ => ?_)
      (fun s _ h => h.1) (afterRefusal_plainly d)
    · intro s _ s' hi h htxn
      obtain ⟨hinv, hplain⟩ := retryAppealed_spec hi h.1 h.2 htxn
      exact ⟨hinv, hplain, kept_past 0 d s s' hplain.1.1.forward h.1⟩
    · exact reread_plainly d

theorem finalizeExpiredWindow_plainly (d : Dispute) (resolvedAt : Nat) :
    Plainly R t (finalizeExpiredWindow R d resolvedAt) (Past 0 d) (Again d) := by
  refine .bind (.look (kept_past 0 d)) fun now => ?_
  refine .ite (fun _ => .pure fun s _ h => ⟨h, rfl⟩) fun _ => ?_
  refine .bind (.read
    (Q := fun found s => ∀ row, found = some row → s.resolutions d.disputeId .first = some row)
    (kept_past 0 d) (fun found s s' hf h row heq => kept_first _ row s s' hf (h row heq))
    fun s hi hp row heq => heq) fun found => ?_
  cases found with
  | none => exact .pure fun s _ h => ⟨h.1, rfl⟩
  | some row =>
    have hkept := (kept_past 0 d).and (kept_first d.disputeId row)
    refine .bind ((Plainly.look hkept).mono fun s _ h => ⟨h.1, h.2 row rfl⟩) fun finalAt => ?_
    refine .catching (kept_past 0 d) (.bind
      (.txn (Q := fun moved s => Past 0 d s ∧ (moved = true → Past 5 d s)) (fun moved => ?_) ?_)
      fun moved => ?_) (fun s _ h => h.1) (afterRefusal_plainly d)
    · exact (kept_past 0 d).and fun s s' hf h hm => kept_past 5 d s s' hf (h hm)
    · intro s moved s' hi h htxn
      obtain ⟨hinv, hplain, hpast⟩ := finalizeResolved_spec hi h.1 h.2 htxn
      exact ⟨hinv, hplain, kept_past 0 d s s' hplain.1.1.forward h.1, hpast⟩
    · cases moved with
      | false => exact (reread_plainly d).mono fun s _ h => h.1
      | true =>
        refine .pure fun s _ h => ⟨?_, rfl⟩
        obtain ⟨x, hx, hadv, hrank⟩ := h.2 rfl
        exact ⟨x, hx, { hadv with rank := hrank }, Nat.zero_le _⟩

theorem tryFinalizeIfWindowExpired_plainly (d : Dispute) (retryRound2 : Bool) :
    Plainly R t (tryFinalizeIfWindowExpired R d retryRound2) (Past 0 d) (Again d) := by
  have hsame : Plainly R t (Pure.pure d) (Past 0 d) (Again d) := .pure fun s _ h => ⟨h, rfl⟩
  refine .ite (fun _ => .ite (fun _ => tryFinalizePersistedRound2_plainly d) fun _ => hsame)
    fun _ => .ite (fun _ => hsame) fun _ => .ite (fun _ => hsame) fun _ => ?_
  cases d.resolvedAt with
  | none => exact hsame
  | some resolvedAt => exact finalizeExpiredWindow_plainly d resolvedAt

/-! ## §4. Commits -/

/-- Thread `t` is committing a round-2 verdict of the dispute; where nothing raced, no row stands
    yet. -/
def Open (t : Nat) (id : String) (s : Store) : Prop :=
  (t, id) ∈ s.committing ∧ (s.raced = false → s.resolutions id .second = none)

theorem open_stable (t : Nat) (id : String) : (protocol R).Stable t (Open t id) := by
  rintro s s' ⟨-, hu⟩ - (⟨u, hut, hg⟩ | he) ⟨hmem, hnone⟩
  · refine ⟨(hg.committing t hut.symm id).mpr hmem, fun hr => ?_⟩
    have hr₀ := hg.raced hr
    by_contra hne
    refine hut (hu.commits hr₀ u t id (hg.second id ?_) hmem)
    rw [hnone hr₀]
    exact hne
  · have hback : Background s s' := he
    cases hback with
    | tick | freeze | ledger | status | peers | round2 => exact ⟨hmem, hnone⟩

/-- **The write of an open commit** finds no row, where nothing raced. -/
theorem Open.wrote {t : Nat} {id : String} {s' : Store} (h : Open t id s) (hu : Unraced s)
    (hdrift : Drift s s') (hw : Wrote id s s') : Unraced s' ∧ Moves t s s' := by
  refine ⟨⟨fun hr w hmem => ?_, fun hr => ?_⟩, ⟨hdrift.1, fun u _ a => ?_, fun u _ id' => ?_,
    fun id' hne => ?_, fun hr => ?_⟩⟩
  · rw [hw.raced] at hr
    rcases hw.writes w hmem with hold | hfound
    · exact hu.writes hr w hold
    · rw [hfound]
      exact h.2 hr
  · rw [hw.raced] at hr
    rw [hw.committing]
    exact hu.commits hr
  · rw [hdrift.2]
  · rw [hw.committing]
  · by_cases heq : id' = id
    · rw [heq]
      exact h.1
    · exact absurd (hw.second id' heq) hne
  · rwa [hw.raced] at hr

/-- What a commit knows between its start and its write. -/
abbrev Committing (R : Relay) (t n : Nat) (d : Dispute) (verdict : Verdict) (F : Store → Prop)
    (s : Store) : Prop :=
  (Open t d.disputeId s ∧ Past n d s ∧ Based R d .second verdict s) ∧ F s

variable {verdict : Verdict}

theorem committing_stable {n : Nat} (hF : Framed R t F) :
    (protocol R).Stable t (Committing R t n d verdict F) := by
  have hkept := (kept_past n d).and (kept_based (R := R) d .second verdict)
  have hopen := open_stable (R := R) t d.disputeId
  exact (hopen.and (framed_stable (hkept.framed t))).and (framed_stable hF)

theorem insertRound2_ensures (hF : Framed R t F) (resolvedAt : Nat)
    (signature : String) : (protocol R).Ensures t (Task.modify (insertRound2 d.disputeId
        (resolutionRow R verdict resolvedAt signature)) : Work Unit)
      (Committing R t 4 d verdict F) (fun _ s => F s) fun _ s => F s := by
  refine .act (fun _ => framed_stable hF) fun s hi hl => ?_
  obtain ⟨⟨hopen, ⟨d', hd', hadv, hrank⟩, hb⟩, hf⟩ := hl
  have hinv : Inv R (insertRound2 d.disputeId (resolutionRow R verdict resolvedAt signature) s) := by
    rw [← hadv.disputeId] at hd' ⊢
    refine hi.1.round2 hd' hrank fun hparty => ?_
    rw [hadv.party] at hparty
    rw [hadv.disputeId]
    exact hb hparty
  have hdrift : Drift s (insertRound2 d.disputeId
      (resolutionRow R verdict resolvedAt signature) s) :=
    ⟨.of_escrow (.insertRound2 s _ _) rfl rfl, rfl⟩
  obtain ⟨hunraced, hmoves⟩ := hopen.wrote hi.2 hdrift (.insertRound2 d.disputeId _ s)
  exact ⟨⟨hinv, hunraced⟩, hmoves, hF.quiet _ _ hi ⟨hinv, hunraced⟩ hdrift hf⟩

theorem afterRound2Failure_ensures (hF : Framed R t F) (resolvedAt : Nat)
    (signature : String) (e : Fault) : (protocol R).Ensures t
      (afterRound2Failure d (resolutionRow R verdict resolvedAt signature) e)
      (Committing R t 4 d verdict F) (fun _ s => F s) fun _ s => F s := by
  cases e with
  | emergencyFrozen =>
    exact (insertRound2_ensures hF resolvedAt signature).bind fun _ =>
      Ensures.throw fun _ _ h => h
  | fundActionRefused reason =>
    refine (insertRound2_ensures hF resolvedAt signature).bind fun _ => ?_
    have hmark : Quietly R t (Task.modify (recordFundRefusal d.disputeId (some reason))) :=
      .modify (kept_const True) fun s hi _ => marked_plain hi _ _
    refine ((hmark F hF).mono fun _ _ h => ⟨trivial, h⟩).bind fun _ => ?_
    exact .throw fun _ _ h => h.2
  | http | error => exact .throw fun _ _ h => h.2

theorem commitRound2Verdict_ensures (hF : Framed R t F) :
    (protocol R).Ensures t (commitRound2Verdict R d verdict) (Committing R t 0 d verdict F)
      (fun _ s => F s) fun _ s => F s := by
  have hst : (protocol R).Stable t (Committing R t 0 d verdict F) := committing_stable hF
  refine (Ensures.read (fun _ => hst) fun _ _ h => h).bind fun resolvedAt => ?_
  refine (Ensures.ask (Q := fun _ => Committing R t 0 d verdict F) (fun _ => hst)
    fun s a s' hi hl ha => ?_).bind fun signed => ?_
  · cases ha
    exact ⟨hi, (protocol R).refl t s, hl⟩
  cases signed with
  | none => exact .throw fun _ _ h => h.2
  | some signature =>
    refine (Ensures.read (fun _ => hst) fun _ _ h => h).bind fun finalAt => ?_
    refine .bind (Q := fun _ s => F s) (Ensures.catching
      (E := fun _ => Committing R t 4 d verdict F)
      (.txn (fun _ => framed_stable hF) (fun _ => committing_stable hF) ?_ ?_)
      fun e => afterRound2Failure_ensures hF resolvedAt signature e) fun moved => ?_
    · intro s _ s' hi hl h
      obtain ⟨⟨hopen, hp, hb⟩, hf⟩ := hl
      obtain ⟨hinv, hdrift, hwrote⟩ := finalizeAppealed_spec hi.1 hp hb h
      obtain ⟨hunraced, hmoves⟩ := hopen.wrote hi.2 hdrift hwrote
      exact ⟨⟨hinv, hunraced⟩, hmoves, hF.quiet _ _ hi ⟨hinv, hunraced⟩ hdrift hf⟩
    · intro s e hi hl h
      obtain ⟨⟨hopen, hp, hb⟩, hf⟩ := hl
      exact ⟨⟨hopen, finalizeAppealed_error hi.1 hp h, hb⟩, hf⟩
    · split
      · exact .pure fun _ _ h => h
      · exact .throw fun _ _ h => h

theorem beginRound2_unraced (hu : Unraced s) (t : Nat) (id : String) :
    Unraced (beginRound2 t id s) ∧ Moves t s (beginRound2 t id s) ∧ Open t id (beginRound2 t id s) := by
  have hclear : (beginRound2 t id s).raced = false → s.raced = false ∧
      (∀ u, (u, id) ∉ s.committing) ∧ s.resolutions id .second = none := by
    intro hr
    have hr' : (s.raced || s.committing.any (·.2 == id)
      || (s.resolutions id .second).isSome) = false := hr
    simp only [Bool.or_eq_false_iff, any_eq_false, beq_iff_eq] at hr'
    obtain ⟨⟨hraced, hnone⟩, hrow⟩ := hr'
    refine ⟨hraced, fun u hmem => hnone _ hmem rfl, ?_⟩
    rw [← Option.not_isSome_iff_eq_none, hrow]
    exact Bool.false_ne_true
  refine ⟨⟨fun hr => hu.writes (hclear hr).1, fun hr v u id' hv hu' => ?_⟩,
    ⟨.of_escrow (.of_eq rfl rfl (fun _ h => h) (fun _ h => h) rfl) rfl rfl, fun _ _ _ => Iff.rfl,
      fun u hne id' => ?_, fun id' hne => absurd rfl hne, fun hr => (hclear hr).1⟩,
    mem_cons_self, fun hr => (hclear hr).2.2⟩
  · -- a commit of the same dispute already in flight would have raced
    obtain ⟨hraced, hnone, -⟩ := hclear hr
    rcases mem_cons.mp hv with heq | hold
    · rcases mem_cons.mp hu' with heq' | hold'
      · exact (Prod.mk.inj heq).1.trans (Prod.mk.inj heq').1.symm
      · rw [(Prod.mk.inj heq).2] at hold'
        exact absurd hold' (hnone u)
    · rcases mem_cons.mp hu' with heq' | hold'
      · rw [(Prod.mk.inj heq').2] at hold
        exact absurd hold (hnone v)
      · exact hu.commits hraced v u id' hold hold'
  · show (u, id') ∈ (t, id) :: s.committing ↔ _
    rw [mem_cons]
    exact ⟨fun h => h.resolve_left fun heq => hne (Prod.mk.inj heq).1, .inr⟩

theorem endRound2_unraced (hu : Unraced s) (t : Nat) :
    Unraced (endRound2 t s) ∧ Moves t s (endRound2 t s) := by
  refine ⟨⟨hu.writes, fun hr v u id hv hu' => ?_⟩, ⟨.of_escrow
    (.of_eq rfl rfl (fun _ h => h) (fun _ h => h) rfl) rfl rfl, fun _ _ _ => Iff.rfl,
    fun u hne id => ?_, fun _ hne => absurd rfl hne, fun hr => hr⟩⟩
  · exact hu.commits hr v u id (mem_of_mem_filter hv) (mem_of_mem_filter hu')
  · show (u, id) ∈ s.committing.filter (·.1 ≠ t) ↔ _
    simp [hne]

theorem runRound2_plainly (d : Dispute) (verdict : Verdict) : Plainly R t (runRound2 R t d verdict)
      (fun s => Past 0 d s ∧ Based R d .second verdict s) fun _ _ => True := by
  intro F hF
  have hkept := (kept_past 0 d).and (kept_based (R := R) d .second verdict)
  have hend : ∀ {E : Fault → Store → Prop}, (protocol R).Ensures t
      (Task.modify (endRound2 t) : Work Unit) F (fun _ => F) E := by
    intro E
    refine .act (fun _ => framed_stable hF) fun s hi hf => ?_
    obtain ⟨hunraced, hmoves⟩ := endRound2_unraced hi.2 t
    have hinv : Inv R (endRound2 t s) :=
      hi.1.frame rfl rfl rfl rfl (fun _ h => h) fun _ h => .inl h
    exact ⟨⟨hinv, hunraced⟩, hmoves, hF.quiet _ _ hi ⟨hinv, hunraced⟩ ⟨hmoves.lawful, rfl⟩ hf⟩
  refine .bind (Q := fun _ => Committing R t 0 d verdict F)
    (Ensures.act (fun _ => committing_stable hF) fun s hi hl => ?_) fun _ => ?_
  · obtain ⟨hunraced, hmoves, hopen⟩ := beginRound2_unraced hi.2 t d.disputeId
    have hinv : Inv R (beginRound2 t d.disputeId s) :=
      hi.1.frame rfl rfl rfl rfl (fun _ h => h) fun _ h => .inl h
    exact ⟨⟨hinv, hunraced⟩, hmoves, ⟨hopen, hkept _ _ hmoves.lawful.forward hl.1⟩,
      hF.quiet _ _ hi ⟨hinv, hunraced⟩ ⟨hmoves.lawful, rfl⟩ hl.2⟩
  · refine .weaken (Ensures.andFinally
      ((commitRound2Verdict_ensures hF).bind fun _ => .pure fun _ _ h => h)
      (fun _ => hend) fun _ => hend) (fun _ _ _ h => ⟨trivial, h⟩) fun _ _ _ h => h

/-- **The round-1 commit**: afterwards round 1 is decided, by this verdict or another. -/
theorem commitRound1_spec {s' : Store} {resolvedAt : Nat} {signature : String}
    {persisted : Bool} (hi : Inv R s) (hp : Past 0 d s) (hb : Based R d .first verdict s)
    (h : commitRound1 d.disputeId (resolutionRow R verdict resolvedAt signature) s
      = (persisted, s')) : Inv R s' ∧ Plain s s' ∧ (s'.resolutions d.disputeId .first).isSome := by
  obtain ⟨d₀, hd₀, hadv, -⟩ := hp
  obtain ⟨hkey, hlive⟩ := hi.keyed _ d₀ hd₀
  unfold commitRound1 at h
  cases hmove : moveDispute d.disputeId (fun st => st == .evidence || st == .arbitration)
      (·.resolved (resolutionRow R verdict resolvedAt signature)) s with
  | none =>
    rw [hmove] at h
    cases h
    -- the dispute is in another state, so it is decided
    have hother := moveDispute_none hmove hd₀
    refine ⟨hi, .refl s, (hi.first _).mpr ⟨d₀, hd₀, ?_⟩⟩
    cases hst : d₀.state with
    | opened => rw [hst] at hlive; exact absurd hlive.1 (by decide)
    | evidence | arbitration => rw [hst] at hother; cases hother
    | resolved | appealed | final | expired => decide
  | some s₁ =>
    rw [hmove] at h
    obtain ⟨x, hx, hok, rfl⟩ := moveDispute_some hmove
    rw [hd₀] at hx
    cases hx
    cases hrow : s.resolutions d.disputeId .first with rw [hrow] at h
    | some =>
      cases h
      exact ⟨hi, .refl s, by rw [hrow]; rfl⟩
    | none =>
      cases h
      have hself : getDispute d₀.disputeId s = some d₀ := by rw [hkey]; exact hd₀
      have hrank : rank d₀.state ≤ 3 := by
        rcases Bool.or_eq_true_iff.mp hok with hst | hst
        · rw [beq_iff_eq.mp hst]
          decide
        · rw [beq_iff_eq.mp hst]
          decide
      have hbased : relayIsParty R d₀ = true → Tallied s d₀.disputeId .first
          (resolutionRow R verdict resolvedAt signature).resolution
          (resolutionRow R verdict resolvedAt signature).adjudicatorVotes := by
        intro hparty
        rw [hadv.party] at hparty
        rw [hkey]
        exact (hb hparty).1
      rw [← hkey] at hrow ⊢
      obtain ⟨hinv, hfwd⟩ := hi.round1 hself hrank hrow hbased
      have haside : Aside s ((s.putDispute (d₀.resolved
          (resolutionRow R verdict resolvedAt signature))).putResolution d₀.disputeId .first
          (resolutionRow R verdict resolvedAt signature)) := by
        refine ⟨fun id => ?_, rfl, rfl, rfl⟩
        rw [resolutions_put, if_neg fun h => by cases h.2]
        rfl
      refine ⟨hinv, .of_frame hfwd ⟨rfl, rfl, rfl⟩ haside, ?_⟩
      rw [resolutions_put, if_pos ⟨rfl, rfl⟩]
      rfl

theorem finalizeFederationResolution_plainly (d : Dispute) (verdict : Verdict) (resolvedAt : Nat) :
    Plainly R t (finalizeFederationResolution R d.disputeId verdict resolvedAt)
      (fun s => Past 0 d s ∧ Based R d .first verdict s)
      fun _ s => (s.resolutions d.disputeId .first).isSome = true := by
  have hkept := (kept_past 0 d).and (kept_based (R := R) d .first verdict)
  have hdecided := kept_decided d.disputeId
  refine .bind (.wait .signResolution (fun _ _ => rfl) hkept) fun signed => ?_
  cases signed with
  | none => exact .throw
  | some =>
    refine .bind (.wait .commit (fun _ _ => rfl) hkept) fun taken => ?_
    refine .ite (fun _ => ?_) fun _ => .throw
    refine .bind (.act (fun _ => hdecided) fun s hi h => commitRound1_spec hi h.1 h.2 rfl)
      fun persisted => ?_
    refine .ite (fun _ => .pure fun _ _ h => h) fun _ => ?_
    refine .bind ?_ fun standing => .pure fun _ _ h => h
    refine .bind (.look hdecided) fun dispute => ?_
    exact .bind (.look hdecided) fun row => .pure fun _ _ h => h

/-! ## §5. Orchestration -/

/-- What an orchestration's verdict rests on; the appeal route's own, its quorum too. -/
def Result (door : Door) (d : Dispute) (round : Round) (verdict : Verdict) (s : Store) : Prop :=
  Tallied s d.disputeId round verdict.resolution verdict.adjudicatorVotes ∧
    (door = .appeal → Quorate s round verdict.adjudicatorVotes)

theorem kept_result (door : Door) (d : Dispute) (round : Round) (verdict : Verdict) :
    Kept (Result door d round verdict) :=
  fun _ _ hf h => ⟨h.1.mono hf.fanouts, fun hdoor => (h.2 hdoor).mono hf.fanouts⟩

theorem kept_polled (id : String) (round : Round) (peers : List String)
    (persisted : List AdjudicatorVote) : Kept fun s => Polled s id round peers persisted :=
  fun _ _ hf h => h.mono hf.fanouts

theorem kept_fanout (f : Fanout) : Kept fun s => f ∈ s.fanouts := fun _ _ hf h => hf.fanouts f h

theorem fanout_plainly (hL : Kept L) (door : Door) (id : String) (round : Round)
    (persisted : List AdjudicatorVote) (contacted : List String) :
    Plainly R t (Task.ask (Wait.fanout door id round persisted contacted)) L fun answers s =>
      L s ∧ (⟨door, id, round, persisted, contacted, answers⟩ : Fanout) ∈ s.fanouts := by
  intro F hF
  refine .ask (fun answers => framed_stable (((hL.and (kept_fanout _)).framed t).and hF))
    fun s answers s' hi hl ha => ?_
  cases ha
  have hmono : ∀ f ∈ s.fanouts, f ∈ (⟨door, id, round, persisted, contacted, answers⟩ : Fanout)
      :: s.fanouts := fun f hf => mem_cons_of_mem _ hf
  set s' := answered s (.fanout door id round persisted contacted) answers
  have hfwd : Forward s s' := .of_eq rfl rfl (fun _ h => h) hmono rfl
  have hinv : Inv R s' := hi.1.frame rfl rfl rfl rfl hmono fun _ h => .inl h
  have hplain : Plain s s' := .of_frame hfwd ⟨rfl, rfl, rfl⟩ ⟨fun _ => rfl, rfl, rfl, rfl⟩
  have hi' : (protocol R).Inv s' := ⟨hinv, hi.2.aside hplain.2⟩
  exact ⟨hi', hplain.moves t, ⟨hL _ _ hfwd hl.1, mem_cons_self⟩, hF.quiet _ _ hi hi' hplain.1 hl.2⟩

theorem insertVotes_plainly (hL : Kept L) {votes : List AdjudicatorVote}
    (hcast : ∀ s, L s → ∀ v ∈ votes, Cast s v) :
    Plainly R t (Task.forEach (fun v => Task.modify (insertVote v)) votes) L fun _ => L := by
  intro F hF
  refine .weaken (Ensures.forEach fun v hv => ?_) (fun _ _ _ h => h) fun _ _ _ h => h
  refine Plainly.modify hL (fun s hi hl => ⟨hi.vote (hcast s hl v hv), .of_frame ?_
    ⟨rfl, rfl, rfl⟩ ⟨fun _ => rfl, rfl, rfl, rfl⟩⟩) F hF
  exact .of_eq rfl rfl (fun _ h => h) (fun _ h => h) rfl

theorem orchestrateFederationResolution_plainly (door : Door) (d : Dispute) (round : Round) :
    Plainly R t (orchestrateFederationResolution R door d round) (fun _ => True)
      (Result door d round) := by
  refine .bind (.act (Q := fun peers _ => peers.Nodup) (fun _ => kept_const _) fun s hi _ =>
    ⟨hi, .refl s, votingPeers_nodup _ s⟩) fun peers => ?_
  -- what the persisted votes are is known from the moment they were read
  refine .bind (.act (Q := fun persisted s => Polled s d.disputeId round peers persisted)
    (fun persisted => kept_polled d.disputeId round peers persisted) fun s hi hnodup =>
    ⟨hi, .refl s, persistedVotes_distinct s _ _, persistedVotes_cast hi, hnodup⟩)
    fun persisted => ?_
  have hkept := kept_polled d.disputeId round peers persisted
  refine .ite (fun hquorum => .pure fun s _ h => ?_) fun _ => ?_
  · unfold Result
    rw [aggregateVotes_votes]
    exact ⟨⟨h.distinct, h.cast, aggregateVotes_outcome _ _ _⟩, fun _ _ _ => hquorum⟩
  refine .ite (fun _ => .throw) fun _ => ?_
  refine .ite (fun _ => .throw) fun _ => ?_
  refine .bind (.wait .signVoteRequest (fun _ _ => rfl) hkept) fun signed => ?_
  refine .ite (fun _ => ?_) fun _ => .throw
  refine .bind (fanout_plainly hkept door d.disputeId round persisted
    (unpolled peers persisted)) fun answers => ?_
  refine .bind (insertVotes_plainly (hkept.and (kept_fanout _)) fun s h v hv =>
    (validAnswers_cast h.2 v hv).1) fun _ => .pure fun s _ h => ⟨?_, fun hdoor => ?_⟩
  · exact fanout_tallied h.1 h.2 peers.length d.filerRole
  · subst hdoor
    rw [aggregateVotes_votes]
    exact fanout_quorate h.2

theorem initOrchestration_plainly (d : Dispute) (round : Round) (now : Nat) :
    Plainly R t (initOrchestration d.disputeId round now) (Past 0 d) fun _ => Past 0 d := by
  refine .bind (.look (kept_past 0 d)) fun found => ?_
  cases found with
  | some => exact .pure fun _ _ h => h
  | none =>
    refine .txn (fun _ => kept_past 0 d) fun s _ s' hi hp h => ?_
    split at h
    · cases h
    cases h
    have hfwd := Forward.orchestration s d.disputeId round (firstAttempt now)
    refine ⟨hi.orchestration fun _ => ?_,
      .of_frame hfwd ⟨rfl, rfl, rfl⟩ ⟨fun _ => rfl, rfl, rfl, rfl⟩, kept_past 0 d _ _ hfwd hp⟩
    obtain ⟨d', hd', -⟩ := hp
    exact ⟨⟨d', hd'⟩, fun _ => rfl, fun hne => absurd rfl hne⟩

theorem recordOrchestrationAttempt_plainly (hL : Kept L) (id : String) (round : Round)
    (now : Nat) : Plainly R t (recordOrchestrationAttempt id round now) L fun _ => L := by
  refine .bind (.look hL) fun found => ?_
  cases found with
  | none => exact .throw
  | some =>
    refine .bind (.modify hL fun s hi _ => reattempt_plain hi id round (fun _ => rfl)
      fun _ => rfl) fun _ => ?_
    refine .bind (.look hL) fun found => ?_
    cases found with
    | none => exact .throw
    | some => exact .pure fun _ _ h => h

/-! ## §6. Attempts -/

/-- How an attempt ends: `F` is what the thread knew of its attempts, `F'` what it knows once
    its row is marked. -/
def Attempted (d : Dispute) (round : Round) (F F' : Store → Prop) : AttemptOutcome → Store → Prop
  | .deferred _, s => F s
  | .ready v, s => (Past 0 d s ∧ Result .attempt d round v s) ∧ F' s ∧
      FEDERATION_QUORUM_MIN ≤ v.adjudicatorVotes.length
  | .timedOut v, s => (Past 0 d s ∧ Result .attempt d round v s) ∧ F' s

/-- The mark of thread `t`'s attempt keeps what is known of disputes and takes `F` to `F'`. -/
def Marks (R : Relay) (t : Nat) (d : Dispute) (round : Round) (F F' : Store → Prop)
    (mark : Store → Store) : Prop :=
  ∀ v, (protocol R).Ensures t
    (Task.modify (markTerminal t d.disputeId round mark) : Work Unit)
    (fun s => (Past 0 d s ∧ Result .attempt d round v s) ∧ F s)
    (fun _ s => (Past 0 d s ∧ Result .attempt d round v s) ∧ F' s) fun _ s => F s

theorem attempt_ensures (d : Dispute) (round : Round) {F' : Store → Prop} (hF : Framed R t F)
    (hdone : Marks R t d round F F' (markOrchestrationDone d.disputeId round))
    (htimedOut : Marks R t d round F F' (markOrchestrationTimedOut d.disputeId round)) :
    (protocol R).Ensures t (attemptOrFinalizeFederationResolution R t d round)
      (fun s => Past 0 d s ∧ F s) (Attempted d round F F') fun _ s => F s := by
  refine (Plainly.look (kept_past 0 d) F hF).bind fun now => ?_
  refine (initOrchestration_plainly d round now F hF).bind fun _ => ?_
  have horch := ((orchestrateFederationResolution_plainly (t := t) (R := R) .attempt d
    round).frame (kept_past 0 d)).mono (fun s _ h => ⟨trivial, h⟩)
  refine (horch F hF).bind fun v => ?_
  have hkept := (kept_result .attempt d round v).and (kept_past 0 d)
  refine (recordOrchestrationAttempt_plainly hkept d.disputeId round now F hF).bind
    fun updated => ?_
  split
  · next hquorum =>
      refine ((hdone v).mono fun s _ h => ⟨⟨h.1.2, h.1.1⟩, h.2⟩).bind fun _ => ?_
      exact .pure fun s _ h => ⟨h.1, h.2, hquorum⟩
  · split
    · refine ((htimedOut v).mono fun s _ h => ⟨⟨h.1.2, h.1.1⟩, h.2⟩).bind fun _ => ?_
      exact .pure fun s _ h => h
    · exact .pure fun s _ h => h.2

theorem marks_second (d : Dispute) (hF : Framed R t F) (set : OrchestrationRow → OrchestrationRow) :
    Marks R t d .second F F (updateOrchestration d.disputeId .second set) := by
  intro v
  have hkept := (kept_past 0 d).and (kept_result .attempt d .second v)
  exact Plainly.modify hkept (fun s hi _ => second_plain hi d.disputeId set) F hF

theorem marks_first (d : Dispute) (set : OrchestrationRow → OrchestrationRow)
    (hstatus : ∀ row, (set row).status ≠ .inProgress) :
    Marks R t d .first (Trying t d.disputeId) (Own t d.disputeId)
      (updateOrchestration d.disputeId .first set) := by
  intro v
  have hkept := (kept_past 0 d).and (kept_result .attempt d .first v)
  refine .act (fun _ => framed_stable ((hkept.framed t).and framed_running)) fun s hi hl => ?_
  obtain ⟨hinv, hfwd⟩ := hi.1.mark (fun a ha => (hl.2 a ha).1) hstatus
  have hself : ∀ a, (t, a) ∈ (t, (⟨d.disputeId, true⟩ : Attempt)) :: s.running.filter (·.1 ≠ t) →
      a.disputeId = d.disputeId := by
    intro a ha
    rcases mem_cons.mp ha with heq | hmem
    · rw [(Prod.mk.inj heq).2]
    · exact absurd hmem (idle_filter t s.running a)
  have hothers : ∀ u, u ≠ t → ∀ a, (u, a) ∈ (t, (⟨d.disputeId, true⟩ : Attempt)) ::
      s.running.filter (·.1 ≠ t) ↔ (u, a) ∈ s.running := by
    intro u hu a
    rw [mem_cons, mem_others hu]
    exact ⟨fun h => h.resolve_left fun heq => hu (Prod.mk.inj heq).1, .inr⟩
  have hkept' := hkept _ _ hfwd hl.1
  have heq : markAttempt t d.disputeId (updateOrchestration d.disputeId .first set s) =
      { s with
        orchestrations := (updateOrchestration d.disputeId .first set s).orchestrations
        running := (t, ⟨d.disputeId, true⟩) :: s.running.filter (·.1 ≠ t) } := by
    rw [updateOrchestration_eq]
    rfl
  rw [heq] at hinv hfwd hkept'
  rw [show markTerminal t d.disputeId .first (updateOrchestration d.disputeId .first set) s = _
    from heq]
  exact ⟨⟨hinv, hi.2.aside ⟨fun _ => rfl, rfl, rfl, rfl⟩⟩, ⟨.of_escrow hfwd rfl rfl, hothers,
    fun _ _ _ => Iff.rfl, fun _ hne => absurd rfl hne, fun hr => hr⟩, hkept', hself⟩

theorem running_moves {running : List (Nat × Attempt)} (interrupted : Bool)
    (h : ∀ u, u ≠ t → ∀ a, (u, a) ∈ running ↔ (u, a) ∈ s.running) :
    Moves t s { s with running := running, interrupted := interrupted } where
  lawful := .of_escrow (.of_eq rfl rfl (fun _ h => h) (fun _ h => h) rfl) rfl rfl
  running := h
  committing _ _ _ := Iff.rfl
  second _ hne := absurd rfl hne
  raced hr := hr

theorem Unraced.running (h : Unraced s) (running : List (Nat × Attempt)) (interrupted : Bool) :
    Unraced { s with running := running, interrupted := interrupted } :=
  h.aside ⟨fun _ => rfl, rfl, rfl, rfl⟩

theorem begin_ensures (d : Dispute) :
    (protocol R).Ensures t (Task.modify (beginAttempt t d.disputeId) : Work Unit)
      (fun s => Past 0 d s ∧ Idle t s) (fun _ s => Past 0 d s ∧ Trying t d.disputeId s) E := by
  refine .act
    (fun _ => framed_stable (((kept_past 0 d).framed t).and framed_running)) fun s hi hl => ?_
  have hmoves : Moves t s (beginAttempt t d.disputeId s) := by
    refine running_moves s.interrupted fun u hu a => ?_
    rw [mem_cons]
    exact ⟨fun h => h.resolve_left fun heq => hu (Prod.mk.inj heq).1, .inr⟩
  refine ⟨⟨hi.1.begin t d.disputeId, hi.2.running _ _⟩, hmoves,
    kept_past 0 d _ _ hmoves.lawful.forward hl.1, fun a ha => ?_⟩
  rcases mem_cons.mp ha with heq | hmem
  · rw [(Prod.mk.inj heq).2]
    exact ⟨rfl, rfl⟩
  · exact absurd hmem (hl.2 a)

theorem end_ensures (h : ∀ s, L s → ∀ id, (t, (⟨id, true⟩ : Attempt)) ∈ s.running →
      (s.resolutions id .first).isSome = true) :
    (protocol R).Ensures t (Task.modify (endAttempt t) : Work Unit) L (fun _ => Idle t) E := by
  refine .act (fun _ => framed_stable framed_running) fun s hi hl => ?_
  exact ⟨⟨hi.1.endAttempt (h s hl), hi.2.running _ _⟩,
    running_moves s.interrupted fun u hu a => mem_others hu, idle_filter t s.running⟩

theorem abandon_ensures :
    (protocol R).Ensures t (Task.modify (abandonAttempt t) : Work Unit) L (fun _ => Idle t) E := by
  refine .act (fun _ => framed_stable framed_running) fun s hi hl => ?_
  exact ⟨⟨hi.1.abandon t, hi.2.running _ _⟩, running_moves _ fun u hu a => mem_others hu,
    idle_filter t s.running⟩

theorem commitAttempt_ensures (d : Dispute) (cycle : Option Nat) (verdict : Verdict) :
    (protocol R).Ensures t (commitAttempt R t d cycle verdict)
      (fun s => (Past 0 d s ∧ Result .attempt d .first verdict s) ∧ Own t d.disputeId s)
      (fun _ => Idle t) fun _ _ => True := by
  have hkept := (kept_past 0 d).and (kept_result .attempt d .first verdict)
  have hown : Framed R t (Own t d.disputeId) := framed_running
  refine ((Plainly.look hkept _ hown).weaken (fun _ _ _ h => h) fun _ _ _ _ => trivial).bind
    fun now => ?_
  have hbased : ∀ s, Inv R s → Past 0 d s ∧ Result .attempt d .first verdict s →
      Past 0 d s ∧ Based R d .first verdict s :=
    fun s _ h => ⟨h.1, fun _ => ⟨h.2.1, nofun⟩⟩
  have hcommit := (finalizeFederationResolution_plainly (R := R) (t := t) d verdict
    (cycle.getD now)).mono hbased
  refine ((hcommit _ hown).weaken (fun _ _ _ h => h) fun _ _ _ _ => trivial).bind
    fun committed => ?_
  refine (end_ensures fun s hl id hmem => ?_).bind fun _ => .pure fun _ _ h => h
  rw [show id = d.disputeId from hl.2 _ hmem]
  exact hl.1

/-- **An attempt and its commit** leave the thread with no attempt in flight. -/
theorem adjudicate_ensures (d : Dispute) (cycle : Option Nat) :
    (protocol R).Ensures t (adjudicate R t d cycle) (fun s => Past 0 d s ∧ Idle t s)
      (fun _ => Idle t) fun _ _ => True := by
  refine (begin_ensures d).bind fun _ => ?_
  have hattempt := attempt_ensures (R := R) (t := t) d .first framed_running
    (marks_first d _ nofun) (marks_first d _ nofun)
  refine (hattempt.weaken (fun _ _ _ h => h) fun _ _ _ _ => trivial).bind fun outcome => ?_
  cases outcome with
  | deferred =>
    refine (end_ensures fun s hl id hmem => ?_).bind fun _ =>
      Ensures.pure fun _ _ h => h
    exact Bool.noConfusion (hl _ hmem).2
  | ready verdict =>
    exact (commitAttempt_ensures d cycle verdict).mono fun s _ h => ⟨h.1, h.2.1⟩
  | timedOut verdict => exact commitAttempt_ensures d cycle verdict

/-! ## §7. The routes -/

theorem readStandingRecord_plainly (hL : Kept L) (id : String) :
    Plainly R t (readStandingRecord id) L fun _ => L := by
  exact .bind (.look hL) fun _ => .bind (.look hL) fun _ => .pure fun _ _ h => h

theorem resolveSingleRelay_plainly (d : Dispute) (body : ResolveBody)
    (hparty : relayIsParty R d = false) :
    Plainly R t (resolveSingleRelay R d body) (Past 0 d) fun _ _ => True := by
  unfold resolveSingleRelay
  cases operatorVerdict body d.filerRole with
  | error => exact .throw
  | ok verdict =>
    refine .bind (.look (kept_past 0 d)) fun resolvedAt => ?_
    refine .bind ((finalizeFederationResolution_plainly d verdict resolvedAt).mono
      fun s _ h => ⟨h, fun hp => ?_⟩) fun committed => .skip
    rw [hparty] at hp
    cases hp

theorem reconcile_plainly (d : Dispute) (body : ResolveBody) (outcome : ResolveOutcome) :
    Plainly R t (reconcile R d body outcome) L fun _ _ => True := by
  have hstanding : Plainly R t (ResolveOutcome.notCommitted <$> readStandingRecord d.disputeId) L
      fun _ _ => True :=
    Plainly.bind ((readStandingRecord_plainly (kept_const True) d.disputeId).mono
      fun _ _ _ => trivial) fun _ => .skip
  refine .ite (fun _ => .skip) fun _ => ?_
  cases outcome with
  | resolved => exact .ite (fun _ => .skip) fun _ => hstanding
  | deferred => exact .skip
  | notCommitted standing =>
    obtain ⟨state, resolution⟩ := standing
    cases resolution with
    | none => exact .skip
    | some => exact .ite (fun _ => .skip) fun _ => .skip

theorem arbitration_plain (hi : Inv R s) (id : String) :
    Inv R ((moveDispute id (· == .evidence) (fun d => { d with state := .arbitration }) s).getD s) ∧
      Plain s ((moveDispute id (· == .evidence)
        (fun d => { d with state := .arbitration }) s).getD s) := by
  cases hm : moveDispute id (· == .evidence) (fun d => { d with state := .arbitration }) s with
  | none => exact ⟨hi, .refl s⟩
  | some =>
    obtain ⟨d, hd, hok, rfl⟩ := moveDispute_some hm
    obtain ⟨rfl, -⟩ := hi.keyed id d hd
    have hst : d.state = .evidence := beq_iff_eq.mp hok
    have hadv : Advance d { d with state := .arbitration } :=
      ⟨rfl, rfl, rfl, rfl, by rw [hst]; exact Nat.le_succ 1⟩
    refine ⟨hi.advance hd hadv ⟨Nat.le_succ 1, Nat.le_add_left 2 3⟩ fun h => absurd h ?_,
      .of_frame (.put hd hadv) ⟨rfl, rfl, rfl⟩ ⟨fun _ => rfl, rfl, rfl, rfl⟩⟩
    exact (by decide : ¬3 ≤ 2)

theorem resolveFederation_ensures (d : Dispute) :
    (protocol R).Ensures t (resolveFederation R t d) (fun s => Past 0 d s ∧ Idle t s)
      (fun _ _ => True) fun _ _ => True := by
  have hadj : (protocol R).Ensures t
      (Task.catching (adjudicate R t d none) fun e => do
        Task.modify (abandonAttempt t)
        throw e : Work ResolveOutcome) (fun s => Past 0 d s ∧ Idle t s) (fun _ _ => True)
      fun _ _ => True := by
    refine .catching
      ((adjudicate_ensures d none).weaken (fun _ _ _ _ => trivial) fun _ _ _ h => h) fun e => ?_
    exact abandon_ensures.bind fun _ => .throw fun _ _ _ => trivial
  unfold resolveFederation
  split
  · have hmove := Plainly.modify (R := R) (t := t) (kept_past 0 d)
      fun s hi _ => arbitration_plain hi d.disputeId
    exact ((hmove _ framed_running).weaken (fun _ _ _ h => h) fun _ _ _ _ => trivial).bind
      fun _ => hadj
  · exact hadj

/-- The thread has no attempt in flight and has read the dispute. -/
abbrev Ready (t : Nat) (d : Dispute) (s : Store) : Prop := Past 0 d s ∧ Idle t s

theorem Plainly.idle (hx : Plainly R t x L Q) :
    (protocol R).Ensures t x (fun s => L s ∧ Idle t s) (fun a s => Q a s ∧ Idle t s)
      fun _ _ => True :=
  (hx (Idle t) framed_running).weaken (fun _ _ _ h => h) fun _ _ _ _ => trivial

theorem resolveRound1_ensures (d : Dispute) (body : ResolveBody) :
    (protocol R).Ensures t (resolveRound1 R t d body) (Ready t d) (fun _ _ => True)
      fun _ _ => True := by
  have hdone : ∀ outcome, (protocol R).Ensures t (reconcile R d body outcome) (fun _ => True)
      (fun _ _ => True) fun _ _ => True := fun outcome =>
    ((reconcile_plainly (L := fun _ => True) d body outcome _
      (Protocol.Framed.const True)).mono fun _ _ _ => ⟨trivial, trivial⟩).weaken
        (fun _ _ _ _ => trivial) fun _ _ _ _ => trivial
  refine (readStandingRecord_plainly (kept_past 0 d) d.disputeId).idle.bind fun standing => ?_
  cases hstanding : standing.resolution with
  | some =>
    dsimp only
    split
    · exact .pure fun _ _ _ => trivial
    · exact .pure fun _ _ _ => trivial
  | none =>
    dsimp only
    split
    · exact .throw fun _ _ _ => trivial
    refine (Plainly.look (kept_past 0 d)).idle.bind fun now => ?_
    split
    · exact .throw fun _ _ _ => trivial
    split
    · exact (resolveFederation_ensures d).bind hdone
    · next hparty =>
        refine ((resolveSingleRelay_plainly d body (by simpa using hparty)).idle.weaken
          (fun _ _ _ _ => trivial) fun _ _ _ h => h).bind hdone

theorem secondRound_ensures (d : Dispute) (body : ResolveBody) (hparty : relayIsParty R d = false) :
    (protocol R).Ensures t
      (match operatorVerdict body d.filerRole with
        | .error e => throw e
        | .ok verdict => runRound2 R t d verdict : Work Unit) (Ready t d) (fun _ _ => True)
      fun _ _ => True := by
  cases operatorVerdict body d.filerRole with
  | error => exact .throw fun _ _ _ => trivial
  | ok verdict =>
    refine (((runRound2_plainly d verdict).mono fun s _ h => ⟨h, fun hp => ?_⟩).idle).weaken
      (fun _ _ _ _ => trivial) fun _ _ _ h => h
    rw [hparty] at hp
    cases hp

theorem resolve_ensures (disputeId : String) (body : ResolveBody) :
    (protocol R).Ensures t (resolve R t disputeId body) (Idle t) (fun _ _ => True)
      fun _ _ => True := by
  have hread : Plainly R t (Task.read (getDispute disputeId)) (fun _ => True) fun found s =>
      True ∧ ∀ d, found = some d → Past 0 d s :=
    .read (kept_const True) (fun found s s' hf h d hd => kept_past 0 d s s' hf (h d hd))
      fun s hi _ d hd => past_of_get hi hd
  refine (hread.idle.mono fun s _ h => ⟨trivial, h⟩).bind fun found => ?_
  cases found with
  | none => exact .throw fun _ _ _ => trivial
  | some read =>
    refine (((tryFinalizeIfWindowExpired_plainly read false).mono
      fun s _ h => h.2 read rfl).idle).bind fun d => ?_
    have hround1 : (protocol R).Ensures t
        (do
          let _ ← resolveRound1 R t d body : Work Unit) (Ready t d) (fun _ _ => True)
        fun _ _ => True :=
      (resolveRound1_ensures d body).bind fun _ => .pure fun _ _ _ => trivial
    by_cases hc : d.state = .appealed ∧ (!relayIsParty R d) = true
    · rw [if_pos hc]
      refine .bind ((Plainly.look (kept_past 0 d)).idle.mono
        fun s _ h => ⟨h.1.1, h.2⟩) fun round2 => ?_
      cases round2 with
      | true => exact secondRound_ensures d body (by simpa using hc.2)
      | false => exact hround1
    · rw [if_neg hc]
      refine .bind (Ensures.pure (Q := fun round2 s => Ready t d s ∧ round2 = false)
          fun s _ h => ⟨⟨h.1.1, h.2⟩, rfl⟩) fun round2 => .of_pure fun hfalse => ?_
      rw [hfalse]
      exact hround1

theorem appealRound2_plainly (d : Dispute) :
    Plainly R t (appealRound2 R t d) (Past 0 d) fun _ _ => True := by
  have horch := ((orchestrateFederationResolution_plainly (t := t) (R := R) .appeal d
    .second).frame (kept_past 0 d)).mono (fun s _ h => ⟨trivial, h⟩)
  refine .bind horch fun verdict => ?_
  refine (runRound2_plainly d verdict).mono fun s _ h => ⟨h.2, fun _ => ?_⟩
  exact ⟨h.1.1, h.1.2 rfl⟩

theorem checkAppeal_plainly (hL : Kept L) (d : Dispute) (ap : DisputeAppeal) :
    Plainly R t (checkAppeal d ap) L fun _ => L := by
  refine .ite (fun _ => .throw) fun _ => ?_
  refine .bind (.look hL) fun now => ?_
  refine .ite (fun _ => .throw) fun _ => ?_
  refine .ite (fun _ => .throw) fun _ => ?_
  refine .ite (fun _ => .throw) fun _ => ?_
  refine .ite (fun _ => .throw) fun _ => ?_
  refine .bind (.wait .verify (fun _ _ => rfl) hL) fun verification => ?_
  cases verification with
  | notRegistered | invalid => exact .throw
  | valid => exact .pure fun _ _ h => h

theorem markAppealed_plain (hi : Inv R s) (id : String) (appealedAt : Nat) :
    Inv R (markAppealed id appealedAt s).2 ∧ Plain s (markAppealed id appealedAt s).2 := by
  unfold markAppealed
  split
  · exact ⟨hi, .refl s⟩
  · split
    · exact ⟨hi, .refl s⟩
    · split
      · exact ⟨hi, .refl s⟩
      · rename_i s₁ hmove
        obtain ⟨d, hd, hok, rfl⟩ := moveDispute_some hmove
        obtain ⟨rfl, -⟩ := hi.keyed id d hd
        have hst : d.state = .resolved := beq_iff_eq.mp hok
        have hadv : Advance d { d with state := .appealed, appealedAt := some appealedAt } :=
          ⟨rfl, rfl, rfl, rfl, by rw [hst]; exact Nat.le_succ 3⟩
        refine ⟨hi.advance hd hadv ⟨Nat.le_add_left 1 3, Nat.le_succ 4⟩ fun _ => ?_,
          .of_frame (.put hd hadv) ⟨rfl, rfl, rfl⟩ ⟨fun _ => rfl, rfl, rfl, rfl⟩⟩
        rw [hst]
        exact Nat.le_refl 3

theorem appeal_plainly (disputeId : String) (ap : DisputeAppeal) :
    Quietly R t (appeal R t disputeId ap) := by
  refine .ite (fun _ => .throw) fun _ => ?_
  refine .bind (.read (Q := fun found s => ∀ d, found = some d → Past 0 d s) (kept_const True)
    (fun found s s' hf h d hd => kept_past 0 d s s' hf (h d hd))
    fun s hi _ d hd => past_of_get hi hd) fun found => ?_
  cases found with
  | none => exact .throw
  | some read =>
    refine .bind ((tryFinalizeIfWindowExpired_plainly read false).mono
      fun s _ h => h.2 read rfl) fun d => ?_
    refine .bind ((checkAppeal_plainly (kept_past 0 d) d ap).mono fun s _ h => h.1) fun _ => ?_
    refine .bind (.act (fun _ => kept_past 0 d) fun s hi hp => ?_) fun moved => ?_
    · obtain ⟨hinv, hplain⟩ := markAppealed_plain hi disputeId ap.appealedAt
      exact ⟨hinv, hplain, kept_past 0 d _ _ hplain.1.1.forward hp⟩
    · refine .ite (fun _ => ?_) fun _ => .throw
      exact .ite (fun _ => appealRound2_plainly d) fun _ => .skip

theorem readDispute_plainly (disputeId : String) : Quietly R t (readDispute R disputeId) := by
  refine .bind (.read
    (Q := fun found s => ∀ d, found = some d → Past 0 d s ∧ Live d.state) (kept_const True)
    (fun found s s' hf h d hd => ⟨kept_past 0 d s s' hf (h d hd).1, (h d hd).2⟩)
    fun s hi _ d hd => ⟨past_of_get hi hd, (hi.keyed _ d hd).2⟩) fun found => ?_
  cases found with
  | none => exact .throw
  | some read =>
    have hkept := (kept_past 0 read).and (kept_const (Live read.state))
    refine .bind (Q := fun d => Again read d) ?_ fun d => ?_
    · -- no dispute is filed as `opened`, so none expires
      refine .bind ((Plainly.look hkept).mono fun s _ h => h.2 read rfl) fun now => ?_
      refine .ite (fun hopen => ?_) fun _ => .pure fun s _ h => ⟨h.1, rfl⟩
      refine .bind (.act (Q := fun _ => Past 0 read) (fun _ => kept_past 0 read)
        fun s _ h => ?_) fun _ => reread_plainly read
      have hlive := h.2.1
      rw [hopen.1] at hlive
      cases hlive
    · refine .bind ((tryFinalizeIfWindowExpired_plainly d true).mono fun s _ h => h.1)
        fun _ => .skip

/-! ## §8. The worker -/

theorem workRound2_ensures (d : Dispute) :
    (protocol R).Ensures t (workRound2 R t d) (Ready t d) (fun _ => Idle t) fun _ => Idle t := by
  have hidle : Framed R t (Idle t) := framed_running
  refine (attempt_ensures d .second hidle (marks_second d hidle _)
    (marks_second d hidle _)).bind fun outcome => ?_
  cases outcome with
  | deferred => exact .pure fun _ _ h => h
  | timedOut => exact .pure fun _ _ h => h.2
  | ready verdict =>
    -- the dispute is read again; its verdict has a quorum whatever the appeal route did
    have hkept := (kept_result .attempt d .second verdict).and
      (kept_const (FEDERATION_QUORUM_MIN ≤ verdict.adjudicatorVotes.length))
    have hread : Plainly R t (Task.read (getDispute d.disputeId))
        (fun s => Result .attempt d .second verdict s ∧
          FEDERATION_QUORUM_MIN ≤ verdict.adjudicatorVotes.length) fun found s => _ ∧
        ∀ full, found = some full → Past 0 full s ∧ Based R full .second verdict s :=
      .read hkept (fun found s s' hf h full heq => ⟨kept_past 0 full s s' hf (h full heq).1,
          kept_based full .second verdict s s' hf (h full heq).2⟩)
        fun s hi h full heq => ⟨past_of_get hi heq, fun _ => by
          rw [(hi.keyed _ full heq).1]
          exact ⟨h.1.1, fun _ _ => h.2⟩⟩
    refine .bind ((hread _ hidle).mono fun s _ h => ⟨⟨h.1.2, h.2.2⟩, h.2.1⟩) fun found => ?_
    cases found with
    | none => exact .throw fun _ _ h => h.2
    | some full =>
      have hcommit := runRound2_plainly (R := R) (t := t) full verdict _ hidle
      exact (hcommit.mono fun s _ h => ⟨h.1.2 full rfl, h.2⟩).weaken (fun _ _ _ h => h.2)
        fun _ _ _ h => h

theorem workRound1_ensures (d : Dispute) (now : Nat) :
    (protocol R).Ensures t (workRound1 R t d now) (Ready t d) (fun _ => Idle t) E := by
  refine .catching ((adjudicate_ensures d (some now)).bind fun _ =>
    Ensures.pure fun _ _ h => h) fun e => abandon_ensures

/-- The rows a cycle took up are still there. -/
def Due (due : List (String × Round)) (s : Store) : Prop :=
  ∀ item ∈ due, (getOrchestrationState item.1 item.2 s).isSome = true

theorem kept_due (due : List (String × Round)) : Kept (Due due) :=
  fun _ _ hf h item hitem => hf.orchestrations _ _ (h item hitem)

theorem Kept.carried (hK : Kept K) (hx : (protocol R).Ensures t x L Q E) :
    (protocol R).Ensures t x (fun s => L s ∧ K s) (fun a s => Q a s ∧ K s) fun e s => E e s ∧ K s :=
  hx.frame (fun s s' _ _ hg => hK s s' hg.1.forward) (framed_stable (hK.framed t))

theorem workItem_ensures {due : List (String × Round)} {item : String × Round}
    (hitem : item ∈ due) (now : Nat) :
    (protocol R).Ensures t (workItem R t now item) (fun s => Idle t s ∧ Due due s)
      (fun _ s => Idle t s ∧ Due due s) fun _ _ => True := by
  have hdue := kept_due due
  -- a due round-1 row has its dispute
  have hread : Plainly R t (Task.read (getDispute item.1)) (Due due) fun found s => Due due s ∧
      ((∀ d, found = some d → Past 0 d s) ∧ (found = none → item.2 = .second)) := by
    refine .read hdue (fun found s s' hf h => ⟨fun d hd => kept_past 0 d s s' hf (h.1 d hd),
      h.2⟩) fun s hi h => ⟨fun d hd => past_of_get hi hd, fun hnone => ?_⟩
    cases hround : item.2 with
    | second => rfl
    | first =>
      obtain ⟨row, hrow⟩ := Option.isSome_iff_exists.mp (h item hitem)
      rw [hround] at hrow
      obtain ⟨d, hd⟩ := (hi.orchestrations item.1 row hrow).known
      rw [hnone] at hd
      cases hd
  refine (hread.idle.mono fun s _ h => ⟨h.2, h.1⟩).bind fun found => ?_
  cases found with
  | none =>
    refine (Ensures.of_pure fun hround => ?_).mono fun s _ h =>
      (⟨⟨h.1.1, h.2⟩, h.1.2.2 rfl⟩ : (Due due s ∧ Idle t s) ∧ item.2 = .second)
    rw [hround]
    have hmark := Plainly.modify (R := R) (t := t) hdue fun s hi _ => second_plain hi item.1
      fun row => { row with status := .timedOut, nextAttemptAt := none }
    exact hmark.idle.weaken (fun _ _ _ h => ⟨h.2, h.1⟩) fun _ _ _ h => h
  | some d =>
    refine .mono (L := fun s => Ready t d s ∧ Due due s) ?_
      fun s _ h => ⟨⟨h.1.2.1 d rfl, h.2⟩, h.1.1⟩
    cases item.2 with
    | first =>
      by_cases hopen : now < d.evidenceDeadline
      · simp only [hopen, if_true]
        exact .pure fun s _ h => ⟨h.1.2, h.2⟩
      · simp only [hopen, if_false]
        exact (hdue.carried (workRound1_ensures d now (E := fun _ _ => True))).weaken
          (fun _ _ _ h => h) fun _ _ _ _ => trivial
    | second =>
      exact (hdue.carried (Ensures.catching (workRound2_ensures d) fun e =>
        Ensures.pure (E := fun _ _ => True) fun _ _ h => h)).weaken
          (fun _ _ _ h => h) fun _ _ _ _ => trivial

theorem runDeferredOrchestrationCycle_ensures (limit : Nat) :
    (protocol R).Ensures t (runDeferredOrchestrationCycle R t limit) (Idle t) (fun _ _ => True)
      fun _ _ => True := by
  refine ((Plainly.look (kept_const True)).idle.mono fun s _ h => ⟨trivial, h⟩).bind fun now => ?_
  have hdue : Plainly R t (Task.read (getDueOrchestrations now limit)) (fun _ => True)
      fun due => Due due := by
    refine .act kept_due fun s hi _ => ⟨hi, .refl s, fun item hitem => ?_⟩
    have hmem : item ∈ getDueOrchestrations now limit s := hitem
    obtain ⟨row, hrow⟩ := Keyed.lookup_of_mem_smallest hmem
    exact Option.isSome_iff_exists.mpr ⟨row, hrow⟩
  refine hdue.idle.bind fun due => ?_
  exact ((Ensures.forEach fun item hitem => workItem_ensures hitem now).mono
    fun s _ h => ⟨h.2, h.1⟩).weaken (fun _ _ _ _ => trivial) fun _ _ _ h => h

/-! ## §9. Any interleaving -/

theorem verified (R : Relay) : Protocol.Verified (protocol R) where
  init s hs := by
    obtain ⟨now, rfl⟩ := hs
    exact ⟨⟨inv_empty now, fun _ => forall_mem_nil _, nofun⟩,
      fun _ _ h => by cases h⟩
  env s s' hi he := by
    obtain ⟨hinv, hdrift, haside⟩ := background_plain hi.1 he
    exact ⟨⟨hinv, hi.2.aside haside⟩, fun t hidle a ha => hidle a (by rw [← hdrift.2]; exact ha)⟩
  crash s s' hi hc := by
    cases hc
    exact ⟨⟨hi.1.abandonAll, hi.2.writes, nofun⟩, fun _ _ _ h => by cases h⟩
  fresh t u s s' htu _ hg hidle a ha := hidle a ((hg.running t htu a).mp ha)
  entry t p hp := by
    refine ⟨framed_stable framed_running, ?_⟩
    cases hp with
    | file allocationId req => exact (fileDispute_quietly allocationId req).detach
    | resolve disputeId body => exact (resolve_ensures disputeId body).detach
    | appeal disputeId ap => exact (appeal_plainly disputeId ap).detach
    | read disputeId => exact (readDispute_plainly disputeId).detach
    | cycle limit => exact (runDeferredOrchestrationCycle_ensures limit).detach

end Motebit.Disputes
