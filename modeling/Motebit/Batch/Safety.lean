/-
  Motebit.Batch.Safety — PAID OR REFUNDED, NEVER BOTH AND NEVER TWICE.

  Each function of the fire loop is checked once against local assertions: which rows the
  running tick holds claimed, and which row may be refunded.  Other ticks and the environment
  cannot break these, so the rely-guarantee rule gives the invariant of `Batch.Invariant` in
  every reachable configuration, whatever the interleaving and wherever the process dies.

  Main results: `tick_ensures`, `paid_or_refunded`.
-/

import Motebit.Batch.Environment

namespace Motebit.Batch

open Motebit.Lib List Function
open Motebit.Lib.Protocol
open Motebit.Accounts QueueRow

variable (uuid : Nat → String) (registry : Registry) (lands : String → Bool)

def protocol : Protocol (world uuid registry lands) where
  Inv := Inv uuid registry lands
  Guar := Guar
  Fresh _ _ := True
  refl := .refl

variable {uuid registry lands} {t : Nat} {rail : Rail}

/-! ## §1. Assertions a tick may hold on to -/

/-- Neither another tick nor a step that claims and hands over nothing breaks `L`. -/
abbrev Kept (uuid : Nat → String) (registry : Registry) (lands : String → Bool) (t : Nat)
    (L : Store → Prop) : Prop :=
  Framed (protocol uuid registry lands) Quiet t L

theorem kept_of_persists {L : Store → Prop} (h : ∀ s s', Persists s s' → L s → L s') :
    Kept uuid registry lands t L :=
  ⟨fun _ s s' _ _ _ hg => h s s' hg.persists, fun s s' _ _ hq => h s s' hq.persists⟩

theorem kept_onRail (id name : String) : Kept uuid registry lands t fun s => s.OnRail id name :=
  kept_of_persists fun _ _ hp => hp.onRail

theorem kept_handed (id : String) : Kept uuid registry lands t fun s => s.Handed id :=
  kept_of_persists fun _ _ hp => hp.isHanded

theorem kept_refundable (id : String) :
    Kept uuid registry lands t fun s => s.Refundable registry id :=
  kept_of_persists fun _ _ hp => hp.refundable

theorem kept_claimed (id : String) : Kept uuid registry lands t (Claimed t rail id) where
  others u s s' _ _ hu hg hl := by
    obtain ⟨hown, hnot, htaken⟩ := hl
    refine ⟨hg.owners id t hown, fun hh => ?_, hg.persists.taken htaken⟩
    obtain ⟨r, hr⟩ := hh
    rcases hg.handed _ hr with hold | hown'
    · exact hnot ⟨r, hold⟩
    · rw [hown] at hown'
      exact hu (Option.some.inj hown').symm
  quiet s s' _ _ hq hl := by
    obtain ⟨hown, hnot, htaken⟩ := hl
    refine ⟨by rw [hq.owner]; exact hown, fun hh => ?_, hq.persists.taken htaken⟩
    obtain ⟨r, hr⟩ := hh
    rw [hq.handed] at hr
    exact hnot ⟨r, hr⟩

theorem firedRecordFor_status (rail : Rail) (result : RailResult) (now : Nat) :
    (firedRecordFor rail result now).status ≠ .failed := by
  unfold firedRecordFor
  split
  · simp
  · split <;> simp

variable {s : Store} {q : QueueRow}

/-- A row handed to a manual rail may be refunded, and so may one the rail proved unsent. -/
theorem refundable_of_failure (hrail : rail ∈ registry.rails) {id : String} {notSent : Bool}
    (hh : s.Handed id) (hon : s.OnRail id rail.name) (hinert : notSent = true → s.Inert id)
    (hfail : failureNotSent (some rail) notSent = true) : s.Refundable registry id := by
  unfold failureNotSent at hfail
  simp only [Option.any_some, Bool.or_eq_true] at hfail
  rcases hfail with hman | hns
  · exact .inr ⟨rail, hrail, hman, hon⟩
  · exact .inl ⟨hh, hinert hns⟩

theorem claimed_handOver {id : String} {ids : List String} (hid : id ∉ ids)
    (h : Claimed t rail id s) : Claimed t rail id (s.handOver rail ids) := by
  obtain ⟨hown, hnot, htaken⟩ := h
  refine ⟨hown, fun hh => ?_, htaken⟩
  obtain ⟨r, hr⟩ := hh
  rcases mem_append.mp hr with hold | hnew
  · exact hnot ⟨r, hold⟩
  · obtain ⟨id', hid', heq⟩ := mem_map.mp hnew
    cases heq
    exact hid hid'

theorem settleItems_ensures {β : Type} {L : Store → Prop} {record : QueueRow → β → LoopTask Unit}
    {rows : List QueueRow}
    (hrecord : ∀ row ∈ rows, ∀ b, (protocol uuid registry lands).Ensures t (record row b) L
      (fun _ => L) fun _ _ => True) (items : List (String × β)) (answered : List String) :
    (protocol uuid registry lands).Ensures t (settleItems record rows items answered) L
      (fun _ => L) fun _ _ => True := by
  induction items generalizing answered with
  | nil => exact .pure fun _ _ hl => hl
  | cons item items ih =>
    obtain ⟨key, b⟩ := item
    unfold settleItems
    split
    · exact ih answered
    next row hrow =>
    split
    · exact ih answered
    · exact (hrecord row (mem_of_find?_eq_some hrow) b).bind fun _ => ih _

/-- The rows a call carries. -/
def Req.ids : Req → List String
  | .withdraw _ row => [row.pendingId]
  | .withdrawBatch _ rows => rows.map QueueRow.pendingId

/-- The answer is a `PayoutNotSentError`. -/
def Req.notSent : (r : Req) → Resp r → Bool
  | .withdraw .., .threw ns _ => ns
  | .withdraw .., .result _ => false
  | .withdrawBatch .., .threw ns _ => ns
  | .withdrawBatch .., .result .. => false

theorem Answer.cases {s' : Store} {r : Req} {a : Resp r} (h : Answer s r a s') :
    (r.notSent a = false ∧ s' = s) ∨
    (r.notSent a = true ∧ (∀ id ∈ r.ids, id ∉ s.left) ∧
      s' = { s with atRail := s.atRail.filter fun x => !r.ids.contains x.1 }) := by
  cases r with
  | withdraw =>
    cases a with
    | result => exact .inl ⟨rfl, h⟩
    | threw ns =>
      cases ns with
      | false => exact .inl ⟨rfl, h⟩
      | true =>
        obtain ⟨hstay, rfl⟩ := h
        refine .inr ⟨rfl, ?_, ?_⟩
        · intro id hid
          rw [mem_singleton.mp hid]
          exact hstay
        · simp [Req.ids, bne, Bool.beq_eq_decide_eq]
  | withdrawBatch =>
    cases a with
    | result => exact .inl ⟨rfl, h⟩
    | threw ns =>
      cases ns with
      | false => exact .inl ⟨rfl, h⟩
      | true =>
        obtain ⟨hstay, rfl⟩ := h
        refine .inr ⟨rfl, ?_, rfl⟩
        intro id hid
        obtain ⟨row, hrow, rfl⟩ := mem_map.mp hid
        exact hstay row hrow

theorem inv_init (now : Nat) : Inv uuid registry lands (Store.init now) := by
  refine ⟨⟨?_, ?_, ?_, ?_, ?_, ?_, ?_, ?_, ?_, ?_, ?_, ?_, ?_, ?_⟩, ?_, ?_⟩ <;>
    simp [Store.init, Ledger.empty, Books.empty]

section

variable (huuid : Injective uuid)
include huuid

theorem calm : Calm (protocol uuid registry lands) Quiet where
  guar t _ _ hq := hq.guar t
  env _ _ hi he := (Inv.env hi huuid he).2

/-! ## §2. Quiet steps -/

variable {L : Store → Prop} {rails : List Rail}

section

variable (hL : Kept uuid registry lands t L)
include hL

theorem dateNow_ensures :
    (protocol uuid registry lands).Ensures t dateNow L (fun _ => L) fun _ _ => True :=
  (calm huuid).step hL fun s hi _ => ⟨hi, .refl s⟩

theorem settleOwedRefund_ensures (id : String) (now : Nat) :
    (protocol uuid registry lands).Ensures t (settleOwedRefund id now) L (fun _ => L)
      fun _ _ => True := by
  refine (calm huuid).txn hL (fun _ => .true) (fun s b s' hi _ hf => ?_) fun _ _ _ _ _ => trivial
  -- a refusal by the freeze leaves the store alone; everything else is the refund itself
  split at hf
  · cases hf
    exact ⟨hi, .refl s⟩
  · exact hi.refund hf

theorem refundNotSent_ensures (row : QueueRow) (reason : String)
    (now : Nat) : (protocol uuid registry lands).Ensures t (refundNotSent row reason now)
      (fun s => L s ∧ s.Refundable registry row.pendingId) (fun _ => L) fun _ _ => True := by
  refine .bind (Q := fun _ => L) ?_ fun parked => ?_
  · refine .act (fun _ => (calm huuid).stable hL) fun s hi hl => ?_
    obtain ⟨hinv, hq⟩ := Inv.park hi reason now hl.2
    exact ⟨hinv, hq.guar t, hL.quiet _ _ hi hinv hq hl.1⟩
  · cases parked with
    | false => exact .pure fun _ _ hl => hl
    | true =>
      exact (settleOwedRefund_ensures huuid hL _ _).bind fun _ => .pure fun _ _ hl => hl

theorem recordOutcome_ensures {row : QueueRow} (hpos : 0 < row.amountMicro) {status : QueueStatus}
    (hstatus : status = .fired ∨ status = .unknown) (lastError : Option String)
    {fired : FiredRecord} (hfired : fired.status ≠ .failed) (now : Nat)
    (failureReason : Option String) : (protocol uuid registry lands).Ensures t
      (Task.txn fun s => s.recordOutcome uuid row status lastError fired now failureReason)
      L (fun _ => L) fun _ _ => True :=
  (calm huuid).txn hL (fun _ => .true)
    (fun _ _ _ hi _ hf => hi.recordOutcome huuid hstatus hfired hpos hf) fun _ _ _ _ _ => trivial

theorem markFired_ensures {row : QueueRow}
    (hpos : 0 < row.amountMicro) (rail : Rail) (result : RailResult) (now : Nat) :
    (protocol uuid registry lands).Ensures t
      (markFired uuid row (firedRecordFor rail result now) now) L (fun _ => L) fun _ _ => True :=
  (recordOutcome_ensures huuid hL hpos (.inl rfl) _ (firedRecordFor_status rail result now) _
    _).bind fun _ => .pure fun _ _ hl => hl

/-- **The money rule**: refund on proof that nothing left, hold otherwise. -/
theorem markFailed_ensures {row : QueueRow}
    (hpos : 0 < row.amountMicro) (rail : Option Rail) (notSent : Bool) (message : String)
    (now : Nat) :
    (protocol uuid registry lands).Ensures t (markFailed uuid rail row notSent message now)
      (fun s => L s ∧ (failureNotSent rail notSent = true → s.Refundable registry row.pendingId))
      (fun _ => L) fun _ _ => True := by
  unfold markFailed
  split
  · next hns => exact (refundNotSent_ensures huuid hL row message now).mono fun s _ hl => ⟨hl.1, hl.2 hns⟩
  · refine .mono ?_ fun s _ hl => hl.1
    exact (recordOutcome_ensures huuid hL hpos (.inr rfl) _ (by simp) _ _).bind
      fun _ => .pure fun _ _ hl => hl

theorem addFiring_ensures (ids : List String) :
    (protocol uuid registry lands).Ensures t (addFiring ids) L (fun _ => L) fun _ _ => True :=
  (calm huuid).step hL fun s hi _ =>
    hi.memory s.frozen (ids ++ s.firingHere) s.clock s.processStartedAt

theorem removeFiring_ensures (ids : List String) {E : Err → Store → Prop} :
    (protocol uuid registry lands).Ensures t (removeFiring ids) L (fun _ => L) E :=
  (calm huuid).step hL fun s hi _ =>
    hi.memory s.frozen (s.firingHere.filter fun id => !ids.contains id) s.clock s.processStartedAt

end

theorem firing_ensures {L' : Store → Prop} (hL' : Kept uuid registry lands t L') (ids : List String)
    {body : LoopTask Unit}
    (hbody : (protocol uuid registry lands).Ensures t body L (fun _ => L') fun _ _ => True) :
    (protocol uuid registry lands).Ensures t (Task.andFinally body (removeFiring ids)) L
      (fun _ => L') fun _ _ => True :=
  Ensures.andFinally hbody (fun _ => removeFiring_ensures huuid hL' ids)
    fun _ => removeFiring_ensures huuid (Framed.const True) ids

/-! ## §3. The send -/

theorem handOver_ensures (hrail : rail ∈ registry.rails) {ids : List String} (hnd : ids.Nodup)
    (hL : Kept uuid registry lands t L)
    (hkeep : ∀ s, L s → (∀ id ∈ ids, Claimed t rail id s) → L (s.handOver rail ids)) :
    (protocol uuid registry lands).Ensures t
      (Task.act fun s => ((), s.handOver rail ids) : LoopTask Unit)
      (fun s => L s ∧ ∀ id ∈ ids, Claimed t rail id s)
      (fun _ s => L s ∧ ∀ id ∈ ids, s.Handed id ∧ s.OnRail id rail.name) fun _ _ => True := by
  have hframed : Kept uuid registry lands t fun s => L s ∧ ∀ id ∈ ids, s.Handed id ∧ s.OnRail id rail.name :=
    hL.and (.forall_mem (fun id => (kept_handed id).and (kept_onRail id rail.name)) ids)
  refine .act (fun _ => (calm huuid).stable hframed) fun s hi hl => ?_
  obtain ⟨hinv, hguar⟩ := Inv.handOver hi t hrail hnd hl.2
  refine ⟨hinv, hguar, hkeep s hl.1 hl.2, fun id hid => ⟨⟨rail, ?_⟩, ?_⟩⟩
  · exact mem_append_right _ (mem_map.mpr ⟨id, hid, rfl⟩)
  · exact hguar.persists.onRail (hl.2 id hid).2.2.onRail

theorem answer_ensures (hrail : rail ∈ registry.rails) (hL : Kept uuid registry lands t L) (r : Req) :
    (protocol uuid registry lands).Ensures t (Task.ask r : LoopTask (Resp r))
      (fun s => L s ∧ ∀ id ∈ r.ids, s.Handed id ∧ s.OnRail id rail.name)
      (fun a s => L s ∧ ∀ id ∈ r.ids, failureNotSent (some rail) (r.notSent a) = true →
        s.Refundable registry id) fun _ _ => True := by
  refine .ask (fun a => ?_) fun s a s' hi hl ha => ?_
  · exact (calm huuid).stable (hL.and (.forall_mem (fun id => (kept_refundable id).imp _) r.ids))
  · rcases Answer.cases ha with ⟨hns, rfl⟩ | ⟨hns, hstay, rfl⟩
    · rw [hns]
      refine ⟨hi, Guar.refl t _, hl.1, fun id hid hf => ?_⟩
      exact refundable_of_failure hrail (hl.2 id hid).1 (hl.2 id hid).2 (fun h => by cases h) hf
    · rw [hns]
      obtain ⟨hinv, hq⟩ := Inv.offRail hi fun id => r.ids.contains id
      refine ⟨hinv, hq.guar t, hL.quiet _ _ hi hinv hq hl.1, fun id hid hf => ?_⟩
      refine refundable_of_failure hrail (hq.persists.isHanded (hl.2 id hid).1)
        (hq.persists.onRail (hl.2 id hid).2) (fun _ => ⟨hstay id hid, fun x hx => ?_⟩) hf
      -- the answer took the payout off the rail
      have hgone := (mem_filter.mp hx).2
      simp [hid] at hgone

/-- **One send** of the serial path: a claimed row goes in, its outcome is recorded. -/
theorem sendOne_ensures (hrail : rail ∈ registry.rails) {row : QueueRow}
    (hpos : 0 < row.amountMicro) (hL : Kept uuid registry lands t L)
    (hkeep : ∀ s, L s → (∀ id ∈ [row.pendingId], Claimed t rail id s) →
      L (s.handOver rail [row.pendingId])) :
    (protocol uuid registry lands).Ensures t (sendOne uuid rail row)
      (fun s => L s ∧ Claimed t rail row.pendingId s) (fun _ => L) fun _ _ => True := by
  refine .bind (Ensures.mono (handOver_ensures huuid hrail (by simp) hL hkeep) ?_) fun _ => ?_
  · intro s _ hl
    refine ⟨hl.1, fun id hid => ?_⟩
    rw [mem_singleton.mp hid]
    exact hl.2
  refine .bind (answer_ensures huuid hrail hL (Req.withdraw rail row)) fun out => ?_
  have hframed : ∀ c : Prop, Kept uuid registry lands t fun s => L s ∧ ∀ id ∈ [row.pendingId], c →
      s.Refundable registry id :=
    fun c => hL.and (.forall_mem (fun id => (kept_refundable id).imp c) _)
  refine .bind (dateNow_ensures huuid (hframed _)) fun now => ?_
  cases out with
  | threw ns message =>
    exact (markFailed_ensures huuid hL hpos (some rail) ns message now).mono
      fun s _ hl => ⟨hl.1, hl.2 _ (mem_singleton_self _)⟩
  | result res =>
    exact (markFired_ensures huuid hL hpos rail res now).mono fun s _ hl => hl.1

/-! ## §4. Claiming -/

/-- **Claiming**: the rows a call returns are claimed by this tick, distinct, and none of them
    was claimed by it before. -/
theorem claimForFiring_ensures (rail : Rail) (hL : ∀ s s', Persists s s' → L s → L s') (now : Nat)
    (ids earlier : List String) :
    (protocol uuid registry lands).Ensures t (claimForFiring t now ids)
      (fun s => (L s ∧ ∀ id ∈ ids, s.OnRail id rail.name) ∧ ∀ d ∈ earlier, Claimed t rail d s)
      (fun rows s => ((L s ∧ ∀ d ∈ earlier, Claimed t rail d s) ∧
        ∀ d ∈ rows.map pendingId, Claimed t rail d s) ∧
        (rows.map pendingId).Nodup ∧
        ∀ row ∈ rows, row.pendingId ∉ earlier ∧ 0 < row.amountMicro) fun _ _ => True := by
  induction ids generalizing earlier with
  | nil => exact .pure fun s _ hl => ⟨⟨⟨hl.1.1, hl.2⟩, by simp⟩, by simp, by simp⟩
  | cons id ids ih =>
    -- the row this step claims joins the claimed rows of the induction hypothesis
    set grown : Option QueueRow → List String :=
      fun row => row.toList.map pendingId ++ earlier with hgrown
    refine .bind (Q := fun row s => ((L s ∧ ∀ i ∈ ids, s.OnRail i rail.name) ∧
      ∀ d ∈ grown row, Claimed t rail d s) ∧
      ∀ r ∈ row.toList, r.pendingId ∉ earlier ∧ 0 < r.amountMicro) ?_ fun row => ?_
    · have hframed : ∀ row, Kept uuid registry lands t fun s => (L s ∧ ∀ i ∈ ids, s.OnRail i rail.name) ∧
          ∀ d ∈ grown row, Claimed t rail d s := fun row =>
        ((kept_of_persists hL).and (.forall_mem (fun i => kept_onRail i rail.name) ids)).and
          (.forall_mem (fun d => kept_claimed d) (grown row))
      refine .txn (fun row => (calm huuid).stable ((hframed row).and (.const _)))
        (fun _ => .true) ?_ fun _ _ _ _ _ => trivial
      intro s row s' hi hl hok
      obtain ⟨hinv, hguar, hhanded, hrow⟩ := Inv.claim hi hok
      have hearlier : ∀ d ∈ earlier, Claimed t rail d s' := by
        intro d hd
        obtain ⟨hown, hnot, htaken⟩ := hl.2 d hd
        refine ⟨hguar.owners d t hown, fun hh => ?_, hguar.persists.taken htaken⟩
        obtain ⟨r, hr⟩ := hh
        rw [hhanded] at hr
        exact hnot ⟨r, hr⟩
      refine ⟨hinv, hguar, ⟨⟨hL _ _ hguar.persists hl.1.1, fun i hi' => ?_⟩, ?_⟩, ?_⟩
      · exact hguar.persists.onRail (hl.1.2 i (mem_cons_of_mem _ hi'))
      · intro d hd
        rcases mem_append.mp hd with hd | hd
        · obtain ⟨r, hr, rfl⟩ := mem_map.mp hd
          obtain ⟨-, hid, -, hclaimed⟩ := hrow r (Option.mem_toList.mp hr)
          rw [hid]
          exact hclaimed rail (hl.1.2 id mem_cons_self)
        · exact hearlier d hd
      · intro r hr
        obtain ⟨hmem, hid, ⟨q, hq, hqid, hpend⟩, -⟩ := hrow r (Option.mem_toList.mp hr)
        refine ⟨fun hd => ?_, (hinv.rows r hmem).1⟩
        -- a row claimed before is not pending
        obtain ⟨-, -, q', hq', hqid', -, hst'⟩ := hl.2 _ hd
        have hsame : q' = q := inj_on_of_nodup_map hi.queueIds hq' hq
          (hqid'.trans (hid.trans hqid.symm))
        rw [hsame] at hst'
        exact hst' hpend
    · refine .of_pure fun hrow => ?_
      refine (ih (grown row)).bind fun rest => .pure fun s _ hl => ?_
      obtain ⟨⟨⟨hLs, hgrownClaimed⟩, hrestClaimed⟩, hnd, hrest⟩ := hl
      refine ⟨⟨⟨hLs, fun d hd => hgrownClaimed d (mem_append_right _ hd)⟩, ?_⟩, ?_, ?_⟩
      · intro d hd
        rw [map_append, mem_append] at hd
        rcases hd with hd | hd
        · exact hgrownClaimed d (mem_append_left _ hd)
        · exact hrestClaimed d hd
      · rw [map_append, nodup_append]
        refine ⟨by cases row <;> simp, hnd, ?_⟩
        intro a ha b hb heq
        obtain ⟨r, hr, rfl⟩ := mem_map.mp hb
        exact (hrest r hr).1 (heq ▸ mem_append_left _ ha)
      · intro r hr
        rcases mem_append.mp hr with hr | hr
        · exact hrow r hr
        · exact ⟨fun hd => (hrest r hr).1 (mem_append_right _ hd), (hrest r hr).2⟩

/-! ## §5. Firing -/

section

variable (hrail : rail ∈ registry.rails)
include hrail

theorem fireRow_ensures {row : QueueRow}
    (hpos : 0 < row.amountMicro) (hL : Kept uuid registry lands t L)
    (hkeep : ∀ s, L s → (∀ id ∈ [row.pendingId], Claimed t rail id s) →
      L (s.handOver rail [row.pendingId])) {rest : LoopTask Unit}
    (hrest : (protocol uuid registry lands).Ensures t rest L (fun _ _ => True) fun _ _ => True) :
    (protocol uuid registry lands).Ensures t
      (do
        addFiring [row.pendingId]
        Task.andFinally (sendOne uuid rail row) (removeFiring [row.pendingId])
        rest)
      (fun s => L s ∧ Claimed t rail row.pendingId s) (fun _ _ => True) fun _ _ => True := by
  refine (addFiring_ensures huuid (hL.and (kept_claimed _)) _).bind fun _ => ?_
  refine (firing_ensures huuid hL _ (sendOne_ensures huuid hrail hpos hL hkeep)).bind fun _ => ?_
  exact hrest

theorem fireSerial_claimed_ensures (rows : List QueueRow)
    (hnd : (rows.map pendingId).Nodup) (hpos : ∀ row ∈ rows, 0 < row.amountMicro) :
    (protocol uuid registry lands).Ensures t (fireSerial uuid t rail false rows)
      (fun s => ∀ d ∈ rows.map pendingId, Claimed t rail d s)
      (fun _ _ => True) fun _ _ => True := by
  induction rows with
  | nil => exact .pure fun _ _ _ => trivial
  | cons row rest ih =>
    rw [map_cons, nodup_cons] at hnd
    -- nothing is claimed here: the candidate is the row
    show Ensures _ t (do
      addFiring [row.pendingId]
      Task.andFinally (sendOne uuid rail row) (removeFiring [row.pendingId])
      fireSerial uuid t rail false rest) _ _ _
    refine .mono (fireRow_ensures huuid hrail (hpos row mem_cons_self)
      (Framed.forall_mem (fun d => kept_claimed d) (rest.map pendingId)) ?_
      (ih hnd.2 fun r hr => hpos r (mem_cons_of_mem _ hr))) ?_
    · intro s hl _ d hd
      refine claimed_handOver (fun hmem => hnd.1 ?_) (hl d hd)
      rw [← mem_singleton.mp hmem]
      exact hd
    · intro s _ hl
      exact ⟨fun d hd => hl d (mem_cons_of_mem _ hd), hl _ mem_cons_self⟩

theorem fireSerial_claimEach_ensures (rows : List QueueRow) :
    (protocol uuid registry lands).Ensures t (fireSerial uuid t rail true rows)
      (fun s => ∀ d ∈ rows.map pendingId, s.OnRail d rail.name)
      (fun _ _ => True) fun _ _ => True := by
  induction rows with
  | nil => exact .pure fun _ _ _ => trivial
  | cons row rest ih =>
    have hpers : ∀ s s', Persists s s' → (∀ d ∈ rest.map pendingId, s.OnRail d rail.name) →
        ∀ d ∈ rest.map pendingId, s'.OnRail d rail.name :=
      fun s s' hp hl d hd => hp.onRail (hl d hd)
    have hframed : Kept uuid registry lands t fun s => ∀ d ∈ rest.map pendingId, s.OnRail d rail.name :=
      kept_of_persists hpers
    refine .bind (Q := fun (claimed : Option QueueRow) s =>
      ((∀ d ∈ rest.map pendingId, s.OnRail d rail.name) ∧
        ∀ r ∈ claimed, Claimed t rail r.pendingId s) ∧ ∀ r ∈ claimed, 0 < r.amountMicro)
      ?_ fun claimed => .of_pure fun hpos => ?_
    · refine .bind (dateNow_ensures huuid (Framed.forall_mem
        (fun d => kept_onRail d rail.name) ((row :: rest).map pendingId)))
        fun now => ?_
      refine .bind (Ensures.mono
        (claimForFiring_ensures huuid rail hpers now [row.pendingId] []) ?_)
        fun rows => .pure fun s _ hl => ?_
      · intro s _ hl
        refine ⟨⟨fun d hd => hl d (mem_cons_of_mem _ hd), fun id hid => ?_⟩, by simp⟩
        rw [mem_singleton.mp hid]
        exact hl _ mem_cons_self
      · obtain ⟨⟨⟨hLs, -⟩, hclaimed⟩, -, hrows⟩ := hl
        refine ⟨⟨hLs, fun r hr => ?_⟩, fun r hr => ?_⟩
        · exact hclaimed _ (mem_map.mpr ⟨r, mem_of_mem_head? hr, rfl⟩)
        · exact (hrows r (mem_of_mem_head? hr)).2
    · cases claimed with
      | none => exact ih.mono fun s _ hl => hl.1
      | some r =>
        refine .mono (fireRow_ensures huuid hrail (hpos r rfl) hframed ?_ ih) ?_
        · exact fun s hl _ => hl
        · exact fun s _ hl => ⟨hl.1, hl.2 r rfl⟩

/-- **The batch**: rows this tick has claimed go in together, each answer is recorded. -/
theorem fireBatch_ensures (rows : List QueueRow)
    (hnd : (rows.map pendingId).Nodup) (hpos : ∀ row ∈ rows, 0 < row.amountMicro) :
    (protocol uuid registry lands).Ensures t (fireBatch uuid t rail rows)
      (fun s => ∀ d ∈ rows.map pendingId, Claimed t rail d s)
      (fun _ _ => True) fun _ _ => True := by
  unfold fireBatch
  split
  · exact fireSerial_claimed_ensures huuid hrail rows hnd hpos
  · refine .bind (Ensures.mono (handOver_ensures huuid hrail hnd (Framed.const True)
      fun _ _ _ => trivial) fun s _ hl => ⟨trivial, hl⟩) fun _ => ?_
    refine .bind (answer_ensures huuid hrail (Framed.const True) (Req.withdrawBatch rail rows))
      fun out => ?_
    -- what the answer proves about each row outlasts the recording of the others
    set L : Store → Prop := fun s => True ∧ ∀ id ∈ rows.map pendingId,
      failureNotSent (some rail) ((Req.withdrawBatch rail rows).notSent out) = true →
        s.Refundable registry id with hLdef
    have hL : Kept uuid registry lands t L :=
      (Framed.const True).and (.forall_mem (fun id => (kept_refundable id).imp _) _)
    have hfail : ∀ row ∈ rows, ∀ message now, (protocol uuid registry lands).Ensures t
        (markFailed uuid (some rail) row ((Req.withdrawBatch rail rows).notSent out) message now)
        L (fun _ => L) fun _ _ => True := by
      intro row hrow message now
      refine (markFailed_ensures huuid hL (hpos row hrow) _ _ _ _).mono fun s _ hl => ⟨hl, ?_⟩
      exact hl.2 _ (mem_map.mpr ⟨row, hrow, rfl⟩)
    refine .bind (dateNow_ensures huuid hL) fun now => ?_
    cases out with
    | threw ns message =>
      refine .weaken (Ensures.forEach fun row hrow => hfail row hrow message now) ?_
        fun _ _ _ h => h
      exact fun _ _ _ _ => trivial
    | result fired failed =>
      refine .bind (settleItems_ensures (fun row hrow r =>
        markFired_ensures huuid hL (hpos row hrow) rail r now) fired []) fun answered => ?_
      refine .bind (settleItems_ensures (fun row hrow reason =>
        hfail row hrow reason now) failed answered) fun _ => ?_
      exact .pure fun _ _ _ => trivial

theorem evaluateAndFireRail_ensures (config : Config) :
    (protocol uuid registry lands).Ensures t (evaluateAndFireRail uuid t rail config)
      (fun _ => True) (fun _ _ => True) fun _ _ => True := by
  refine .bind (Q := fun rows s =>
    ∀ d ∈ rows.map pendingId, s.OnRail d rail.name) ?_ fun rows => ?_
  · refine .act (fun rows => (calm huuid).stable (Framed.forall_mem
      (fun d => kept_onRail d rail.name) _)) fun s hi _ => ?_
    refine ⟨hi, Guar.refl t s, fun d hd => ?_⟩
    obtain ⟨q, hq, rfl⟩ := mem_map.mp hd
    obtain ⟨hmem, hsel⟩ := mem_filter.mp (mem_mergeSort.mp hq)
    simp only [Bool.and_eq_true, beq_iff_eq] at hsel
    exact ⟨q, hmem, rfl, hsel.1⟩
  have hon : Kept uuid registry lands t fun s => ∀ d ∈ rows.map pendingId, s.OnRail d rail.name :=
    .forall_mem (fun d => kept_onRail d rail.name) _
  cases rows with
  | nil => exact .pure fun _ _ _ => trivial
  | cons =>
    refine .bind (dateNow_ensures huuid hon) fun now => ?_
    dsimp only
    split
    · exact .throw fun _ _ _ => trivial
    · exact .pure fun _ _ _ => trivial
    · split
      · -- the batch path claims every row first
        refine .bind (dateNow_ensures huuid hon) fun claimedAt => ?_
        refine .bind (Ensures.mono (claimForFiring_ensures huuid rail
          (L := fun _ => True) (fun _ _ _ h => h) claimedAt _ []) ?_) fun claimed => ?_
        · exact fun s _ hl => ⟨⟨trivial, hl⟩, by simp⟩
        refine .of_pure fun hclaimed => ?_
        split
        · exact .pure fun _ _ _ => trivial
        have hframed : Kept uuid registry lands t fun s => ∀ d ∈ claimed.map pendingId,
            Claimed t rail d s := .forall_mem (fun d => kept_claimed d) _
        refine .bind (Ensures.mono (addFiring_ensures huuid hframed _)
          fun s _ hl => hl.2) fun _ => ?_
        exact firing_ensures huuid (Framed.const True) _ (fireBatch_ensures huuid hrail claimed
          hclaimed.1 fun row hrow => (hclaimed.2 row hrow).2)
      · exact fireSerial_claimEach_ensures huuid hrail _

end

/-! ## §6. Recovery and the tick -/

theorem recoverRow_ensures (hrails : ∀ r ∈ rails, r ∈ registry.rails) (now startedAt : Nat)
    {row : QueueRow} (hpos : 0 < row.amountMicro) (hL : Kept uuid registry lands t L)
    (hon : ∀ s, L s → s.OnRail row.pendingId row.rail) :
    (protocol uuid registry lands).Ensures t (recoverRow uuid rails now startedAt row)
      L (fun _ => L) fun _ _ => True := by
  refine .bind ((calm huuid).step hL fun s hi _ => ⟨hi, .refl s⟩) fun inFlight => ?_
  split
  · exact .pure fun _ _ hl => hl
  · refine (markFailed_ensures huuid hL hpos _ _ _ _).mono fun s _ hl => ⟨hl, fun hfail => ?_⟩
    unfold failureNotSent at hfail
    rw [Bool.or_false] at hfail
    cases hfind : rails.find? fun r => r.name == row.rail with rw [hfind] at hfail
    | none => cases hfail
    | some r =>
      have hname : r.name = row.rail := by simpa using find?_some hfind
      refine .inr ⟨r, hrails r (mem_of_find?_eq_some hfind), hfail, ?_⟩
      rw [hname]
      exact hon s hl

theorem recoverFiring_ensures (hrails : ∀ r ∈ rails, r ∈ registry.rails) (now startedAt : Nat) :
    (protocol uuid registry lands).Ensures t (recoverFiring uuid rails now startedAt)
      (fun _ => True) (fun _ _ => True) fun _ _ => True := by
  refine .bind (Q := fun rows s => (∀ q ∈ rows, s.OnRail q.pendingId q.rail) ∧
    ∀ q ∈ rows, 0 < q.amountMicro) ?_ fun rows => .of_pure fun hpos => ?_
  · refine .act (fun rows => ?_) fun s hi _ => ?_
    · exact (calm huuid).stable ((Framed.forall_mem
        (fun q : QueueRow => kept_onRail q.pendingId q.rail) rows).and (.const _))
    · refine ⟨hi, Guar.refl t s, fun q hq => ?_, fun q hq => ?_⟩
      · exact ⟨q, mem_of_mem_filter hq, rfl, rfl⟩
      · exact (Inv.rows hi q (mem_of_mem_filter hq)).1
  · refine .weaken (Ensures.forEach fun row hrow => ?_) (fun _ _ _ _ => trivial) fun _ _ _ h => h
    exact recoverRow_ensures huuid hrails now startedAt (hpos row hrow)
      (.forall_mem (fun q : QueueRow => kept_onRail q.pendingId q.rail) rows)
      fun s hl => hl row hrow

theorem settleOwedRefunds_ensures (now : Nat) :
    (protocol uuid registry lands).Ensures t (settleOwedRefunds now)
      (fun _ => True) (fun _ _ => True) fun _ _ => True := by
  refine .bind ((calm huuid).step (Framed.const True) fun s hi _ => ⟨hi, .refl s⟩) fun owed => ?_
  refine .forEach fun row _ => ?_
  exact (settleOwedRefund_ensures huuid (Framed.const True) _ _).bind fun _ => .pure fun _ _ h => h

theorem fireRails_ensures (config : Config) (hrails : ∀ r ∈ rails, r ∈ registry.rails) :
    (protocol uuid registry lands).Ensures t (fireRails uuid t config rails)
      (fun _ => True) (fun _ _ => True) fun _ _ => True := by
  induction rails with
  | nil => exact .pure fun _ _ _ => trivial
  | cons r rest ih =>
    refine (evaluateAndFireRail_ensures huuid (hrails r mem_cons_self) config).bind fun _ => ?_
    exact ih fun r' hr' => hrails r' (mem_cons_of_mem _ hr')

/-- **One tick of the loop** keeps the invariant, at every step and under any interference. -/
theorem tick_ensures (config : Config) :
    (protocol uuid registry lands).Ensures t (runBatchWithdrawalTick uuid registry config t)
      (fun _ => True) (fun _ _ => True) fun _ _ => True := by
  have hrails : ∀ r ∈ registry.rails.filter Rail.withdrawable, r ∈ registry.rails :=
    fun r hr => mem_of_mem_filter hr
  refine (dateNow_ensures huuid (Framed.const True)).bind fun now => ?_
  refine Ensures.bind ((calm huuid).step (Framed.const True) fun s hi _ => ⟨hi, .refl s⟩) fun startedAt => ?_
  refine (recoverFiring_ensures huuid hrails now startedAt).bind fun _ => ?_
  refine (settleOwedRefunds_ensures huuid now).bind fun _ => ?_
  exact fireRails_ensures huuid config hrails

/-! ## §7. Every reachable configuration -/

theorem verified : Verified (protocol uuid registry lands) where
  init s hs := by
    obtain ⟨now, rfl⟩ := hs
    exact ⟨inv_init now, fun _ => trivial⟩
  env s s' hi he := ⟨(Inv.env hi huuid he).1, fun _ _ => trivial⟩
  crash s s' hi hc := by
    obtain ⟨now, rfl⟩ := hc
    exact ⟨(Inv.memory hi s.frozen [] now now).1, fun _ _ => trivial⟩
  fresh _ _ _ _ _ _ _ _ := trivial
  entry t p hp := by
    obtain ⟨config, rfl⟩ := hp
    exact ⟨Stable.true, (tick_ensures huuid config).detach⟩

theorem reachable_inv {c : Lib.Config Store Req Resp}
    (hreach : (world uuid registry lands).Reachable c) : Inv uuid registry lands c.store :=
  Protocol.sound (verified huuid) hreach

end

/-! ## §8. Paid or refunded -/

/-- How often a row's enqueue debit was paid back: by the loop under the row's own id, and by
    the operator under the withdrawal it is linked to. -/
def Store.debitRefunds (s : Store) (q : QueueRow) : Nat :=
  s.refundRows q.pendingId + (q.withdrawalId.map s.refundRows).getD 0

section

variable (h : Inv uuid registry lands s)
include h

theorem Inv.linkedRefunds (hq : q ∈ s.queue) {w : String} (hlink : q.withdrawalId = some w) :
    s.refundRows w ≤ 1 ∧ (lands q.pendingId = true → s.refundRows w = 0) := by
  obtain ⟨x, hx, rfl⟩ := h.linked q hq w hlink
  obtain ⟨-, hcount, hfailed⟩ := h.withdrawals x hx
  rw [hcount]
  split
  · next hst =>
      refine ⟨Nat.le_refl 1, fun hlands => ?_⟩
      rw [hfailed hst q hq hlink] at hlands
      cases hlands
  · exact ⟨Nat.zero_le 1, fun _ => rfl⟩

theorem Inv.loopRefunds (hq : q ∈ s.queue) :
    (q.withdrawalId = none ∧ s.refundRows q.pendingId ≤ 1) ∨ s.refundRows q.pendingId = 0 := by
  have hrow := (h.rows q hq).2
  cases hst : q.status <;> rw [hst] at hrow
  · exact .inr hrow.2
  · exact .inr hrow.2
  · exact .inr hrow.2
  · exact .inr hrow.2
  · exact .inr hrow.2.1
  · exact .inl ⟨hrow.1, Nat.le_of_eq hrow.2.1⟩

theorem Inv.left_loopRefunds (hq : q ∈ s.queue)
    (hleft : q.pendingId ∈ s.left) : s.refundRows q.pendingId = 0 := by
  have hrow := (h.rows q hq).2
  cases hst : q.status <;> rw [hst] at hrow
  · exact hrow.2
  · exact hrow.2
  · exact hrow.2
  · exact hrow.2
  · exact hrow.2.1
  · exact absurd hleft (h.inert hrow.2.2).1

theorem Inv.debitRefunds_le (hq : q ∈ s.queue) : s.debitRefunds q ≤ 1 := by
  unfold Store.debitRefunds
  rcases h.loopRefunds hq with ⟨hnone, hle⟩ | hzero
  · rw [hnone]
    exact hle
  · rw [hzero]
    cases hlink : q.withdrawalId with
    | none => exact Nat.zero_le 1
    | some w =>
      have hw := (h.linkedRefunds hq hlink).1
      show 0 + s.refundRows w ≤ 1
      omega

theorem Inv.landed_debitRefunds (hq : q ∈ s.queue)
    (hlanded : q.pendingId ∈ s.landed) : s.debitRefunds q = 0 := by
  obtain ⟨hleft, hlands⟩ := h.landed _ hlanded
  unfold Store.debitRefunds
  rw [h.left_loopRefunds hq hleft]
  cases hlink : q.withdrawalId with
  | none => rfl
  | some w =>
    show 0 + s.refundRows w = 0
    rw [(h.linkedRefunds hq hlink).2 hlands]

end

/-- **Paid or refunded, never both and never twice.**  In every configuration any interleaving
    of ticks, rail answers, operator decisions and process deaths leads to: no queue row was
    handed to a rail twice; its debit was refunded at most once; the loop refunded no row whose
    payout left; and a row whose payout landed was not refunded at all. -/
theorem paid_or_refunded (huuid : Injective uuid) {c : Lib.Config Store Req Resp}
    (hreach : (world uuid registry lands).Reachable c) :
    (∀ id, (c.store.handed.map Prod.fst).count id ≤ 1) ∧
    ∀ q ∈ c.store.queue,
      c.store.debitRefunds q ≤ 1 ∧
      (q.pendingId ∈ c.store.left → c.store.refundRows q.pendingId = 0) ∧
      (q.pendingId ∈ c.store.landed → c.store.debitRefunds q = 0) := by
  have hinv := reachable_inv huuid hreach
  refine ⟨fun id => nodup_iff_count_le_one.mp hinv.handedOnce id, fun q hq => ?_⟩
  exact ⟨hinv.debitRefunds_le hq, hinv.left_loopRefunds hq, hinv.landed_debitRefunds hq⟩

/-! ### A run -/

/-- Ids for the runs below. -/
def serialId (n : Nat) : String := String.ofList (List.replicate n 'x')

theorem serialId_injective : Injective serialId := by
  intro m n h
  have hl := congrArg (fun s : String => s.toList.length) h
  simpa [serialId] using hl

/-- One rail that sends on its own. -/
def oneRail : Registry := ⟨[⟨"bridge", true, false, false, none⟩], by simp⟩

/-- An agent with a deposit has queued one withdrawal. -/
def queuedStore : Store :=
  let funded : Store := { Store.init 0 with
    ledger := { Ledger.empty with
      books := (Ledger.empty.books.credit "agent" 100 .deposit none none none).2 } }
  funded.enqueue serialId "agent" 40 100 "wallet" "bridge" "user" none

/-- The queued withdrawal, with a tick started over it. -/
def queuedConfig : Lib.Config Store Req Resp where
  store := queuedStore
  thread := update (fun _ => none) 0 (some (runBatchWithdrawalTick serialId oneRail
    ⟨fun _ => ⟨1, 0, 0⟩, fun _ => 0⟩ 0).detach)
  next := 1

theorem queuedConfig_reachable : (world serialId oneRail fun _ => true).Reachable queuedConfig := by
  have h₀ := World.Reachable.init (W := world serialId oneRail fun _ => true) (Store.init 0)
    ⟨0, rfl⟩
  have h₁ := h₀.step (.env _ _ (.deposit "agent" 100 (by decide)))
  have h₂ := h₁.step (.env _ _ (.enqueue "agent" 40 100 "wallet" "bridge" "user" none))
  exact h₂.step (.spawn _ _ ⟨⟨fun _ => ⟨1, 0, 0⟩, fun _ => 0⟩, rfl⟩)

theorem paid_or_refunded_queued :
    queuedConfig.store.queue.length = 1 ∧
    ∀ q ∈ queuedConfig.store.queue, queuedConfig.store.debitRefunds q ≤ 1 :=
  ⟨by decide, fun q hq =>
    ((paid_or_refunded serialId_injective queuedConfig_reachable).2 q hq).1⟩

end Motebit.Batch
