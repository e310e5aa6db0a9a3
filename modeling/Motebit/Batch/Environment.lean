/-
  Motebit.Batch.Environment — EVERYTHING OUTSIDE THE LOOP keeps the invariant.

  Enqueues, deposits, the freeze switch, the clock, payouts leaving a rail and landing, and
  the operator's reconcile.

  Main result:
    * `Inv.env` — each keeps `Inv`, claims nothing and hands nothing over.
-/

import Motebit.Batch.Invariant

namespace Motebit.Batch

open Motebit.Lib List Function
open Motebit.Accounts
open Ledger

variable {uuid : Nat → String} {registry : Registry} {lands : String → Bool} {s s' : Store}

/-! ## §1. Writes of the ledger alone -/

section

variable (h : Inv uuid registry lands s)
include h

theorem Inv.books (books : Books)
    (hrefs : ∀ x ∈ books.transactions, x ∈ s.ledger.books.transactions ∨ x.referenceId = none)
    (hcount : ∀ r, refunds books.transactions r = s.refundRows r) :
    Inv uuid registry lands { s with ledger := { s.ledger with books := books } } ∧
    Quiet s { s with ledger := { s.ledger with books := books } } := by
  have hper : Persists s { s with ledger := { s.ledger with books := books } } :=
    { Persists.refl s with }
  refine ⟨⟨{ h.toShape with refs := ?_ }, ?_, ?_⟩, hper, rfl, rfl⟩
  · intro x hx r hr
    rcases hrefs x hx with hold | hnone
    · exact h.refs x hold r hr
    · rw [hnone] at hr
      cases hr
  · intro q hq
    exact (h.rows q hq).persist hper (hcount _)
  · intro w hw
    exact (h.withdrawals w hw).persist (hcount _) fun q hq hl => ⟨q, hq, rfl, hl⟩

theorem Inv.withdrawalRows (L : Ledger) (hids : L.withdrawals.map Withdrawal.withdrawalId
      = s.ledger.withdrawals.map Withdrawal.withdrawalId)
    (hlog : ∀ x ∈ L.books.transactions, ∀ r, x.referenceId = some r → Drawn uuid s r)
    (hqueue : ∀ q ∈ s.queue, refunds L.books.transactions q.pendingId = s.refundRows q.pendingId)
    (hrow : ∀ w ∈ L.withdrawals, WithdrawalOk lands { s with ledger := L } w) :
    Inv uuid registry lands { s with ledger := L } ∧
    Quiet s { s with ledger := L } := by
  have hper : Persists s { s with ledger := L } :=
    { Persists.refl s with }
  -- a row of the new table has a row of the old one under its id, and the other way round
  have hold : ∀ w ∈ L.withdrawals, ∃ w₀ ∈ s.ledger.withdrawals,
      w₀.withdrawalId = w.withdrawalId := by
    intro w hw
    have hmem : w.withdrawalId ∈ s.ledger.withdrawals.map Withdrawal.withdrawalId :=
      hids ▸ mem_map_of_mem hw
    exact mem_map.mp hmem
  refine ⟨⟨{ h.toShape with
    withdrawalIds := ?_, withdrawalDrawn := ?_, apart := ?_, refs := hlog, linked := ?_ }, ?_, hrow⟩,
    hper, rfl, rfl⟩
  · rw [hids]
    exact h.withdrawalIds
  · intro w hw
    obtain ⟨w₀, hw₀, heq⟩ := hold w hw
    rw [← heq]
    exact h.withdrawalDrawn w₀ hw₀
  · intro q hq w hw
    obtain ⟨w₀, hw₀, heq⟩ := hold w hw
    rw [← heq]
    exact h.apart q hq w₀ hw₀
  · intro q hq w hl
    obtain ⟨x, hx, hxid⟩ := h.linked q hq w hl
    have hmem : w ∈ L.withdrawals.map Withdrawal.withdrawalId := by
      rw [hids, ← hxid]
      exact mem_map_of_mem hx
    obtain ⟨y, hy, hyid⟩ := mem_map.mp hmem
    exact ⟨y, hy, hyid⟩
  · intro q hq
    exact (h.rows q hq).persist hper (hqueue q hq)

/-! ## §2. The operator -/

theorem Inv.complete (id payoutReference : String) (at_ : Nat) (source : WithdrawalOpenStatus) :
    Inv uuid registry lands { s with ledger := (s.ledger.updateWithdrawal id (fromOk source)
      (completionSet payoutReference at_)).2 } ∧
    Quiet s { s with ledger := (s.ledger.updateWithdrawal id (fromOk source)
      (completionSet payoutReference at_)).2 } := by
  refine h.withdrawalRows _ (map_updateWhere _ fun _ => rfl) h.refs (fun q hq => rfl) ?_
  intro w hw
  obtain ⟨w₀, hw₀, rfl⟩ := mem_updateWhere.mp hw
  obtain ⟨hpos, hcount, hfailed⟩ := h.withdrawals w₀ hw₀
  split
  · next hsel =>
    -- an open withdrawal was refunded by nobody
    have hopen : w₀.status ≠ .failed := by
      simp only [Bool.and_eq_true, fromOk, beq_iff_eq] at hsel
      rw [hsel.2]
      cases source <;> simp [WithdrawalOpenStatus.status]
    rw [if_neg hopen] at hcount
    exact ⟨hpos, hcount, fun hfail => by cases hfail⟩
  · exact ⟨hpos, hcount, hfailed⟩

theorem Inv.fail {id reason : String} {at_ : Nat}
    {source : WithdrawalOpenStatus} {L : Ledger} {refunded : Option (String × Int)}
    (hnotPaid : ∀ q ∈ s.queue, q.withdrawalId = some id → lands q.pendingId = false)
    (hfail : s.ledger.failWithdrawalAndRefund id reason source at_ = .ok (refunded, L)) :
    Inv uuid registry lands { s with ledger := L } ∧
    Quiet s { s with ledger := L } := by
  rcases s.ledger.failWithdrawalAndRefund_cases h.withdrawalIds id reason source at_ with
    ⟨w, hw, hid, hok, heq⟩ | heq
  · rw [heq] at hfail
    obtain ⟨-, rfl⟩ := Prod.mk.inj (Except.ok.inj hfail)
    obtain ⟨hpos, hcount, -⟩ := h.withdrawals w hw
    have hopen : w.status ≠ .failed := by
      have hst : w.status = source.status := by simpa [fromOk] using hok
      rw [hst]
      cases source <;> simp [WithdrawalOpenStatus.status]
    rw [if_neg hopen] at hcount
    have hrefs : ∀ r, refunds (s.ledger.books.credit w.motebitId w.amount .withdrawal
        (some id) (some (refundText reason)) none).2.transactions r
        = s.refundRows r + (if r = id then 1 else 0) := fun r => refundRows_credit hpos _ r
    refine h.withdrawalRows _ (map_updateWhere _ fun _ => rfl) ?_ ?_ ?_
    · intro x hx r hr
      rw [Books.transactions_credit, mem_append, mem_singleton] at hx
      rcases hx with hx | rfl
      · exact h.refs x hx r hr
      · cases hr
        rw [← hid]
        exact h.withdrawalDrawn w hw
    · intro q hq
      rw [hrefs, if_neg fun hc => h.apart q hq w hw (hc.trans hid.symm)]
      rfl
    · intro x hx
      obtain ⟨x₀, hx₀, rfl⟩ := mem_updateWhere.mp hx
      obtain ⟨hpos₀, hcount₀, hfailed₀⟩ := h.withdrawals x₀ hx₀
      by_cases hx₀id : x₀.withdrawalId = id
      · -- the failed withdrawal: it had no refund, now it has one
        have hx₀w : x₀ = w := inj_on_of_nodup_map h.withdrawalIds hx₀ hw (hx₀id.trans hid.symm)
        subst hx₀w
        have hsel : (x₀.withdrawalId == id && fromOk source x₀) = true := by
          simp [hx₀id, hok]
        rw [if_pos hsel]
        refine ⟨hpos₀, ?_, fun _ q hq hl => ?_⟩
        · show refunds _ x₀.withdrawalId = 1
          rw [hrefs, if_pos hx₀id, hcount]
        · rw [← hid] at hnotPaid
          exact hnotPaid q hq hl
      · have hsel : ¬ (x₀.withdrawalId == id && fromOk source x₀) = true := by
          simp [hx₀id]
        rw [if_neg hsel]
        refine ⟨hpos₀, ?_, hfailed₀⟩
        show refunds _ x₀.withdrawalId = _
        rw [hrefs, if_neg hx₀id, hcount₀]
        rfl
  · rw [heq] at hfail
    obtain ⟨-, rfl⟩ := Prod.mk.inj (Except.ok.inj hfail)
    exact ⟨h, .refl s⟩

end

/-! ## §3. Enqueueing -/

theorem refunds_debit (books : Books) (m : String) (amount : Int) (hpos : 0 < amount)
    (ref desc : Option String) (r : String) :
    refunds (books.credit m (-amount) .withdrawal ref desc none).2.transactions r
      = refunds books.transactions r := by
  rw [Books.transactions_credit, refunds_append_row, if_neg]
  · rfl
  · intro hc
    have hneg : 0 < -amount := hc.2
    omega

theorem Inv.draw (h : Inv uuid registry lands s) :
    Inv uuid registry lands { s with drawn := s.drawn + 1 } ∧
    Quiet s { s with drawn := s.drawn + 1 } := by
  have hper : Persists s { s with drawn := s.drawn + 1 } :=
    { Persists.refl s with }
  have hdr : ∀ i, Drawn uuid s i → Drawn uuid { s with drawn := s.drawn + 1 } i := by
    intro i hi
    obtain ⟨k, hk, heq⟩ := hi
    exact ⟨k, Nat.lt_succ_of_lt hk, heq⟩
  have hshape : Shape uuid registry lands { s with drawn := s.drawn + 1 } :=
    { h.toShape with
      queueDrawn := fun q hq => hdr _ (h.queueDrawn q hq)
      withdrawalDrawn := fun w hw => hdr _ (h.withdrawalDrawn w hw)
      refs := fun x hx r hr => hdr _ (h.refs x hx r hr) }
  exact ⟨h.beside hper rfl rfl hshape, hper, rfl, rfl⟩

theorem Inv.push (h : Inv uuid registry lands s) (huuid : Injective uuid)
    (row : QueueRow) (hid : row.pendingId = uuid s.drawn) (hpos : 0 < row.amountMicro)
    (hst : row.status = .pending) (hnolink : row.withdrawalId = none) (books : Books)
    (hrefs : ∀ x ∈ books.transactions, x ∈ s.ledger.books.transactions ∨
      x.referenceId = some (uuid s.drawn))
    (hcount : ∀ r, refunds books.transactions r = s.refundRows r) :
    Inv uuid registry lands { s with
      drawn := s.drawn + 1, ledger := { s.ledger with books := books },
      queue := s.queue ++ [row] } ∧
    Quiet s { s with
      drawn := s.drawn + 1, ledger := { s.ledger with books := books },
      queue := s.queue ++ [row] } := by
  set s' : Store := { s with
    drawn := s.drawn + 1, ledger := { s.ledger with books := books },
    queue := s.queue ++ [row] }
  have hper : Persists s s' :=
    ⟨fun q hq => ⟨q, mem_append_left _ hq, rfl, rfl, id⟩, fun x hx => hx, fun _ _ hi => hi⟩
  have hdr : ∀ i, Drawn uuid s i → Drawn uuid s' i := by
    intro i hi
    obtain ⟨k, hk, heq⟩ := hi
    exact ⟨k, Nat.lt_succ_of_lt hk, heq⟩
  have hnew : Drawn uuid s' (uuid s.drawn) := ⟨s.drawn, Nat.lt_succ_self _, rfl⟩
  have hmem : ∀ q ∈ s'.queue, q ∈ s.queue ∨ q = row := by
    intro q hq
    rcases mem_append.mp hq with hq | hq
    · exact .inl hq
    · exact .inr (mem_singleton.mp hq)
  refine ⟨⟨⟨?_, h.withdrawalIds, ?_, fun w hw => hdr _ (h.withdrawalDrawn w hw), ?_, ?_, ?_, ?_, ?_,
    h.handedOnce, ?_, h.atRail, h.left, h.landed⟩, ?_, ?_⟩,
    ⟨hper, rfl, rfl⟩⟩
  · show ((s.queue ++ [row]).map QueueRow.pendingId).Nodup
    rw [map_append, nodup_append]
    refine ⟨h.queueIds, by simp, ?_⟩
    intro a ha b hb
    obtain ⟨q, hq, rfl⟩ := mem_map.mp ha
    simp only [map_cons, map_nil, mem_singleton] at hb
    subst hb
    intro heq
    exact not_drawn_next huuid (hid ▸ heq ▸ h.queueDrawn q hq)
  · intro q hq
    rcases hmem q hq with hq | rfl
    · exact hdr _ (h.queueDrawn q hq)
    · rw [hid]
      exact hnew
  · intro q hq w hw
    rcases hmem q hq with hq | rfl
    · exact h.apart q hq w hw
    · rw [hid]
      intro heq
      exact not_drawn_next huuid (heq ▸ h.withdrawalDrawn w hw)
  · intro x hx r hr
    rcases hrefs x hx with hold | hthis
    · exact hdr _ (h.refs x hold r hr)
    · rw [hthis] at hr
      cases hr
      exact hnew
  · intro q hq w hl
    rcases hmem q hq with hq | rfl
    · exact h.linked q hq w hl
    · rw [hnolink] at hl
      cases hl
  · intro q₁ hq₁ q₂ hq₂ w hl₁ hl₂
    rcases hmem q₁ hq₁ with hq₁ | rfl
    · rcases hmem q₂ hq₂ with hq₂ | rfl
      · exact h.links q₁ hq₁ q₂ hq₂ w hl₁ hl₂
      · rw [hnolink] at hl₂
        cases hl₂
    · rw [hnolink] at hl₁
      cases hl₁
  · intro i t hown
    obtain ⟨q, hq, hqid, hqst⟩ := h.owned i t hown
    exact ⟨q, mem_append_left _ hq, hqid, hqst⟩
  · intro x hx
    obtain ⟨hreg, htaken⟩ := h.handedRow x hx
    exact ⟨hreg, hper.taken htaken⟩
  · intro q hq
    rcases hmem q hq with hq | rfl
    · exact (h.rows q hq).persist hper (hcount _)
    · refine ⟨hpos, ?_⟩
      rw [hst]
      refine ⟨hnolink, ?_⟩
      show refunds books.transactions q.pendingId = 0
      rw [hcount, hid]
      exact h.refundRows_fresh huuid
  · intro w hw
    refine (h.withdrawals w hw).persist (hcount _) fun q hq hl => ?_
    rcases hmem q hq with hq | rfl
    · exact ⟨q, hq, rfl, hl⟩
    · rw [hnolink] at hl
      cases hl

theorem Inv.enqueue (h : Inv uuid registry lands s) (huuid : Injective uuid)
    (m : String) (amount available : Int) (destination rail source : String) (key : Option String) :
    Inv uuid registry lands (s.enqueue uuid m amount available destination rail source key) ∧
    Quiet s (s.enqueue uuid m amount available destination rail source key) := by
  unfold Store.enqueue
  split
  · exact ⟨h, .refl s⟩
  next hguard =>
  have hpos : 0 < amount := by
    simp only [Bool.or_eq_true, decide_eq_true_eq, not_or] at hguard
    have hmicro := hguard.1.1
    simp only [isPositiveMicro, Bool.and_eq_false_iff, not_or, decide_eq_false_iff_not,
      not_not] at hmicro
    exact hmicro.1
  split
  · exact ⟨h, .refl s⟩
  · dsimp only
    rcases s.ledger.books.debitIf_cases amount m amount .withdrawal (some (uuid s.drawn))
      (some ("Pending withdrawal " ++ uuid s.drawn ++ " → " ++ destination ++ " via " ++ rail))
      none with ⟨-, heq⟩ | ⟨-, heq⟩
    · rw [Books.debit, heq]
      have hb := h.books (s.ledger.books.getOrCreateAccount m)
        (fun x hx => .inl (by simpa using hx)) (fun r => by simp [Store.refundRows])
      exact ⟨hb.1.draw.1,
        ⟨fun q hq => ⟨q, hq, rfl, rfl, id⟩, fun x hx => hx, fun _ _ hi => hi⟩, rfl, rfl⟩
    · rw [Books.debit, heq]
      refine h.push huuid _ rfl hpos rfl rfl _ ?_ ?_
      · intro x hx
        rw [Books.transactions_credit, mem_append, mem_singleton] at hx
        rcases hx with hx | rfl
        · exact .inl hx
        · exact .inr rfl
      · exact fun r => refunds_debit _ _ _ hpos _ _ r

/-! ## §4. All of it -/

/-- **The environment** keeps the invariant, claims nothing and hands nothing over. -/
theorem Inv.env (h : Inv uuid registry lands s) (huuid : Injective uuid)
    (he : Env uuid lands s s') : Inv uuid registry lands s' ∧ Quiet s s' := by
  cases he with
  | enqueue m amount available destination rail source key =>
    exact h.enqueue huuid m amount available destination rail source key
  | deposit =>
    refine h.books _ ?_ ?_
    · intro x hx
      rw [Books.transactions_credit, mem_append, mem_singleton] at hx
      rcases hx with hx | rfl
      · exact .inl hx
      · exact .inr rfl
    · intro r
      rw [Books.transactions_credit, refunds_append_row, if_neg]
      · rfl
      · intro hc
        cases hc.1
  | freeze frozen =>
    exact h.memory frozen s.firingHere s.clock s.processStartedAt
  | clock now =>
    exact h.memory s.frozen s.firingHere now s.processStartedAt
  | leave id rail hat hsends =>
    -- what leaves was with a rail that sends, so it was not inert
    have hper : Persists s { s with left := id :: s.left } := by
      refine { Persists.refl s with inert := fun i _ hi => ⟨fun hmem => ?_, hi.2⟩ }
      rcases mem_cons.mp hmem with rfl | hmem
      · have hman := hi.2 rail hat
        rw [hsends] at hman
        cases hman
      · exact hi.1 hmem
    have hleft : ∀ i ∈ id :: s.left, ∃ rail, (i, rail) ∈ s.handed ∧ rail.manual = false := by
      exact forall_mem_cons.mpr ⟨⟨rail, h.atRail _ hat, hsends⟩, h.left⟩
    have hlanded : ∀ i ∈ s.landed, i ∈ id :: s.left ∧ lands i = true := fun i hi =>
      (h.landed i hi).imp_left (mem_cons_of_mem _)
    exact ⟨h.beside hper rfl rfl { h.toShape with left := hleft, landed := hlanded }, hper, rfl, rfl⟩
  | land id hleft hlands =>
    have hper : Persists s { s with landed := id :: s.landed } := { Persists.refl s with }
    have hlanded : ∀ i ∈ id :: s.landed, i ∈ s.left ∧ lands i = true := by
      exact forall_mem_cons.mpr ⟨⟨hleft, hlands⟩, h.landed⟩
    exact ⟨h.beside hper rfl rfl { h.toShape with landed := hlanded }, hper, rfl, rfl⟩
  | complete id ref at_ source => exact h.complete id ref at_ source
  | fail id reason at_ source hnotPaid L refunded hfail => exact h.fail hnotPaid hfail

end Motebit.Batch
