/-
  Motebit.Accounts.Ledger — WITHDRAWALS OVER THE BOOKS, and everything a store step may do
  to them.

  Both account stores (in memory and SQLite) write the same three things together: a
  balance, a ledger row, a withdrawal row.  This file says once what one of their steps can
  do (`Ledger.Step`, five cases) and derives the ledger's laws from that list; the stores
  are then only shown to take such steps (`InMemory`, `Sqlite`).

  Main results: `Settled`, `Settled.step`, `Step.completed_stays`.
-/

import Motebit.Accounts.Books

namespace Motebit.Accounts

open Motebit.Lib List

/-- The books and the withdrawal table. -/
structure Ledger where
  books : Books
  withdrawals : List Withdrawal

namespace Ledger

/-- Nothing recorded yet. -/
def empty : Ledger := ⟨Books.empty, []⟩

/-! ## §1. The compare-and-set on a withdrawal row -/

def updateWithdrawal (L : Ledger) (id : String) (ok : Withdrawal → Bool)
    (u : Withdrawal → Withdrawal) : Bool × Ledger :=
  let p := fun w : Withdrawal => w.withdrawalId == id && ok w
  (decide (0 < countWhere p L.withdrawals), { L with withdrawals := updateWhere p u L.withdrawals })

/-- The in-memory form: look the row up, refuse unless `ok`, then write it in place. -/
def mutateWithdrawal (L : Ledger) (id : String) (ok : Withdrawal → Bool)
    (u : Withdrawal → Withdrawal) : Bool × Ledger :=
  match L.withdrawals.find? (fun w => w.withdrawalId == id) with
  | none => (false, L)
  | some w =>
    if ok w then
      (true, { L with withdrawals := updateWhere (fun w => w.withdrawalId == id) u L.withdrawals })
    else
      (false, L)

theorem mutateWithdrawal_eq (L : Ledger) (hnd : (L.withdrawals.map Withdrawal.withdrawalId).Nodup)
    (id : String) (ok : Withdrawal → Bool) (u : Withdrawal → Withdrawal) :
    L.mutateWithdrawal id ok u = L.updateWithdrawal id ok u := by
  unfold mutateWithdrawal updateWithdrawal countWhere
  cases hfind : L.withdrawals.find? (fun w => w.withdrawalId == id) with
  | none =>
    -- no row has this id, so the UPDATE selects nothing
    have hno : ∀ w ∈ L.withdrawals, (w.withdrawalId == id && ok w) = false := by
      intro w hw
      have hid := find?_eq_none.mp hfind w hw
      simp [hid]
    have hfil : L.withdrawals.filter (fun w => w.withdrawalId == id && ok w) = [] :=
      filter_eq_nil_iff.mpr fun w hw => by simp [hno w hw]
    simp [hfil, updateWhere_of_none hno]
  | some w =>
    have hw : w ∈ L.withdrawals := mem_of_find?_eq_some hfind
    have hid : (w.withdrawalId == id) = true := by simpa using find?_some hfind
    have hsame : ∀ v ∈ L.withdrawals, (v.withdrawalId == id) = true → v = w := by
      intro v hv hvid
      have hkey : v.withdrawalId = w.withdrawalId := by
        rw [beq_iff_eq] at hid hvid
        rw [hvid, hid]
      exact inj_on_of_nodup_map hnd hv hw hkey
    by_cases hok : ok w = true
    · have hpos : 0 < (L.withdrawals.filter (fun w => w.withdrawalId == id && ok w)).length := by
        refine length_pos_of_mem (a := w) (mem_filter.mpr ⟨hw, ?_⟩)
        simp [hid, hok]
      have hupd : updateWhere (fun w => w.withdrawalId == id) u L.withdrawals
          = updateWhere (fun w => w.withdrawalId == id && ok w) u L.withdrawals := by
        refine map_congr_left fun v hv => ?_
        cases hvid : v.withdrawalId == id with
        | false =>
          simp [hvid]
        | true => simp [hsame v hv hvid, hok]
      simp [hok, hpos, hupd]
    · have hno : ∀ v ∈ L.withdrawals, (v.withdrawalId == id && ok v) = false := by
        intro v hv
        cases hvid : v.withdrawalId == id with
        | false => rfl
        | true => simpa [hsame v hv hvid] using hok
      have hfil : L.withdrawals.filter (fun w => w.withdrawalId == id && ok w) = [] :=
        filter_eq_nil_iff.mpr fun v hv => by simp [hno v hv]
      simp [hok, hfil, updateWhere_of_none hno]

/-! ### The five status writes

The condition and the SET list of each statement, as both stores have them. -/

/-- `claimWithdrawalForPayout`: from `pending` only. -/
def claimOk (w : Withdrawal) : Bool := w.status == .pending

def claimSet (claimedAt : Nat) (payoutValidUntil : Option Nat) (w : Withdrawal) : Withdrawal :=
  { w with status := .processing, claimedAt := some claimedAt, payoutValidUntil := payoutValidUntil }

/-- A settling transition: from exactly the open status the caller names. -/
def fromOk (source : WithdrawalOpenStatus) (w : Withdrawal) : Bool := w.status == source.status

def completionSet (payoutReference : String) (completedAt : Nat) (w : Withdrawal) : Withdrawal :=
  { w with status := .completed, payoutReference := some payoutReference,
           completedAt := some completedAt, failureReason := none }

def failSet (reason : String) (failedAt : Nat) (w : Withdrawal) : Withdrawal :=
  { w with status := .failed, failureReason := some reason, completedAt := some failedAt }

/-- `linkWithdrawalTransfer`: open, and no payout reference yet. -/
def linkOk (w : Withdrawal) : Bool :=
  (w.status == .pending || w.status == .processing) && w.payoutReference.isNone

def linkSet (payoutReference : String) (w : Withdrawal) : Withdrawal :=
  { w with payoutReference := some payoutReference }

/-- `noteWithdrawalPayoutUnresolved`: only a claimed payout can be unresolved. -/
def noteOk (w : Withdrawal) : Bool := w.status == .processing

def noteSet (note : String) (w : Withdrawal) : Withdrawal := { w with failureReason := some note }

def refundText (reason : String) : String := "Withdrawal failed: " ++ reason

/-- `failWithdrawalAndRefund` of the SQLite store: the compare-and-set, the re-read of the row
    and the credit commit together, or the call throws and nothing does. -/
def failWithdrawalAndRefund (L : Ledger) (id reason : String) (source : WithdrawalOpenStatus)
    (failedAt : Nat) : Except String (Option (String × Int) × Ledger) :=
  match L.updateWithdrawal id (fromOk source) (failSet reason failedAt) with
  | (false, _) => .ok (none, L)
  | (true, L') =>
    match L'.withdrawals.find? fun w => w.withdrawalId == id with
    | none =>
      .error ("failWithdrawalAndRefund: withdrawal " ++ id ++ " vanished mid-transaction")
    | some w =>
      .ok (some (w.motebitId, w.amount),
        { L' with books := (L'.books.credit w.motebitId w.amount .withdrawal (some id)
            (some (refundText reason)) none).2 })

/-- **What a fail-and-refund can do** with distinct ids: refund the one row that was in the
    named open status, or leave the ledger as it is. -/
theorem failWithdrawalAndRefund_cases (L : Ledger)
    (hnd : (L.withdrawals.map Withdrawal.withdrawalId).Nodup) (id reason : String)
    (source : WithdrawalOpenStatus) (at_ : Nat) :
    (∃ w ∈ L.withdrawals, w.withdrawalId = id ∧ fromOk source w = true ∧
      L.failWithdrawalAndRefund id reason source at_ =
        .ok (some (w.motebitId, w.amount),
          ⟨(L.books.credit w.motebitId w.amount .withdrawal (some id)
            (some (refundText reason)) none).2,
            updateWhere (fun v => v.withdrawalId == id && fromOk source v) (failSet reason at_)
              L.withdrawals⟩)) ∨
    L.failWithdrawalAndRefund id reason source at_ = .ok (none, L) := by
  unfold failWithdrawalAndRefund
  split
  · exact .inr rfl
  next L' hupd =>
  obtain ⟨hcount, rfl⟩ := Prod.mk.inj hupd
  -- `changes > 0`: some row of the table has this id and is in the named open status
  have hpos : 0 < countWhere (fun w => w.withdrawalId == id && fromOk source w)
      L.withdrawals := of_decide_eq_true hcount
  obtain ⟨w, hwf⟩ := exists_mem_of_length_pos hpos
  obtain ⟨hw, hsel⟩ := mem_filter.mp hwf
  rw [Bool.and_eq_true, beq_iff_eq] at hsel
  obtain ⟨rfl, hok⟩ := hsel
  refine .inl ⟨w, hw, rfl, hok, ?_⟩
  have hmem : failSet reason at_ w ∈ updateWhere (fun v => v.withdrawalId == w.withdrawalId
      && fromOk source v) (failSet reason at_) L.withdrawals :=
    mem_updateWhere.mpr ⟨w, hw, by simp [hok]⟩
  split
  · next hnone =>
    have hno := find?_eq_none.mp hnone _ hmem
    simp [failSet] at hno
  · next v hfind =>
    -- the row read back after the UPDATE is that row, failed
    have hv := mem_of_find?_eq_some hfind
    have hvid : v.withdrawalId = w.withdrawalId := by simpa using find?_some hfind
    obtain ⟨v₀, hv₀, hv₀eq⟩ := mem_updateWhere.mp hv
    have hkeep : v.withdrawalId = v₀.withdrawalId ∧ v.motebitId = v₀.motebitId ∧
        v.amount = v₀.amount := by
      rw [hv₀eq]
      split <;> exact ⟨rfl, rfl, rfl⟩
    have hsame : v₀ = w := inj_on_of_nodup_map hnd hv₀ hw (hkeep.1 ▸ hvid)
    subst hsame
    rw [hkeep.2.1, hkeep.2.2]

/-! ## §2. The laws -/

/-- The sum of the ledger rows that reference `id`. -/
def refSum (log : List AccountTransaction) (id : String) : Int :=
  sumWhere (fun t => t.referenceId == some id) AccountTransaction.amount log

/-- How many rows that reference `id` pay money back. -/
def refunds (log : List AccountTransaction) (id : String) : Nat :=
  countWhere (fun t => t.referenceId == some id && decide (0 < t.amount)) log

theorem refunds_append_row (log : List AccountTransaction) (t : AccountTransaction) (id : String) :
    refunds (log ++ [t]) id
      = refunds log id + (if t.referenceId = some id ∧ 0 < t.amount then 1 else 0) := by
  unfold refunds countWhere
  rw [filter_append, length_append]
  by_cases h : t.referenceId = some id ∧ 0 < t.amount
  · simp [h]
  · rw [if_neg h]
    simp only [filter_cons, filter_nil]
    rw [if_neg (by simpa using h)]
    rfl

/-- What the log says about one withdrawal: debited once, and refunded exactly once if it
    failed and never otherwise. -/
def Accounted (log : List AccountTransaction) (w : Withdrawal) : Prop :=
  0 < w.amount ∧
  match w.status with
  | .pending | .processing | .completed =>
      refSum log w.withdrawalId = -w.amount ∧ refunds log w.withdrawalId = 0
  | .failed => refSum log w.withdrawalId = 0 ∧ refunds log w.withdrawalId = 1
  | .cancelled => False

/-- The ledger's invariant. -/
structure Settled (L : Ledger) : Prop where
  agrees : L.books.Agrees
  ids : (L.withdrawals.map Withdrawal.withdrawalId).Nodup
  accounted : ∀ w ∈ L.withdrawals, Accounted L.books.transactions w

theorem Settled.empty : Settled Ledger.empty where
  agrees := Books.Agrees.empty
  ids := nodup_nil
  accounted w hw := absurd hw (by simp [Ledger.empty])

/-! ## §3. Everything a store step can do -/

def NotWithdrawalId (L : Ledger) (ref : Option String) : Prop :=
  ∀ w ∈ L.withdrawals, ref ≠ some w.withdrawalId

/-- An id neither a withdrawal nor a ledger row uses yet. -/
def FreshId (L : Ledger) (id : String) : Prop :=
  (∀ w ∈ L.withdrawals, w.withdrawalId ≠ id) ∧
  ∀ t ∈ L.books.transactions, t.referenceId ≠ some id

/-- The calls a caller that keeps ids apart makes: positive amounts, a withdrawal id nothing
    uses yet, and no other call posted under a withdrawal's id.  `minted` is the queue id the
    store makes up for a call that names none. -/
def Admissible (L : Ledger) (minted : String) : AccountOp → Prop
  | .credit _ amount _ ref _ => 0 < amount ∧ L.NotWithdrawalId ref
  | .debit _ amount _ ref _ => 0 < amount ∧ L.NotWithdrawalId ref
  | .debitSpendable _ amount _ ref _ _ _ => 0 < amount ∧ L.NotWithdrawalId ref
  | .debitAndRecordWithdrawal w _ => 0 < w.amount ∧ L.FreshId w.withdrawalId
  | .debitAndEnqueuePending args _ =>
      0 < args.amountMicro ∧ L.NotWithdrawalId (some (args.pendingId.getD minted))
  | .claimWithdrawalForPayout .. | .setWithdrawalCompletion .. | .failWithdrawalAndRefund ..
  | .linkWithdrawalTransfer .. | .noteWithdrawalPayoutUnresolved .. => True

/-- A status change a moneyless write may make: none, or out of an open status into
    `processing` or `completed`. -/
def Moves (old new : WithdrawalStatus) : Prop :=
  new = old ∨ ((old = .pending ∨ old = .processing) ∧ (new = .processing ∨ new = .completed))

/-- The five things one step of an account store can do. -/
inductive Step : Ledger → Ledger → Prop
  /-- At most a zero account row is created (a refused or replayed call). -/
  | idle (L : Ledger) (m : String) :
      Step L { L with books := L.books.getOrCreateAccount m }
  /-- Nothing is written at all. -/
  | stay (L : Ledger) : Step L L
  /-- A signed amount the balance covers is posted under a reference that is no
      withdrawal's id. -/
  | plain (L : Ledger) (m : String) (amount : Int) (ty : TransactionType)
      (ref desc : Option String) (hcover : 0 ≤ L.books.balance m + amount)
      (href : L.NotWithdrawalId ref) :
      Step L { L with books := (L.books.credit m amount ty ref desc none).2 }
  /-- A withdrawal is debited and recorded `pending`. -/
  | record (L : Ledger) (w : NewWithdrawal) (desc : Option String) (hpos : 0 < w.amount)
      (hcover : w.amount ≤ L.books.balance w.motebitId) (hfresh : L.FreshId w.withdrawalId) :
      Step L ⟨(L.books.credit w.motebitId (-w.amount) .withdrawal (some w.withdrawalId) desc
        none).2, L.withdrawals ++ [w.record]⟩
  /-- An open withdrawal becomes `failed` and its amount is credited back. -/
  | refund (L : Ledger) (w : Withdrawal) (ok : Withdrawal → Bool) (u : Withdrawal → Withdrawal)
      (desc : Option String) (hw : w ∈ L.withdrawals) (hok : ok w = true)
      (hopen : w.status = .pending ∨ w.status = .processing)
      (hu : ∀ v, (u v).withdrawalId = v.withdrawalId ∧ (u v).amount = v.amount ∧
        (u v).status = .failed) :
      Step L ⟨(L.books.credit w.motebitId w.amount .withdrawal (some w.withdrawalId) desc none).2,
        updateWhere (fun v => v.withdrawalId == w.withdrawalId && ok v) u L.withdrawals⟩
  /-- Withdrawal rows change, no money moves. -/
  | touch (L : Ledger) (p : Withdrawal → Bool) (u : Withdrawal → Withdrawal)
      (hu : ∀ v ∈ L.withdrawals, p v = true → (u v).withdrawalId = v.withdrawalId ∧
        (u v).amount = v.amount ∧ Moves v.status (u v).status) :
      Step L { L with withdrawals := updateWhere p u L.withdrawals }

section

variable (L : Ledger)

theorem Step.update (id : String) (ok : Withdrawal → Bool) (u : Withdrawal → Withdrawal)
    (hu : ∀ v, ok v = true → (u v).withdrawalId = v.withdrawalId ∧
      (u v).amount = v.amount ∧ Moves v.status (u v).status) :
    Step L (L.updateWithdrawal id ok u).2 := by
  refine .touch L (fun v => v.withdrawalId == id && ok v) u fun v _ hp => ?_
  rw [Bool.and_eq_true] at hp
  exact hu v hp.2

theorem Step.claim (id : String) (at_ : Nat) (until_ : Option Nat) :
    Step L (L.updateWithdrawal id claimOk (claimSet at_ until_)).2 := by
  refine .update L id _ _ fun v hv => ⟨rfl, rfl, .inr ⟨.inl ?_, .inl rfl⟩⟩
  simpa [claimOk] using hv

theorem Step.complete (id payoutReference : String) (at_ : Nat) (source : WithdrawalOpenStatus) :
    Step L (L.updateWithdrawal id (fromOk source) (completionSet payoutReference at_)).2 := by
  refine .update L id _ _ fun v hv => ⟨rfl, rfl, .inr ⟨?_, .inr rfl⟩⟩
  have hst : v.status = source.status := by simpa [fromOk] using hv
  cases source with
  | pending => exact .inl hst
  | processing => exact .inr hst

theorem Step.link (id payoutReference : String) :
    Step L (L.updateWithdrawal id linkOk (linkSet payoutReference)).2 :=
  Step.update L id _ _ fun _ _ => ⟨rfl, rfl, .inl rfl⟩

theorem Step.note (id note : String) : Step L (L.updateWithdrawal id noteOk (noteSet note)).2 :=
  Step.update L id _ _ fun _ _ => ⟨rfl, rfl, .inl rfl⟩

theorem Step.fail (w : Withdrawal) (reason : String) (at_ : Nat)
    (source : WithdrawalOpenStatus) (hw : w ∈ L.withdrawals) (hok : fromOk source w = true) :
    Step L ⟨(L.books.credit w.motebitId w.amount .withdrawal (some w.withdrawalId)
        (some (refundText reason)) none).2,
      (L.updateWithdrawal w.withdrawalId (fromOk source) (failSet reason at_)).2.withdrawals⟩ := by
  refine .refund L w (fromOk source) (failSet reason at_) _ hw hok ?_ fun _ => ⟨rfl, rfl, rfl⟩
  have hst : w.status = source.status := by simpa [fromOk] using hok
  cases source with
  | pending => exact .inl hst
  | processing => exact .inr hst

theorem Step.debitIf (floor : Int) (m : String) (amount : Int)
    (ty : TransactionType) (ref desc : Option String) (hfloor : amount ≤ floor)
    (href : L.NotWithdrawalId ref) :
    Step L { L with books := (L.books.debitIf floor m amount ty ref desc none).2 } := by
  rcases L.books.debitIf_cases floor m amount ty ref desc none with ⟨-, heq⟩ | ⟨hcov, heq⟩
  · rw [heq]
    exact .idle L m
  · rw [heq]
    exact .plain L m (-amount) ty ref desc (by omega) href

end

/-! ## §4. The laws are kept by every step -/

variable {log : List AccountTransaction} {w : Withdrawal}

theorem Accounted.append_other (h : Accounted log w) (t : AccountTransaction)
    (ht : t.referenceId ≠ some w.withdrawalId) : Accounted (log ++ [t]) w := by
  have hsum : refSum (log ++ [t]) w.withdrawalId = refSum log w.withdrawalId := by
    unfold refSum
    simp [ht]
  have hrefunds : refunds (log ++ [t]) w.withdrawalId = refunds log w.withdrawalId := by
    simp [refunds, countWhere, filter_append, ht]
  unfold Accounted at *
  rw [hsum, hrefunds]
  exact h

theorem Accounted.congr {v : Withdrawal} (h : Accounted log w)
    (hid : v.withdrawalId = w.withdrawalId) (hamt : v.amount = w.amount)
    (hmv : Moves w.status v.status) : Accounted log v := by
  obtain ⟨hpos, hst⟩ := h
  refine ⟨by omega, ?_⟩
  rw [hid, hamt]
  rcases hmv with heq | ⟨hold | hold, hnew | hnew⟩
  · rw [heq]
    exact hst
  all_goals
    rw [hold] at hst
    rw [hnew]
    exact hst

/-- A withdrawal that an id-preserving UPDATE did not select, or whose row it moved, is
    still accounted for. -/
theorem accounted_updateWhere {ws : List Withdrawal} {p : Withdrawal → Bool}
    {u : Withdrawal → Withdrawal} (h : ∀ w ∈ ws, p w = false → Accounted log w)
    (hu : ∀ w ∈ ws, p w = true → Accounted log (u w)) :
    ∀ w ∈ updateWhere p u ws, Accounted log w := by
  intro w hw
  obtain ⟨v, hv, rfl⟩ := mem_updateWhere.mp hw
  cases hp : p v with
  | true => simpa [hp] using hu v hv hp
  | false => simpa [hp] using h v hv hp

/-- **Every step keeps the ledger settled.** -/
theorem Settled.step {L L' : Ledger} (h : Settled L) (hstep : Step L L') : Settled L' := by
  cases hstep with
  | idle m =>
    refine ⟨h.agrees.getOrCreateAccount m, h.ids, fun w hw => ?_⟩
    rw [Books.transactions_getOrCreateAccount]
    exact h.accounted w hw
  | stay => exact h
  | plain m amount ty ref desc hcover href =>
    refine ⟨h.agrees.credit m amount ty ref desc none hcover, h.ids, fun w hw => ?_⟩
    rw [Books.transactions_credit]
    exact (h.accounted w hw).append_other _ (href w hw)
  | record w desc hpos hcover hfresh =>
    obtain ⟨hnew, hunref⟩ := hfresh
    refine ⟨h.agrees.credit _ _ _ _ _ _ (by omega), ?_, fun v hv => ?_⟩
    · rw [map_append, nodup_append]
      refine ⟨h.ids, by simp, ?_⟩
      intro a ha b hb
      obtain ⟨v, hv, rfl⟩ := mem_map.mp ha
      simp only [map_cons, map_nil, mem_singleton] at hb
      subst hb
      exact hnew v hv
    · rw [Books.transactions_credit]
      rcases mem_append.mp hv with hv | hv
      · refine (h.accounted v hv).append_other _ ?_
        simpa using fun e => hnew v hv e.symm
      · -- the new withdrawal: its debit is the only row that references it
        simp only [mem_singleton] at hv
        subst hv
        have hsum : refSum L.books.transactions w.withdrawalId = 0 :=
          sumWhere_eq_zero fun t ht hp => absurd (by simpa using hp) (hunref t ht)
        have hnone : L.books.transactions.filter
            (fun t => t.referenceId == some w.withdrawalId && decide (0 < t.amount)) = [] :=
          filter_eq_nil_iff.mpr fun t ht => by simp [hunref t ht]
        refine ⟨hpos, ?_, ?_⟩
        · unfold refSum at hsum ⊢
          simp [NewWithdrawal.record, hsum]
        · simp only [refunds, countWhere, NewWithdrawal.record, filter_append, hnone]
          simp; omega
  | refund w ok u desc hw hok hopen hu =>
    have hacc := h.accounted w hw
    have hpos := hacc.1
    have hnn := h.agrees.nonneg w.motebitId
    have hids : (updateWhere (fun v => v.withdrawalId == w.withdrawalId && ok v) u
        L.withdrawals).map Withdrawal.withdrawalId = L.withdrawals.map Withdrawal.withdrawalId :=
      map_updateWhere _ fun v => (hu v).1
    refine ⟨h.agrees.credit _ _ _ _ _ _ (by omega), by rw [hids]; exact h.ids, ?_⟩
    rw [Books.transactions_credit]
    refine accounted_updateWhere (fun v hv hp => ?_) (fun v hv hp => ?_)
    · -- a withdrawal with another id does not see the refund row
      refine (h.accounted v hv).append_other _ ?_
      intro heq
      have hvid : v.withdrawalId = w.withdrawalId := (Option.some.inj heq).symm
      have hvw : v = w := inj_on_of_nodup_map h.ids hv hw hvid
      subst hvw
      simp [hok] at hp
    · -- the failed withdrawal itself: debit and refund cancel
      simp only [Bool.and_eq_true, beq_iff_eq] at hp
      have hvw : v = w := inj_on_of_nodup_map h.ids hv hw hp.1
      subst hvw
      obtain ⟨hid, hamt, hst⟩ := hu v
      have hopenAcc : refSum L.books.transactions v.withdrawalId = -v.amount ∧
          refunds L.books.transactions v.withdrawalId = 0 := by
        have h2 := hacc.2
        rcases hopen with ho | ho
        · rw [ho] at h2; exact h2
        · rw [ho] at h2; exact h2
      refine ⟨by omega, ?_⟩
      rw [hst, hid]
      constructor
      · have h0 := hopenAcc.1
        unfold refSum at h0 ⊢
        rw [sumWhere_append_row, h0]
        simp
      · have h0 := hopenAcc.2
        unfold refunds countWhere at h0 ⊢
        rw [filter_append, length_append, h0]
        simp [hpos]
  | touch p u hu =>
    refine ⟨h.agrees, ?_, ?_⟩
    · have hmap : (updateWhere p u L.withdrawals).map Withdrawal.withdrawalId
          = L.withdrawals.map Withdrawal.withdrawalId := by
        unfold updateWhere
        rw [map_map]
        refine map_congr_left fun v hv => ?_
        cases hp : p v with
        | true => simpa [hp] using (hu v hv hp).1
        | false => simp [hp]
      rw [hmap]
      exact h.ids
    · refine accounted_updateWhere (fun v hv _ => h.accounted v hv) (fun v hv hp => ?_)
      obtain ⟨hid, hamt, hmv⟩ := hu v hv hp
      exact (h.accounted v hv).congr hid hamt hmv

theorem Step.completed_stays {L L' : Ledger} (hstep : Step L L') (hnd : (L.withdrawals.map
    Withdrawal.withdrawalId).Nodup) (hw : w ∈ L.withdrawals) (hc : w.status = .completed) :
    ∃ w' ∈ L'.withdrawals, w'.withdrawalId = w.withdrawalId ∧ w'.status = .completed := by
  cases hstep with
  | idle | stay | plain => exact ⟨w, hw, rfl, hc⟩
  | record => exact ⟨w, mem_append_left _ hw, rfl, hc⟩
  | refund v ok u desc hv hok hopen =>
    refine ⟨w, mem_updateWhere.mpr ⟨w, hw, ?_⟩, rfl, hc⟩
    -- the refunded row is open, so it is not this one
    have hne : (w.withdrawalId == v.withdrawalId) = false := by
      by_contra hcon
      have hid : w.withdrawalId = v.withdrawalId := by simpa using hcon
      have hwv : w = v := inj_on_of_nodup_map hnd hw hv hid
      subst hwv
      rcases hopen with ho | ho <;> rw [hc] at ho <;> cases ho
    simp [hne]
  | touch p u hu =>
    cases hp : p w with
    | false => exact ⟨w, mem_updateWhere.mpr ⟨w, hw, by simp [hp]⟩, rfl, hc⟩
    | true =>
      obtain ⟨hid, -, hmv⟩ := hu w hw hp
      refine ⟨u w, mem_updateWhere.mpr ⟨w, hw, by simp [hp]⟩, hid, ?_⟩
      rcases hmv with heq | ⟨ho | ho, -⟩
      · rw [heq, hc]
      · rw [hc] at ho; cases ho
      · rw [hc] at ho; cases ho

end Ledger

end Motebit.Accounts
