/-
  Motebit.Escrow.Grants — PROMOTIONAL CREDIT AND CASH.

  A grant may be spent on inference and must not leave as cash.  The withdrawal exits hold it
  back by account (`getUnspentGrantHold`), but the hold a delegation takes does not: it
  debits any part of the balance, and what it pays the worker is an ordinary settlement
  credit.  A run here grants, deposits, spends on inference, moves allocation money in any
  kind and withdraws through both exits, in any order.

  The potential is what each account owns (`Books.owned`): as long as no allocation debit
  takes more than that, it stays non-negative, and its total bounds what has been withdrawn.

  Main results: `withdrawn_le_realDeposits`, `delegation_cashes_grant`.
-/

import Motebit.Escrow.Runs
import Motebit.Accounts.Withdrawable

namespace Motebit.Escrow

open Motebit.Lib List
open Motebit.Accounts AccountTransaction Books

/-! ## §1. The system -/

/-- The escrow's tables with the two withdrawal tables. -/
structure CashDb extends Db where
  withdrawals : List Withdrawal
  pendingWithdrawals : List PendingWithdrawal

namespace CashDb

/-- Empty tables. -/
def init : CashDb := { Db.init with withdrawals := [], pendingWithdrawals := [] }

/-- The account store's view of the tables. -/
def accountStore (db : CashDb) (disputes : List Dispute) : SqliteAccountStore where
  books := db.books
  withdrawals := db.withdrawals
  pendingWithdrawals := db.pendingWithdrawals
  settlements := db.settlements
  disputes := disputes

/-- The tables after the account store has written its own. -/
def withStore (db : CashDb) (s : SqliteAccountStore) : CashDb :=
  { db with
    toDb := { db.toDb with books := s.books }
    withdrawals := s.withdrawals, pendingWithdrawals := s.pendingWithdrawals }

end CashDb

/-- One step of a run.  A deposit is a promotional grant when its reference is
    `free-credit:…` and a real deposit otherwise. -/
inductive CashAct
  | deposit (motebitId : String) (amount : Int) (referenceId description : Option String)
  | inferenceFee (amb : Ambient) (motebitId : String) (amount : Int)
      (referenceId description : Option String)
  | openAllocation (allocationId taskId worker : String) (amountLocked : Int)
  | move (amb : Ambient) (move : AllocationMove)
  | markForwardDelivered (settlementId : String)
  | requestWithdrawal (amb : Ambient) (withdrawalId dollars : String)
      (args : RequestWithdrawalArgs)
  | enqueuePendingWithdrawal (amb : Ambient) (uuid motebitId : String) (amountMicro : Int)
      (destination rail source : String) (idempotencyKey : Option String)

section

variable (signedPayee : String → Option String)

/-- What a step does; a refused movement rolls back. -/
def CashDb.act (db : CashDb) : CashAct → CashDb
  | .deposit m amount ref desc =>
      { db with toDb := { db.toDb with books := (db.books.credit m amount .deposit ref desc none).2 } }
  | .inferenceFee amb m amount ref desc =>
      { db with toDb := { db.toDb with books := (db.books.debitSpendable
          (Books.unwithdrawableHold db.settlements amb.disputes amb.now m) m amount .fee ref desc
          none).2 } }
  | .openAllocation a t w n => { db with toDb := openAllocation db.toDb a t w n }
  | .move amb mv =>
      match moveAllocationMoney signedPayee db.toDb amb mv with
      | .ok escrow => { db with toDb := escrow }
      | .error _ => db
  | .markForwardDelivered id => { db with toDb := markForwardDelivered db.toDb id }
  | .requestWithdrawal amb id dollars args =>
      let s := db.accountStore amb.disputes
      db.withStore (s.commit (s.requestWithdrawal amb.now id dollars args))
  | .enqueuePendingWithdrawal amb uuid m amount destination rail source key =>
      let s := db.accountStore amb.disputes
      db.withStore (s.commit
        (s.enqueuePendingWithdrawal amb.now uuid m amount destination rail source key))

/-- What the callers promise: deposits of a positive amount, fees of no negative one, and
    settlement rows that pay no negative amount and, where the relay has no such allocation,
    carry no fee. -/
def CashDb.Promised (db : CashDb) : CashAct → Prop
  | .deposit _ amount _ _ => 0 < amount
  | .inferenceFee _ _ amount _ _ => 0 ≤ amount
  | .move _ (.settlementFee A _ row) =>
      0 ≤ row.amountSettled ∧ (db.allocation? A = none → row.platformFee = 0)
  | _ => True

/-- An allocation debit leaves the account's unspent grant in it. -/
def CashDb.KeepsGrant (db : CashDb) : CashAct → Prop
  | .move _ mv => ∀ party amount, mv.debited = some (party, amount) → 0 < amount →
      amount + db.books.unspentGrantHold party ≤ db.books.balance party
  | _ => True

/-- Runs whose steps meet `cond` as well. -/
def cashSystem (cond : CashDb → CashAct → Prop) : System CashDb CashAct where
  init := .init
  enabled db a := db.Promised a ∧ cond db a
  apply := CashDb.act signedPayee

end

/-! ## §2. The totals -/

/-- What all accounts have withdrawn. -/
def CashDb.withdrawn (db : CashDb) : Int :=
  sumWhere (fun _ => true) Withdrawal.amount db.withdrawals
    + sumWhere (fun _ => true) PendingWithdrawal.amountMicro db.pendingWithdrawals

def CashDb.realDeposits (db : CashDb) : Int :=
  sumWhere (fun t => t.type == .deposit && !t.isGrant) AccountTransaction.amount
    db.books.transactions

/-! ## §3. The invariant -/

/-- What an unstamped row of a run is: a deposit, inference spend or a withdrawal. -/
def PlainRow (type : TransactionType) (amount : Int) : Prop :=
  (type = .deposit ∧ 0 < amount) ∨ (type = .fee ∧ amount ≤ 0) ∨ type = .withdrawal

structure GrantsHeld (db : CashDb) : Prop where
  sound : Sound db.toDb
  fees : ∀ j ∈ db.allocationFees, 0 ≤ j.amount
  forwards : ∀ f ∈ db.federationSettlements, 0 ≤ f.grossAmount
  plain : ∀ t ∈ db.books.transactions, t.stamp = none → PlainRow t.type t.amount
  allocation : ∀ t ∈ db.books.transactions, t.stamp.isSome → AllocationTyped t.type
  owned : ∀ m, 0 ≤ db.books.owned m
  paidOut : db.withdrawn
    = -sumWhere (fun t => t.type == .withdrawal) AccountTransaction.amount db.books.transactions

theorem GrantsHeld.init : GrantsHeld .init where
  sound := Sound.init
  fees j hj := absurd hj not_mem_nil
  forwards f hf := absurd hf not_mem_nil
  plain t ht := absurd ht not_mem_nil
  allocation t ht := absurd ht not_mem_nil
  owned m := Int.le_refl 0
  paidOut := rfl

section

variable {db : CashDb}

theorem owned_credit (b : Books) (m m' : String) (amount : Int) (ty : TransactionType)
    (ref desc : Option String) (st : Option AllocationStamp) :
    (b.credit m amount ty ref desc st).2.owned m'
      = b.owned m' + (if m = m' ∧ ty ≠ .fee ∧ ¬(ty = .deposit ∧ isFreeCredit ref = true)
          then amount else 0) := by
  unfold owned
  rw [transactions_credit, sumWhere_append_row]
  by_cases hm : m = m'
  · by_cases hfee : ty = .fee
    · simp [hfee, ownRow]
    · by_cases hgrant : ty = .deposit ∧ isFreeCredit ref = true
      · simp [hgrant.1, hgrant.2, ownRow, isGrant]
      · have hrow : ownRow ⟨m, ty, amount, b.balance m + amount, ref, desc, st⟩ = true := by
          cases hfree : isFreeCredit ref <;> simp_all [ownRow, isGrant]
        simp only [hm] at hrow
        simp [hm, hfee, hgrant, hrow]
  · simp [hm]

section

variable (h : GrantsHeld db)
include h

/-- **A row is posted**: the escrow stays sound, the row has a type of its own, and a debit
    that is neither inference spend nor of a grant takes no more than is owned. -/
theorem GrantsHeld.post {db' : CashDb} (hsound : Sound db'.toDb)
    (m : String) (amount : Int) (ty : TransactionType) (ref desc : Option String)
    (st : Option AllocationStamp) (hbooks : db'.books = (db.books.credit m amount ty ref desc st).2)
    (hfees : db'.allocationFees = db.allocationFees)
    (hfwd : db'.federationSettlements = db.federationSettlements)
    (hplain : st = none → PlainRow ty amount) (halloc : st.isSome → AllocationTyped ty)
    (howned : ty ≠ .fee → ty ≠ .deposit → 0 ≤ db.books.owned m + amount)
    (htotal : db'.withdrawn = db.withdrawn - (if ty = .withdrawal then amount else 0)) :
    GrantsHeld db' where
  sound := hsound
  fees := by rw [hfees]; exact h.fees
  forwards := by rw [hfwd]; exact h.forwards
  plain t ht hst := by
    rw [hbooks, transactions_credit, mem_append, mem_singleton] at ht
    rcases ht with ht | rfl
    · exact h.plain t ht hst
    · exact hplain hst
  allocation t ht hst := by
    rw [hbooks, transactions_credit, mem_append, mem_singleton] at ht
    rcases ht with ht | rfl
    · exact h.allocation t ht hst
    · exact halloc hst
  owned m' := by
    rw [hbooks, owned_credit]
    have hm' := h.owned m'
    split
    · next hrow =>
      obtain ⟨rfl, hfee, hgrant⟩ := hrow
      by_cases hdep : ty = .deposit
      · -- a real deposit only adds
        cases st with
        | none =>
          rcases hplain rfl with ⟨-, hpos⟩ | ⟨hty, -⟩ | hty
          · omega
          · exact absurd hty hfee
          · rw [hdep] at hty; cases hty
        | some =>
          rcases halloc rfl with hty | hty | hty | hty <;> · rw [hdep] at hty; cases hty
      · exact howned hfee hdep
    · omega
  paidOut := by
    rw [htotal, h.paidOut, hbooks, transactions_credit, sumWhere_append_row]
    by_cases hty : ty = .withdrawal
    · simp [hty]
      omega
    · simp [hty]

theorem GrantsHeld.covers {m : String} {amount : Int}
    (hamount : amount ≤ db.books.balance m - db.books.unspentGrantHold m) :
    amount ≤ db.books.owned m := by
  -- grants are credited and inference is debited, whatever the row's stamp says
  have hrow : ∀ t ∈ db.books.transactions,
      (t.type = .deposit → 0 < t.amount) ∧ (t.type = .fee → t.amount ≤ 0) := by
    intro t ht
    cases hst : t.stamp with
    | none =>
      rcases h.plain t ht hst with ⟨hty, hpos⟩ | ⟨hty, hle⟩ | hty
      · simp [hty, hpos]
      · simp [hty, hle]
      · simp [hty]
    | some =>
      rcases h.allocation t ht (by simp [hst]) with hty | hty | hty | hty <;> simp [hty]
  have hgranted : 0 ≤ db.books.granted m := by
    refine sumWhere_nonneg fun t ht hp => ?_
    simp only [isGrant, Bool.and_eq_true, beq_iff_eq] at hp
    have hpos := (hrow t ht).1 hp.2.1
    omega
  have hspend : 0 ≤ db.books.inferenceSpend m := by
    unfold inferenceSpend
    rw [← sumWhere_neg]
    refine sumWhere_nonneg fun t ht hp => ?_
    simp only [Bool.and_eq_true, beq_iff_eq] at hp
    have hle := (hrow t ht).2 hp.2
    omega
  have hle := balance_sub_hold_le h.sound.agrees hgranted hspend
  omega

/-! ## §4. Every step keeps it -/

theorem GrantsHeld.deposit (m : String) (amount : Int)
    (ref desc : Option String) (hpos : 0 < amount) :
    GrantsHeld { db with toDb := { db.toDb with
      books := (db.books.credit m amount .deposit ref desc none).2 } } := by
  have hnn := h.sound.agrees.nonneg m
  have hsound := h.sound.post m amount .deposit ref desc none (by omega) (by simp)
    (fun _ => ⟨by simp, by simp⟩) (by simp)
  exact h.post hsound m amount .deposit ref desc none rfl rfl rfl (fun _ => .inl ⟨rfl, hpos⟩)
    (by simp) (fun _ hne => absurd rfl hne) (by simp [CashDb.withdrawn])

theorem GrantsHeld.created (m : String) :
    GrantsHeld { db with toDb := { db.toDb with books := db.books.getOrCreateAccount m } } := by
  have htx := db.books.transactions_getOrCreateAccount m
  refine ⟨?_, h.fees, h.forwards, ?_, ?_, ?_, ?_⟩
  · obtain ⟨hagrees, hshape, hunst, hj, hpaid, hst, hids, hheld⟩ := h.sound
    refine ⟨hagrees.getOrCreateAccount m, fun t ht => hshape t (htx ▸ ht),
      fun t ht => hunst t (htx ▸ ht), hj, hpaid, hst, hids, fun A => ?_⟩
    have hA := hheld A
    unfold Db.heldStamped Db.fees Db.forwards at hA ⊢
    rw [htx]
    exact hA
  · exact fun t ht => h.plain t (htx ▸ ht)
  · exact fun t ht => h.allocation t (htx ▸ ht)
  · intro m'
    have hm' := h.owned m'
    unfold Books.owned at hm' ⊢
    rw [htx]
    exact hm'
  · show db.withdrawn = _
    rw [h.paidOut]
    show _ = -sumWhere _ _ (db.books.getOrCreateAccount m).transactions
    rw [htx]

theorem GrantsHeld.inferenceFee (hold : Int) (hhold : 0 ≤ hold) (m : String)
    (amount : Int) (ref desc : Option String) (hnn : 0 ≤ amount) :
    GrantsHeld { db with toDb := { db.toDb with
      books := (db.books.debitSpendable hold m amount .fee ref desc none).2 } } := by
  unfold debitSpendable
  rcases db.books.debitIf_cases (amount + hold) m amount .fee ref desc none with
    ⟨-, heq⟩ | ⟨hcov, heq⟩
  · rw [heq]
    exact h.created m
  · rw [heq]
    have hsound := h.sound.post m (-amount) .fee ref desc none (by omega) (by simp)
      (fun _ => ⟨by simp, by simp⟩) (by simp)
    exact h.post hsound m (-amount) .fee ref desc none rfl rfl rfl
      (fun _ => .inr (.inl ⟨rfl, by omega⟩)) (by simp) (fun hne => absurd rfl hne)
      (by simp [CashDb.withdrawn])

theorem GrantsHeld.openAllocation (A T w : String) (n : Int) :
    GrantsHeld { db with toDb := openAllocation db.toDb A T w n } := by
  unfold Escrow.openAllocation
  split
  · exact h
  · obtain ⟨hagrees, hshape, -, hj, hpaid, hst, hids, hheld⟩ := h.sound
    refine { h with sound := ⟨hagrees, hshape, ?_, hj, hpaid, hst, hids, hheld⟩ }
    -- no unstamped row has a type the legacy clauses read
    intro t ht hnone
    rcases h.plain t ht hnone with ⟨hty, -⟩ | ⟨hty, -⟩ | hty <;>
      exact ⟨by simp [hty], by simp [hty]⟩

theorem GrantsHeld.markForwardDelivered (id : String) :
    GrantsHeld { db with toDb := markForwardDelivered db.toDb id } := by
  have hsound := h.sound.forwardStatus id .delivered (by intro hst; cases hst) (.inl rfl)
  refine { h with sound := hsound, forwards := ?_ }
  intro f hf
  obtain ⟨g, hg, rfl⟩ := mem_updateWhere.mp hf
  have hgross := h.forwards g hg
  split <;> exact hgross

theorem GrantsHeld.exit {disputes : List Dispute} {now : Nat} {m : String}
    {s : SqliteAccountStore} (hexit : (db.accountStore disputes).Exit now m s) :
    GrantsHeld (db.withStore s) := by
  cases hexit with
  | nothing => exact h
  | created => exact h.created m
  | left amount ref desc withdrawals pending hpos havail htotal =>
    have hle := SqliteAccountStore.available_le h.sound.paid hpos havail
    have hsound := h.sound.post m (-amount) .withdrawal ref desc none ?_ (by simp)
      (fun _ => ⟨by simp, by simp⟩) (by simp)
    · refine h.post hsound m (-amount) .withdrawal ref desc none rfl rfl rfl
        (fun _ => .inr (.inr rfl)) (by simp) ?_ ?_
      · intro _ _
        have hown := h.covers hle.2
        omega
      · rw [if_pos rfl, Int.sub_neg]
        exact htotal
    · have hcov : amount ≤ db.books.balance m := by
        have hgrant : 0 ≤ db.books.unspentGrantHold m := by
          unfold unspentGrantHold
          split <;> omega
        have h2 := hle.2
        simp only [CashDb.accountStore] at h2
        omega
      omega

/-- **An allocation movement**: the escrow stays sound, and a debit takes only what its
    account owns. -/
theorem GrantsHeld.move {signedPayee : String → Option String}
    {amb : Ambient} {mv : AllocationMove} {escrow : Db} (hpromise : db.Promised (.move amb mv))
    (hkeep : db.KeepsGrant (.move amb mv))
    (hmove : moveAllocationMoney signedPayee db.toDb amb mv = .ok escrow) :
    GrantsHeld { db with toDb := escrow } := by
  have happ := moveAllocationMoney_appends hmove
  have hclean : db.CleanMove mv := by
    cases mv with
    | settlementFee =>
      refine ⟨hpromise.1, fun t ht hnone hty => ?_, hpromise.2⟩
      rcases h.plain t ht hnone with ⟨hty', -⟩ | ⟨hty', -⟩ | hty' <;>
        · rw [hty] at hty'
          cases hty'
    | _ => trivial
  have heff := moveAllocationMoney_effect hmove
  have hsound := h.sound.effect hclean heff
  have htotal : ∀ ty amount, AllocationTyped ty →
      db.withdrawn = db.withdrawn - (if ty = .withdrawal then amount else 0) := by
    rintro ty amount (rfl | rfl | rfl | rfl) <;> simp
  cases heff with
  | nothing => exact h
  | held A party description amount hpos hcover
  | clawedBack A party disputeId description amount hpos =>
    obtain ⟨hty, hdebit⟩ := happ.row rfl
    have hown : amount ≤ db.books.owned party := h.covers ?_
    · exact h.post hsound party (-amount) _ _ _ _ rfl rfl rfl (by simp) (fun _ => hty)
        (fun _ _ => by omega) (htotal _ _ hty)
    · have hleft := hkeep party amount (by simpa using hdebit (by omega)) hpos
      omega
  | paidOut A party kind type reference description amount =>
    obtain ⟨hty, -⟩ := happ.row rfl
    have hown := h.owned party
    exact h.post hsound party amount _ _ _ _ rfl rfl rfl (by simp) (fun _ => hty)
      (fun _ _ => by omega) (htotal _ _ hty)
  | settled row amount hmv hopen hfee hnn =>
    refine { h with sound := hsound, fees := ?_ }
    intro j hj
    rcases mem_append.mp hj with hj | hj
    · exact h.fees j hj
    · split at hj
      · rw [mem_singleton.mp hj]
        exact hnn
      · cases hj
  | recorded =>
    exact { h with sound := hsound }
  | forwarded A row hopen hstamp hstatus hfresh hnn =>
    refine { h with sound := hsound, forwards := ?_ }
    exact forall_mem_append.mpr ⟨h.forwards, forall_mem_singleton.mpr hnn⟩
  | returned =>
    refine { h with sound := hsound, forwards := ?_ }
    intro g hg
    obtain ⟨g', hg', rfl⟩ := mem_updateWhere.mp hg
    have hgross := h.forwards g' hg'
    split <;> exact hgross

theorem GrantsHeld.act {signedPayee : String → Option String} {a : CashAct}
    (hpromise : db.Promised a) (hkeep : db.KeepsGrant a) : GrantsHeld (db.act signedPayee a) := by
  cases a with
  | deposit m amount ref desc => exact h.deposit m amount ref desc hpromise
  | inferenceFee amb m amount ref desc =>
    have hhold := unwithdrawableHold_nonneg h.sound.paid amb.disputes amb.now m
    exact h.inferenceFee _ hhold m amount ref desc hpromise
  | openAllocation A T w n => exact h.openAllocation A T w n
  | move amb mv =>
    show GrantsHeld (match moveAllocationMoney signedPayee db.toDb amb mv with
      | .ok escrow => { db with toDb := escrow }
      | .error _ => db)
    split
    · next hmove => exact h.move hpromise hkeep hmove
    · exact h
  | markForwardDelivered id => exact h.markForwardDelivered id
  | requestWithdrawal amb id dollars args =>
    exact h.exit (SqliteAccountStore.requestWithdrawal_exit _ amb.now id dollars args)
  | enqueuePendingWithdrawal amb uuid m amount destination rail source key =>
    exact h.exit (SqliteAccountStore.enqueuePendingWithdrawal_exit _ amb.now uuid m amount
      destination rail source key)

/-! ## §5. The bound -/

/-- Allocation rows only take money out of accounts: the escrow never pays out more than
    went in. -/
theorem GrantsHeld.stamped_le :
    sumWhere (fun t => t.stamp.isSome) amount db.books.transactions ≤ 0 := by
  have hneg : 0 ≤ sumWhere (fun t => t.stamp.isSome) (fun t => -t.amount)
      db.books.transactions := by
    refine sumWhere_nonneg_of_groups (fun t => t.stamp.map AllocationStamp.allocationId) fun k => ?_
    cases k with
    | none =>
      have hnone := sumWhere_eq_zero (t := db.books.transactions) (f := fun t => -t.amount)
        (p := fun t => t.stamp.isSome
          && decide (t.stamp.map AllocationStamp.allocationId = none)) fun t _ hp => by
          cases hst : t.stamp <;> simp [hst] at hp
      omega
    | some A =>
      have hsame : sumWhere (fun t => t.stamp.isSome
            && decide (t.stamp.map AllocationStamp.allocationId = some A))
            (fun t => -t.amount) db.books.transactions
          = -sumWhere (stampedWith A) amount db.books.transactions := by
        rw [← sumWhere_neg]
        refine sumWhere_congr (fun t _ => ?_) fun _ _ _ => rfl
        cases hst : t.stamp with
        | none => simp [stampedWith, hst]
        | some => simp [stampedWith, hst, Bool.beq_eq_decide_eq]
      have hheld := h.sound.held A
      have hfees : 0 ≤ db.fees A := sumWhere_nonneg fun j hj _ => h.fees j hj
      have hfwd : 0 ≤ db.toDb.forwards A := sumWhere_nonneg fun f hf _ => h.forwards f hf
      unfold Db.heldStamped at hheld
      omega
  rw [sumWhere_neg] at hneg
  omega

/-- What accounts own in total is what was really deposited, less withdrawals, plus what
    allocation rows moved. -/
theorem GrantsHeld.owned_total : sumWhere ownRow amount db.books.transactions
      = db.realDeposits - db.withdrawn
        + sumWhere (fun t => t.stamp.isSome) amount db.books.transactions := by
  have hsplit : ∀ log : List AccountTransaction,
      (∀ t ∈ log, t.stamp = none → PlainRow t.type t.amount) →
      (∀ t ∈ log, t.stamp.isSome → AllocationTyped t.type) →
      sumWhere ownRow amount log = sumWhere (fun t => t.type == .deposit && !t.isGrant) amount log
          + sumWhere (fun t => t.type == .withdrawal) amount log
          + sumWhere (fun t => t.stamp.isSome) amount log := by
    intro log
    induction log with
    | nil => intros; rfl
    | cons t log ih =>
      intro hplain halloc
      have hlog := ih (fun u hu => hplain u (by simp [hu])) (fun u hu => halloc u (by simp [hu]))
      simp only [sumWhere_cons, hlog]
      cases hst : t.stamp with
      | none =>
        rcases hplain t (by simp) hst with ⟨hty, -⟩ | ⟨hty, -⟩ | hty
        · cases hgrant : t.isGrant <;> simp [ownRow, hty, hgrant]
          omega
        · simp [ownRow, hty]
        · simp [ownRow, isGrant, hty]
          omega
      | some =>
        rcases halloc t (by simp) (by simp [hst]) with hty | hty | hty | hty <;>
          · simp [ownRow, isGrant, hty]
            omega
  have htotal := hsplit _ h.plain h.allocation
  have hpaid := h.paidOut
  unfold CashDb.realDeposits
  omega

theorem GrantsHeld.bound : db.withdrawn ≤ db.realDeposits := by
  have hnn : 0 ≤ sumWhere ownRow amount db.books.transactions := by
    refine sumWhere_nonneg_of_groups motebitId fun m => ?_
    have hsame : sumWhere (fun t => ownRow t && decide (t.motebitId = m))
        amount db.books.transactions = db.books.owned m :=
      sumWhere_congr (fun t _ => by rw [Bool.and_comm]; rfl) fun _ _ _ => rfl
    rw [hsame]
    exact h.owned m
  have hstamped := h.stamped_le
  have htotal := h.owned_total
  omega

end

end

/-- **Grants stay out of cash**: in every run whose allocation debits leave the unspent grant
    in the account they debit, no more is withdrawn than was really deposited. -/
theorem withdrawn_le_realDeposits (signedPayee : String → Option String) (db : CashDb)
    (hreach : (cashSystem signedPayee CashDb.KeepsGrant).Reachable db) :
    db.withdrawn ≤ db.realDeposits := by
  refine GrantsHeld.bound (System.Reachable.invariant GrantsHeld GrantsHeld.init ?_ hreach)
  intro u a hu hen
  exact hu.act hen.1 hen.2

/-! ## §6. Two runs -/

private def atFiling : Ambient := ⟨false, 0, []⟩

private def windowOver : Ambient := ⟨false, disputeWindowMs, []⟩

/-- Grants spent on inference, a delegation paid from a real deposit, and its withdrawal. -/
def ownMoneyRun : List CashAct :=
  [.deposit "alice" 100 (some "free-credit:alice") none, .deposit "alice" 50 none none,
   .inferenceFee atFiling "alice" 30 (some "turn-1") none,
   .openAllocation "A" "task" "bob" 50,
   .move atFiling (.hold "A" 50 "alice" "hold"),
   .move atFiling (.settlementFee "A" 5
     ⟨"s1", "A", "task", "bob", 45, 5, .completed, 0, none, none⟩),
   .move atFiling (.settlementCredit "A" 45 "bob" "s1" "net"),
   .requestWithdrawal windowOver "w1" "0.000045" ⟨"bob", 45, none, none⟩]

theorem withdrawn_le_realDeposits_ownMoneyRun :
    ((cashSystem (fun _ => none) CashDb.KeepsGrant).run .init ownMoneyRun).withdrawn = 45 ∧
    ((cashSystem (fun _ => none) CashDb.KeepsGrant).run .init ownMoneyRun).withdrawn
      ≤ ((cashSystem (fun _ => none) CashDb.KeepsGrant).run .init ownMoneyRun).realDeposits := by
  refine ⟨by decide +kernel,
    withdrawn_le_realDeposits (fun _ => none) _ (System.reachableFrom_run _ _ _ ?_)⟩
  refine ⟨⟨(by decide : (0 : Int) < 100), trivial⟩, ⟨(by decide : (0 : Int) < 50), trivial⟩,
    ⟨(by decide : (0 : Int) ≤ 30), trivial⟩, ⟨trivial, trivial⟩, ⟨trivial, ?_⟩,
    ⟨⟨by decide, ?_⟩, ?_⟩, ⟨trivial, ?_⟩, ⟨trivial, trivial⟩, trivial⟩
  · intro party amount hdebit _
    cases hdebit
    decide +kernel
  · intro hnone
    cases hnone
  · nofun
  · nofun

/-- The whole grant is delegated; the worker's earnings are cash when the window is over. -/
def delegatedGrantRun : List CashAct :=
  [.deposit "alice" 100 (some "free-credit:alice") none, .openAllocation "A" "task" "bob" 100,
   .move atFiling (.hold "A" 100 "alice" "hold"),
   .move atFiling (.settlementFee "A" 5
     ⟨"s1", "A", "task", "bob", 95, 5, .completed, 0, none, none⟩),
   .move atFiling (.settlementCredit "A" 95 "bob" "s1" "net"),
   .requestWithdrawal windowOver "w1" "0.000095" ⟨"bob", 95, none, none⟩]

/-- **One delegation turns a grant into cash**: nothing was really deposited, and 95 of the
    100 granted are withdrawn. -/
theorem delegation_cashes_grant :
    ∃ db, (cashSystem (fun _ => none) fun _ _ => True).Reachable db ∧
      db.realDeposits = 0 ∧ db.withdrawn = 95 ∧ ¬ db.withdrawn ≤ db.realDeposits := by
  refine ⟨(cashSystem (fun _ => none) fun _ _ => True).run .init delegatedGrantRun,
    System.reachableFrom_run _ _ _ ?_, by decide +kernel, by decide +kernel, by decide +kernel⟩
  refine ⟨⟨(by decide : (0 : Int) < 100), trivial⟩, ⟨trivial, trivial⟩, ⟨trivial, trivial⟩,
    ⟨⟨by decide, ?_⟩, trivial⟩, ⟨trivial, trivial⟩, ⟨trivial, trivial⟩, trivial⟩
  intro hnone
  cases hnone

end Motebit.Escrow
