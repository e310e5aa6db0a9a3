/-
  Motebit.Accounts.Sqlite — the SQLITE account store.

  Translated from `SqliteAccountStore` (`services/relay/src/account-store-sqlite.ts`).  Every
  method is one transaction: it commits whole or, when it throws, leaves the database as it
  was.  A primary-key conflict is a throw.

  Main result:
    * `apply_step` — every call is one of the ledger's steps.
-/

import Motebit.Accounts.Ledger

namespace Motebit.Accounts

open Motebit.Lib

structure SqliteAccountStore extends Ledger where
  pendingWithdrawals : List PendingWithdrawal
  settlements : List Settlement
  disputes : List Dispute

namespace SqliteAccountStore

/-- Empty tables. -/
def init : SqliteAccountStore :=
  { Ledger.empty with pendingWithdrawals := [], settlements := [], disputes := [] }

/-! ## §1. The methods -/

def credit (s : SqliteAccountStore) (motebitId : String) (amount : Int)
    (type : TransactionType) (referenceId description : Option String) : Int × SqliteAccountStore :=
  let r := s.books.credit motebitId amount type referenceId description none
  (r.1, { s with books := r.2 })

def debit (s : SqliteAccountStore) (motebitId : String) (amount : Int)
    (type : TransactionType) (referenceId description : Option String) :
    Option Int × SqliteAccountStore :=
  let r := s.books.debit motebitId amount type referenceId description none
  (r.1, { s with books := r.2 })

/-- `debitSpendable`: the hold is read from the settlement and dispute tables first. -/
def debitSpendable (s : SqliteAccountStore) (now : Nat) (motebitId : String) (amount : Int)
    (type : TransactionType) (referenceId description : Option String) :
    Option Int × SqliteAccountStore :=
  let hold := Books.unwithdrawableHold s.settlements s.disputes now motebitId
  let r := s.books.debitSpendable hold motebitId amount type referenceId description none
  (r.1, { s with books := r.2 })

def getWithdrawalByIdempotencyKey (s : SqliteAccountStore) (motebitId key : String) :
    Option Withdrawal :=
  s.withdrawals.find? fun w => w.motebitId == motebitId && w.idempotencyKey == some key

/-- `insertWithdrawal`: an INSERT under the primary key. -/
def insertWithdrawal (s : SqliteAccountStore) (w : NewWithdrawal) :
    Except String SqliteAccountStore :=
  if s.withdrawals.any fun v => v.withdrawalId == w.withdrawalId then
    .error "UNIQUE constraint failed: relay_withdrawals.withdrawal_id"
  else
    .ok { s with withdrawals := s.withdrawals ++ [w.record] }

/-- `debitAndRecordWithdrawal`: key check, debit and row in one transaction. -/
def debitAndRecordWithdrawal (s : SqliteAccountStore) (w : NewWithdrawal)
    (description : String) : Except String (RecordResult × SqliteAccountStore) :=
  if isPositiveMicro w.amount then
    match w.idempotencyKey.bind (s.getWithdrawalByIdempotencyKey w.motebitId) with
    | some existing => .ok (.existing existing, s)
    | none =>
      match s.debit w.motebitId w.amount .withdrawal (some w.withdrawalId) (some description) with
      | (none, s') => .ok (.insufficient, s')
      | (some newBalance, s') =>
        match s'.insertWithdrawal w with
        | .error e => .error e
        | .ok s'' => .ok (.recorded w.record newBalance, s'')
  else
    .error (positiveMicroError "debitAndRecordWithdrawal" w.amount)

def claimWithdrawalForPayout (s : SqliteAccountStore) (id : String) (claimedAt : Nat)
    (payoutValidUntil : Option Nat) : Bool × SqliteAccountStore :=
  let r := s.updateWithdrawal id Ledger.claimOk (Ledger.claimSet claimedAt payoutValidUntil)
  (r.1, { s with toLedger := r.2 })

def setWithdrawalCompletion (s : SqliteAccountStore) (id payoutReference : String)
    (completedAt : Nat) (source : WithdrawalOpenStatus) : Bool × SqliteAccountStore :=
  let r := s.updateWithdrawal id (Ledger.fromOk source)
    (Ledger.completionSet payoutReference completedAt)
  (r.1, { s with toLedger := r.2 })

def failWithdrawalAndRefund (s : SqliteAccountStore) (id reason : String)
    (source : WithdrawalOpenStatus) (failedAt : Nat) :
    Except String (Option (String × Int) × SqliteAccountStore) :=
  match s.toLedger.failWithdrawalAndRefund id reason source failedAt with
  | .error e => .error e
  | .ok (refunded, L) => .ok (refunded, { s with toLedger := L })

def linkWithdrawalTransfer (s : SqliteAccountStore) (id payoutReference : String) :
    Bool × SqliteAccountStore :=
  let r := s.updateWithdrawal id Ledger.linkOk (Ledger.linkSet payoutReference)
  (r.1, { s with toLedger := r.2 })

def noteWithdrawalPayoutUnresolved (s : SqliteAccountStore) (id note : String) :
    Bool × SqliteAccountStore :=
  let r := s.updateWithdrawal id Ledger.noteOk (Ledger.noteSet note)
  (r.1, { s with toLedger := r.2 })

/-- `debitAndEnqueuePending`: replay check, debit and queue row in one transaction. -/
def debitAndEnqueuePending (s : SqliteAccountStore) (args : EnqueueArgs) (uuid : String) :
    Except String (Option (String × Int) × SqliteAccountStore) :=
  let pendingId := args.pendingId.getD uuid
  match args.idempotencyKey.bind fun key =>
      s.pendingWithdrawals.find? fun row =>
        row.motebitId == args.motebitId && row.idempotencyKey == some key with
  | some row => .ok (some (row.pendingId, s.books.balance args.motebitId), s)
  | none =>
    match s.debit args.motebitId args.amountMicro .withdrawal (some pendingId)
        (some (args.ledgerText pendingId)) with
    | (none, s') => .ok (none, s')
    | (some newBalance, s') =>
      if s'.pendingWithdrawals.any fun row => row.pendingId == pendingId then
        .error "UNIQUE constraint failed: relay_pending_withdrawals.pending_id"
      else
        .ok (some (pendingId, newBalance),
          { s' with pendingWithdrawals := s'.pendingWithdrawals ++ [args.row pendingId] })

/-- The state after a transaction: its own result, or the state before when it threw. -/
def commit {α : Type} (s : SqliteAccountStore) (r : Except String (α × SqliteAccountStore)) :
    SqliteAccountStore :=
  match r with
  | .ok r => r.2
  | .error _ => s

/-- One call of the interface. -/
def apply (s : SqliteAccountStore) : AccountOp → SqliteAccountStore
  | .credit m amount ty ref desc => (s.credit m amount ty ref desc).2
  | .debit m amount ty ref desc => (s.debit m amount ty ref desc).2
  | .debitSpendable m amount ty ref desc now _ => (s.debitSpendable now m amount ty ref desc).2
  | .debitAndRecordWithdrawal w desc => s.commit (s.debitAndRecordWithdrawal w desc)
  | .claimWithdrawalForPayout id at_ until_ => (s.claimWithdrawalForPayout id at_ until_).2
  | .setWithdrawalCompletion id ref at_ source => (s.setWithdrawalCompletion id ref at_ source).2
  | .failWithdrawalAndRefund id reason source at_ =>
      s.commit (s.failWithdrawalAndRefund id reason source at_)
  | .linkWithdrawalTransfer id ref => (s.linkWithdrawalTransfer id ref).2
  | .noteWithdrawalPayoutUnresolved id note => (s.noteWithdrawalPayoutUnresolved id note).2
  | .debitAndEnqueuePending args uuid => s.commit (s.debitAndEnqueuePending args uuid)

/-! ## §2. Every call is a ledger step -/

/-- The queue id a call makes up: the uuid it drew, when it is an enqueue at all. -/
def mintedBy : AccountOp → String
  | .debitAndEnqueuePending _ uuid => uuid
  | _ => ""

section

variable (s : SqliteAccountStore)

theorem debit_step (m : String) (amount : Int)
    (ty : TransactionType) (ref desc : Option String) (href : s.NotWithdrawalId ref) :
    Ledger.Step s.toLedger (s.debit m amount ty ref desc).2.toLedger :=
  Ledger.Step.debitIf s.toLedger amount m amount ty ref desc (Int.le_refl amount) href

theorem record_step (w : NewWithdrawal) (desc : String)
    (hpos : 0 < w.amount) (hfresh : s.FreshId w.withdrawalId) :
    Ledger.Step s.toLedger (s.commit (s.debitAndRecordWithdrawal w desc)).toLedger := by
  unfold debitAndRecordWithdrawal
  split
  · split
    · exact .stay _
    · rcases s.books.debitIf_cases w.amount w.motebitId w.amount .withdrawal
        (some w.withdrawalId) (some desc) none with ⟨-, heq⟩ | ⟨hcov, heq⟩
      · simp only [debit, Books.debit, heq, commit]
        exact .idle _ _
      · -- a fresh id meets no primary-key conflict
        have hpk : (s.withdrawals.any fun v => v.withdrawalId == w.withdrawalId) = false := by
          simpa using hfresh.1
        simp only [debit, Books.debit, heq, insertWithdrawal, hpk, commit]
        exact .record s.toLedger w (some desc) hpos hcov hfresh
  · exact .stay _

theorem fail_step (hset : s.toLedger.Settled) (id reason : String)
    (source : WithdrawalOpenStatus) (at_ : Nat) : Ledger.Step s.toLedger
      (s.commit (s.failWithdrawalAndRefund id reason source at_)).toLedger := by
  unfold failWithdrawalAndRefund
  rcases s.toLedger.failWithdrawalAndRefund_cases hset.ids id reason source at_ with
    ⟨w, hw, rfl, hok, heq⟩ | heq
  · rw [heq]
    exact .fail s.toLedger w reason at_ source hw hok
  · rw [heq]
    exact .stay _

theorem enqueue_step (args : EnqueueArgs) (uuid : String)
    (href : s.NotWithdrawalId (some (args.pendingId.getD uuid))) :
    Ledger.Step s.toLedger (s.commit (s.debitAndEnqueuePending args uuid)).toLedger := by
  unfold debitAndEnqueuePending
  dsimp only
  split
  · exact .stay _
  · have h := debit_step s args.motebitId args.amountMicro .withdrawal
      (some (args.pendingId.getD uuid)) (some (args.ledgerText (args.pendingId.getD uuid))) href
    split
    · next heq => rw [heq] at h; exact h
    next heq =>
    rw [heq] at h
    split
    · exact .stay _
    · exact h

/-- **Refinement**: every admissible call on a settled database, whose settlements paid no
    negative amount, is one ledger step. -/
theorem apply_step (op : AccountOp) (hset : s.toLedger.Settled)
    (hsettl : ∀ r ∈ s.settlements, 0 ≤ r.amountSettled)
    (hadm : s.toLedger.Admissible (mintedBy op) op) :
    Ledger.Step s.toLedger (s.apply op).toLedger := by
  cases op with
  | credit m amount ty ref desc =>
    obtain ⟨hpos, href⟩ := hadm
    have hnn := hset.agrees.nonneg m
    exact .plain s.toLedger m amount ty ref desc (by omega) href
  | debit m amount ty ref desc => exact debit_step s m amount ty ref desc hadm.2
  | debitSpendable m amount ty ref desc now =>
    have hhold := Books.unwithdrawableHold_nonneg hsettl s.disputes now m
    exact .debitIf s.toLedger _ m amount ty ref desc (by omega) hadm.2
  | debitAndRecordWithdrawal w desc => exact record_step s w desc hadm.1 hadm.2
  | claimWithdrawalForPayout id at_ until_ => exact .claim s.toLedger id at_ until_
  | setWithdrawalCompletion id ref at_ source =>
    exact .complete s.toLedger id ref at_ source
  | failWithdrawalAndRefund id reason source at_ => exact fail_step s hset id reason source at_
  | linkWithdrawalTransfer id ref => exact .link s.toLedger id ref
  | noteWithdrawalPayoutUnresolved id note => exact .note s.toLedger id note
  | debitAndEnqueuePending args uuid => exact enqueue_step s args uuid hadm.2

theorem settlements_apply (op : AccountOp) : (s.apply op).settlements = s.settlements := by
  cases op with
  | debitAndRecordWithdrawal w desc =>
    show (s.commit (s.debitAndRecordWithdrawal w desc)).settlements = s.settlements
    unfold debitAndRecordWithdrawal
    have hdebit : (s.debit w.motebitId w.amount .withdrawal (some w.withdrawalId)
        (some desc)).2.settlements = s.settlements := rfl
    split
    · split
      · rfl
      · split
        · next heq => rw [heq] at hdebit; exact hdebit
        · next heq =>
          rw [heq] at hdebit
          unfold insertWithdrawal
          split
          · rfl
          next hins =>
          split at hins
          · cases hins
          · cases hins; exact hdebit
    · rfl
  | failWithdrawalAndRefund id reason source at_ =>
    show (s.commit (s.failWithdrawalAndRefund id reason source at_)).settlements = s.settlements
    unfold failWithdrawalAndRefund
    split <;> rfl
  | debitAndEnqueuePending args uuid =>
    show (s.commit (s.debitAndEnqueuePending args uuid)).settlements = s.settlements
    unfold debitAndEnqueuePending
    dsimp only
    have hdebit : (s.debit args.motebitId args.amountMicro .withdrawal
        (some (args.pendingId.getD uuid))
        (some (args.ledgerText (args.pendingId.getD uuid)))).2.settlements = s.settlements := rfl
    split
    · rfl
    · split
      · next heq => rw [heq] at hdebit; exact hdebit
      · next heq =>
        rw [heq] at hdebit
        split
        · rfl
        · exact hdebit
  | credit | debit | debitSpendable | claimWithdrawalForPayout | setWithdrawalCompletion
  | linkWithdrawalTransfer | noteWithdrawalPayoutUnresolved => rfl

end

end SqliteAccountStore

end Motebit.Accounts
