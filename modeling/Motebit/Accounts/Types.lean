/-
  Motebit.Accounts.Types — the ROW TYPES of the virtual-accounts ledger.

  These are the records of `packages/virtual-accounts/src/types.ts` and the columns of
  `relay_transactions`, `relay_withdrawals`, `relay_pending_withdrawals`,
  `relay_settlements` and `relay_disputes` that the modelled code reads.  Money is in
  integer micro-units and is signed (`Int`); instants are milliseconds (`Nat`).
-/

import Mathlib.Algebra.Order.Ring.Int

namespace Motebit.Accounts

/-! ## §1. The transaction log -/

inductive TransactionType
  | deposit | withdrawal | allocationHold | allocationRelease
  | settlementDebit | settlementCredit | fee | waiver
  deriving DecidableEq

inductive AllocationMoneyKind
  | hold | settlementFee | settlementCredit | settlementRelease
  | federatedForward | forwardReturn | retryExhaustionRefund | sweepRefund
  | disputeClawback | disputeWorker | disputeDelegator
  deriving DecidableEq

/-- `AllocationStamp`: which allocation's money a ledger row moved, and how.  The two
    columns are written together or both left NULL. -/
structure AllocationStamp where
  allocationId : String
  kind : AllocationMoneyKind
  deriving DecidableEq

/-- One row of `relay_transactions`; `amount` is signed, a debit is negative. -/
structure AccountTransaction where
  motebitId : String
  type : TransactionType
  amount : Int
  balanceAfter : Int
  referenceId : Option String
  description : Option String
  stamp : Option AllocationStamp
  deriving DecidableEq

/-! ## §2. Withdrawals -/

inductive WithdrawalStatus
  | pending | processing | completed | failed | cancelled
  deriving DecidableEq

/-- `WithdrawalOpenStatus`: the two states a settling transition may start from. -/
inductive WithdrawalOpenStatus
  | pending | processing
  deriving DecidableEq

def WithdrawalOpenStatus.status : WithdrawalOpenStatus → WithdrawalStatus
  | .pending => .pending
  | .processing => .processing

/-- One withdrawal row (`WithdrawalRequest` with its idempotency-key column). -/
structure Withdrawal where
  withdrawalId : String
  motebitId : String
  amount : Int
  currency : String
  destination : String
  status : WithdrawalStatus
  idempotencyKey : Option String
  payoutReference : Option String
  requestedAt : Nat
  completedAt : Option Nat
  failureReason : Option String
  claimedAt : Option Nat
  payoutValidUntil : Option Nat
  deriving DecidableEq

structure NewWithdrawal where
  withdrawalId : String
  motebitId : String
  amount : Int
  currency : String
  destination : String
  idempotencyKey : Option String
  requestedAt : Nat
  deriving DecidableEq

/-- The row `insertWithdrawal` writes: status fixed to `pending`, every lifecycle
    column NULL. -/
def NewWithdrawal.record (w : NewWithdrawal) : Withdrawal where
  withdrawalId := w.withdrawalId
  motebitId := w.motebitId
  amount := w.amount
  currency := w.currency
  destination := w.destination
  status := .pending
  idempotencyKey := w.idempotencyKey
  payoutReference := none
  requestedAt := w.requestedAt
  completedAt := none
  failureReason := none
  claimedAt := none
  payoutValidUntil := none

/-- The part of a queued (batched) withdrawal the account store itself writes. -/
structure PendingWithdrawal where
  pendingId : String
  motebitId : String
  amountMicro : Int
  destination : String
  rail : String
  source : String
  idempotencyKey : Option String
  deriving DecidableEq

/-- Arguments of `debitAndEnqueuePending`. -/
structure EnqueueArgs where
  motebitId : String
  amountMicro : Int
  destination : String
  rail : String
  source : String
  idempotencyKey : Option String
  pendingId : Option String
  description : Option String
  deriving DecidableEq

/-! ## §3. Settlements and disputes, as the escrow hold reads them -/

/-- The status column of `relay_settlements` (`partly` is the source's "partial"). -/
inductive SettlementStatus
  | completed | partly | refunded
  deriving DecidableEq

inductive SettlementMode
  | relay | p2p
  deriving DecidableEq

/-- One row of `relay_settlements`. -/
structure Settlement where
  settlementId : String
  allocationId : String
  taskId : String
  motebitId : String
  amountSettled : Int
  platformFee : Int
  status : SettlementStatus
  settledAt : Nat
  settlementMode : Option SettlementMode
  recordJson : Option String
  deriving DecidableEq

def Settlement.isRelay (s : Settlement) : Bool := s.settlementMode.getD .relay == .relay

inductive DisputeState
  | opened | evidence | arbitration | resolved | appealed | final | expired
  deriving DecidableEq

/-- The columns of `relay_disputes` the escrow hold reads. -/
structure Dispute where
  taskId : String
  state : DisputeState
  deriving DecidableEq

/-! ## §4. The store interface -/

/-- One call of the `AccountStore` interface, with the values the call reads from outside
    the store: the clock (`now`), the in-memory store's injected hold (`holdOverride`) and
    the id `crypto.randomUUID` returns to the call (`uuid`). -/
inductive AccountOp
  | credit (motebitId : String) (amount : Int) (type : TransactionType)
      (referenceId description : Option String)
  | debit (motebitId : String) (amount : Int) (type : TransactionType)
      (referenceId description : Option String)
  | debitSpendable (motebitId : String) (amount : Int) (type : TransactionType)
      (referenceId description : Option String) (now : Nat) (holdOverride : Int)
  | debitAndRecordWithdrawal (w : NewWithdrawal) (description : String)
  | claimWithdrawalForPayout (id : String) (claimedAt : Nat) (payoutValidUntil : Option Nat)
  | setWithdrawalCompletion (id payoutReference : String) (completedAt : Nat)
      (source : WithdrawalOpenStatus)
  | failWithdrawalAndRefund (id reason : String) (source : WithdrawalOpenStatus)
      (failedAt : Nat)
  | linkWithdrawalTransfer (id payoutReference : String)
  | noteWithdrawalPayoutUnresolved (id note : String)
  | debitAndEnqueuePending (args : EnqueueArgs) (uuid : String)
  deriving DecidableEq

/-- What `debitAndRecordWithdrawal` answers. -/
inductive RecordResult
  | recorded (record : Withdrawal) (newBalance : Int)
  | existing (record : Withdrawal)
  | insufficient
  deriving DecidableEq

/-! ## §5. Constants -/

def disputeWindowMs : Nat := 24 * 60 * 60 * 1000

def maxSafeInteger : Int := 2 ^ 53 - 1

def isPositiveMicro (amount : Int) : Bool := 0 < amount && amount ≤ maxSafeInteger

/-- The text of the `RangeError` that `assertPositiveMicro` throws. -/
def positiveMicroError (context : String) (amount : Int) : String :=
  context ++ ": amount must be a positive safe integer of micro-units " ++
    "(minimum 1 = 0.000001 USD), got " ++ toString amount ++ ". " ++
    "Validate at the API boundary with parsePositiveMicro(dollars)."

/-- The default ledger text of a queued withdrawal. -/
def EnqueueArgs.ledgerText (args : EnqueueArgs) (pendingId : String) : String :=
  args.description.getD
    ("Pending withdrawal " ++ pendingId ++ " → " ++ args.destination ++ " via " ++ args.rail)

def EnqueueArgs.row (args : EnqueueArgs) (pendingId : String) : PendingWithdrawal where
  pendingId := pendingId
  motebitId := args.motebitId
  amountMicro := args.amountMicro
  destination := args.destination
  rail := args.rail
  source := args.source
  idempotencyKey := args.idempotencyKey

end Motebit.Accounts
