/-
  Motebit.Escrow.Model — THE ALLOCATION ESCROW: the one reading of what an allocation holds
  and the one writer of allocation money.

  Translated from `services/relay/src/allocation-escrow.ts`, with the account operations of
  `account-store-sqlite.ts` it calls.  Each function is one transaction: an error leaves the
  database as it was.  What a call reads from outside these tables (the freeze row, the
  clock, the dispute table) is passed in as `Ambient`, and the reading of the payee out of a
  signed settlement body (`JSON.parse`) is the parameter `signedPayee`.
-/

import Motebit.Accounts.Books

namespace Motebit.Escrow

open Motebit.Lib
open Motebit.Accounts

/-! ## §1. Tables -/

/-- One row of `relay_allocations`; `motebitId` is the worker. -/
structure Allocation where
  allocationId : String
  taskId : String
  motebitId : String
  amountLocked : Int
  reviewReason : Option String
  deriving DecidableEq

/-- One row of the append-only fee journal `relay_allocation_fees`. -/
structure AllocationFee where
  settlementId : String
  allocationId : String
  amount : Int
  deriving DecidableEq

inductive ForwardStatus
  | pending | delivered | failed
  deriving DecidableEq

structure FederationSettlement where
  settlementId : String
  taskId : String
  upstreamRelayId : String
  downstreamRelayId : Option String
  grossAmount : Int
  allocationId : Option String
  status : ForwardStatus
  deriving DecidableEq

/-- The tables allocation money lives in. -/
structure Db where
  books : Books
  allocations : List Allocation
  settlements : List Settlement
  allocationFees : List AllocationFee
  federationSettlements : List FederationSettlement

def Db.init : Db := ⟨Books.empty, [], [], [], []⟩

/-- What a call reads from outside the escrow tables. -/
structure Ambient where
  frozen : Bool
  now : Nat
  disputes : List Dispute

/-! ## §2. Held: the one reading -/

/-- `SELECT … FROM relay_allocations WHERE allocation_id = ?`. -/
def Db.allocation? (db : Db) (allocationId : String) : Option Allocation :=
  db.allocations.find? fun a => a.allocationId == allocationId

def Db.relaySettlement (db : Db) (allocationId settlementId : String) : Bool :=
  db.settlements.any fun s =>
    s.settlementId == settlementId && s.allocationId == allocationId && s.isRelay

/-- A ledger row is the allocation's when stamped with it or, unstamped, by its type's own
    reference convention. -/
def Db.attributed (db : Db) (allocationId : String) (t : AccountTransaction) : Bool :=
  match t.stamp with
  | some stamp => stamp.allocationId == allocationId
  | none =>
    ((t.type == .allocationHold || t.type == .allocationRelease)
        && t.referenceId == some allocationId)
      || (t.type == .settlementCredit
        && t.referenceId.any fun ref => db.relaySettlement allocationId ref)

def Db.journaled (db : Db) (settlementId : String) : Bool :=
  db.allocationFees.any fun j => j.settlementId == settlementId

/-- A forward counts as moved while pending or delivered; it is the allocation's when
    stamped, or unstamped and a sent forward of the allocation's task. -/
def Db.forwardOf (db : Db) (allocationId : String) (f : FederationSettlement) : Bool :=
  (f.status == .pending || f.status == .delivered) &&
  match f.allocationId with
  | some a => a == allocationId
  | none => f.downstreamRelayId.isSome
      && (db.allocation? allocationId).any fun a => a.taskId == f.taskId

def Db.allocationHeldRaw (db : Db) (allocationId : String) : Int :=
  -sumWhere (db.attributed allocationId) AccountTransaction.amount db.books.transactions
  - sumWhere (fun j => j.allocationId == allocationId) AllocationFee.amount db.allocationFees
  - sumWhere (fun s => s.allocationId == allocationId && s.isRelay && !db.journaled s.settlementId)
      Settlement.platformFee db.settlements
  - sumWhere (db.forwardOf allocationId) FederationSettlement.grossAmount db.federationSettlements

/-- `allocationHeld`: the one number every payout reads. -/
def Db.allocationHeld (db : Db) (allocationId : String) : Int :=
  max 0 (db.allocationHeldRaw allocationId)

/-- `allocationHoldPayers`: who funded the escrow. -/
def Db.allocationHoldPayers (db : Db) (allocationId : String) : List String :=
  ((db.books.transactions.filter fun t =>
      t.type == .allocationHold &&
      match t.stamp with
      | some stamp => stamp.allocationId == allocationId
      | none => t.referenceId == some allocationId).map AccountTransaction.motebitId).dedup

/-- `allocationHoldPayer`: the sole hold payer, if there is exactly one. -/
def Db.allocationHoldPayer (db : Db) (allocationId : String) : Option String :=
  match db.allocationHoldPayers allocationId with
  | [payer] => some payer
  | _ => none

/-- `allocationPaid` at one account: what the allocation's own settlements paid it, net of
    claw-backs; accounts with nothing left are not listed. -/
def Db.allocationPaid (db : Db) (allocationId party : String) : Int :=
  max 0 (sumWhere (fun t => t.motebitId == party && ((t.type == .settlementCredit
        && (t.referenceId.any fun ref => db.relaySettlement allocationId ref)
        && (t.stamp.isNone || t.stamp.any fun st => st.allocationId == allocationId))
      || t.stamp.any fun st => st.allocationId == allocationId && st.kind == .disputeClawback))
    AccountTransaction.amount db.books.transactions)

/-- `allocationPaid`: the accounts with something left, with what they were paid. -/
def Db.allocationPaidAccounts (db : Db) (allocationId : String) : List (String × Int) :=
  ((db.books.transactions.map AccountTransaction.motebitId).dedup.map fun m =>
    (m, db.allocationPaid allocationId m)).filter fun p => 0 < p.2

/-- The three kinds a dispute's fund action moves. -/
def isDisputeKind : AllocationMoneyKind → Bool
  | .disputeClawback | .disputeWorker | .disputeDelegator => true
  | _ => false

def Db.allocationDisputeRows (db : Db) (allocationId : String) : List AccountTransaction :=
  db.books.transactions.filter fun t =>
    t.stamp.any fun st => st.allocationId == allocationId && isDisputeKind st.kind

def Db.allocationReviewReason (db : Db) (allocationId : String) : Option String :=
  (db.allocation? allocationId).bind (·.reviewReason)

/-! ## §3. Movements -/

/-- The settlement row a `settlement_fee` writes, as the caller built it. -/
abbrev SettlementInsert := Settlement

/-- The forward row a `federated_forward` writes; stamp and status are added by the escrow. -/
structure ForwardInsert where
  settlementId : String
  taskId : String
  upstreamRelayId : String
  downstreamRelayId : Option String
  grossAmount : Int
  deriving DecidableEq

/-- The kinds that pay the sole hold payer without a dispute. -/
inductive ReleaseKind
  | settlementRelease | retryExhaustionRefund | sweepRefund
  deriving DecidableEq

inductive AllocationMove
  | hold (allocationId : String) (amount : Int) (party description : String)
  | settlementFee (allocationId : String) (amount : Int) (settlement : SettlementInsert)
  | settlementCredit (allocationId : String) (amount : Int)
      (party settlementId description : String)
  | release (kind : ReleaseKind) (allocationId : String) (amount : Int)
      (party description : String)
  | federatedForward (allocationId : String) (amount : Int) (forward : ForwardInsert)
  | forwardReturn (allocationId : String) (amount : Int) (settlementId : String)
  | disputeClawback (allocationId : String) (amount : Int) (party disputeId description : String)
  | disputeWorker (allocationId : String) (amount : Int) (party disputeId description : String)
  | disputeDelegator (allocationId : String) (amount : Int) (party disputeId description : String)
  deriving DecidableEq

namespace AllocationMove

def allocationId : AllocationMove → String
  | .hold a .. | .settlementFee a .. | .settlementCredit a .. | .release _ a ..
  | .federatedForward a .. | .forwardReturn a .. | .disputeClawback a .. | .disputeWorker a ..
  | .disputeDelegator a .. => a

def amount : AllocationMove → Int
  | .hold _ n .. | .settlementFee _ n .. | .settlementCredit _ n .. | .release _ _ n ..
  | .federatedForward _ n .. | .forwardReturn _ n .. | .disputeClawback _ n ..
  | .disputeWorker _ n .. | .disputeDelegator _ n .. => n

def kind : AllocationMove → AllocationMoneyKind
  | .hold .. => .hold
  | .settlementFee .. => .settlementFee
  | .settlementCredit .. => .settlementCredit
  | .release .settlementRelease .. => .settlementRelease
  | .release .retryExhaustionRefund .. => .retryExhaustionRefund
  | .release .sweepRefund .. => .sweepRefund
  | .federatedForward .. => .federatedForward
  | .forwardReturn .. => .forwardReturn
  | .disputeClawback .. => .disputeClawback
  | .disputeWorker .. => .disputeWorker
  | .disputeDelegator .. => .disputeDelegator

end AllocationMove

inductive AllocationMoneyRefusal
  | noAllocation | exceedsHeld | notAParty | unroutable | insufficientBalance
  | invalidAmount | forwardNotPending | underReview
  deriving DecidableEq

/-- The reason codes as the source spells them. -/
def AllocationMoneyRefusal.text : AllocationMoneyRefusal → String
  | .noAllocation => "no_allocation"
  | .exceedsHeld => "exceeds_held"
  | .notAParty => "not_a_party"
  | .unroutable => "unroutable"
  | .insufficientBalance => "insufficient_balance"
  | .invalidAmount => "invalid_amount"
  | .forwardNotPending => "forward_not_pending"
  | .underReview => "under_review"

/-- The kinds as the source spells them. -/
def kindText : AllocationMoneyKind → String
  | .hold => "hold"
  | .settlementFee => "settlement_fee"
  | .settlementCredit => "settlement_credit"
  | .settlementRelease => "settlement_release"
  | .federatedForward => "federated_forward"
  | .forwardReturn => "forward_return"
  | .retryExhaustionRefund => "retry_exhaustion_refund"
  | .sweepRefund => "sweep_refund"
  | .disputeClawback => "dispute_clawback"
  | .disputeWorker => "dispute_worker"
  | .disputeDelegator => "dispute_delegator"

/-- Why a movement threw. -/
inductive MoveError
  | emergencyFrozen
  | refused (reason : AllocationMoneyRefusal) (kind : AllocationMoneyKind) (message : String)
  | constraintFailed (message : String)
  | escrowOverdrawn
  deriving DecidableEq

def refuse {α : Type} (move : AllocationMove) (reason : AllocationMoneyRefusal)
    (detail : String) : Except MoveError α :=
  .error (.refused reason move.kind
    ("allocation " ++ move.allocationId ++ ": " ++ kindText move.kind ++ " of "
      ++ toString move.amount ++ " refused (" ++ reason.text ++ "): " ++ detail))

/-- The escrow triggers: abort when the row just inserted leaves the allocation overdrawn. -/
def escrowGuard (db : Db) (allocationId : String) (fires : Bool) : Except MoveError Db :=
  if fires && decide (db.allocationHeldRaw allocationId < 0) then .error .escrowOverdrawn
  else .ok db

/-- A stamped credit, with the trigger on `relay_transactions`. -/
def creditStamped (db : Db) (move : AllocationMove) (party : String) (type : TransactionType)
    (reference description : String) : Except MoveError Db :=
  let books := (db.books.credit party move.amount type (some reference) (some description)
    (some ⟨move.allocationId, move.kind⟩)).2
  escrowGuard { db with books := books } move.allocationId (0 < move.amount)

/-- `insertSettlement`: a relay-custody row, its unique indexes, its trigger, and the fee
    journal when a fee was moved. -/
def insertSettlement (db : Db) (move : AllocationMove) (row : Settlement) : Except MoveError Db :=
  if row.settlementMode.getD .relay != .relay then
    refuse move .notAParty "a relay-custody settlement only"
  else if db.settlements.any fun s =>
      s.settlementId == row.settlementId || s.allocationId == row.allocationId
        || (s.taskId == row.taskId && s.motebitId == row.motebitId)
        || (s.taskId == row.taskId && s.settlementMode.isSome
          && s.settlementMode == row.settlementMode) then
    .error (.constraintFailed "UNIQUE constraint failed: relay_settlements")
  else
    let db' : Db := { db with settlements := db.settlements ++ [row] }
    match escrowGuard db' row.allocationId
        (0 < row.platformFee && (db.allocation? row.allocationId).isSome) with
    | .error e => .error e
    | .ok db' =>
      if 0 < move.amount then
        if db'.journaled row.settlementId then
          .error (.constraintFailed "UNIQUE constraint failed: relay_allocation_fees.settlement_id")
        else
          .ok { db' with allocationFees := db'.allocationFees ++
                  [⟨row.settlementId, move.allocationId, move.amount⟩] }
      else
        .ok db'

/-- `insertRow` on `relay_federation_settlements`, stamped and `pending`. -/
def insertForward (db : Db) (allocationId : String) (row : ForwardInsert) : Except MoveError Db :=
  if db.federationSettlements.any fun f =>
      f.settlementId == row.settlementId
        || (f.taskId == row.taskId && f.upstreamRelayId == row.upstreamRelayId) then
    .error (.constraintFailed "UNIQUE constraint failed: relay_federation_settlements")
  else
    let db' : Db := { db with
      federationSettlements := db.federationSettlements ++
        [⟨row.settlementId, row.taskId, row.upstreamRelayId, row.downstreamRelayId,
          row.grossAmount, some allocationId, .pending⟩] }
    escrowGuard db' allocationId true

section

variable (signedPayee : String → Option String)

/-- `settlementPayee`: the payee named in the signed body, else the row's own column. -/
def settlementPayee (db : Db) (allocationId settlementId : String) : Option String :=
  (db.settlements.find? fun s =>
      s.settlementId == settlementId && s.allocationId == allocationId && s.isRelay).map fun row =>
    match row.recordJson with
    | none => row.motebitId
    | some json => if json = "" then row.motebitId else (signedPayee json).getD row.motebitId

def forwardText : Option ForwardStatus → String
  | some .pending => "pending"
  | some .delivered => "delivered"
  | some .failed => "failed"
  | none => "absent"

/-- The movements that take money out of the escrow, once `amount ≤ held` is checked. -/
def moveOut (db : Db) (alloc : Allocation) : AllocationMove → Except MoveError Db
  | move@(.settlementFee allocationId amount settlement) =>
    if settlement.allocationId != allocationId then
      refuse move .notAParty "settlement row names another allocation"
    else if settlement.platformFee != amount then
      refuse move .invalidAmount "settlement platform_fee differs from the fee moved"
    else insertSettlement db move settlement
  | move@(.settlementCredit allocationId amount party settlementId description) =>
    if amount = 0 then .ok db
    else
      let payee := settlementPayee signedPayee db allocationId settlementId
      if payee = some party then
        creditStamped db move party .settlementCredit settlementId description
      else
        refuse move .notAParty ("settlement " ++ settlementId ++ " pays "
          ++ payee.getD "nobody" ++ " for this allocation")
  | move@(.federatedForward allocationId amount forward) =>
    if forward.grossAmount != amount then
      refuse move .invalidAmount "forward gross differs from the amount moved"
    else if forward.downstreamRelayId.isNone then
      refuse move .notAParty "a forward names the peer it pays"
    else insertForward db allocationId forward
  | move@(.disputeWorker _ amount party disputeId description) =>
    match alloc.reviewReason with
    | some why => refuse move .underReview why
    | none =>
      if amount = 0 then .ok db
      else if party = alloc.motebitId then
        creditStamped db move party .settlementCredit disputeId description
      else refuse move .notAParty (party ++ " is not this allocation's worker")
  | move@(.disputeDelegator allocationId amount party disputeId description) =>
    match alloc.reviewReason with
    | some why => refuse move .underReview why
    | none => toHoldPayer db move allocationId amount party .settlementCredit disputeId description
  | move@(.release _ allocationId amount party description) =>
    toHoldPayer db move allocationId amount party .allocationRelease allocationId description
  -- the remaining kinds returned before `held` was read
  | .hold .. | .forwardReturn .. | .disputeClawback .. => .ok db
where
  /-- The kinds of `TO_HOLD_PAYER`. -/
  toHoldPayer (db : Db) (move : AllocationMove) (allocationId : String) (amount : Int)
      (party : String) (type : TransactionType) (reference description : String) :
      Except MoveError Db :=
    if amount = 0 then .ok db
    else
      match db.allocationHoldPayer allocationId with
      | none => refuse move .unroutable "the ledger names no single hold payer"
      | some payer =>
        if party = payer then creditStamped db move party type reference description
        else refuse move .notAParty
          (party ++ " is not this allocation's hold payer (" ++ payer ++ ")")

def moveAllocated (db : Db) (amb : Ambient) (alloc : Allocation) (move : AllocationMove) :
    Except MoveError Db :=
  match move with
  | .hold allocationId amount party description =>
    if amount = 0 then .ok db
    else
      match db.books.debitSpendable
          (Books.unwithdrawableHold db.settlements amb.disputes amb.now party) party amount
          .allocationHold (some allocationId) (some description)
          (some ⟨allocationId, .hold⟩) with
      | (none, _) => refuse move .insufficientBalance (party ++ " cannot fund the hold")
      | (some _, books) => .ok { db with books := books }
  | .forwardReturn allocationId amount settlementId =>
    match db.federationSettlements.find? fun f =>
        f.settlementId == settlementId && f.allocationId == some allocationId with
    | none =>
      refuse move .forwardNotPending ("forward " ++ settlementId ++ " is " ++ forwardText none)
    | some fwd =>
      if fwd.status ≠ .pending then
        refuse move .forwardNotPending
          ("forward " ++ settlementId ++ " is " ++ forwardText (some fwd.status))
      else if fwd.grossAmount ≠ amount then
        refuse move .invalidAmount ("forward gross is " ++ toString fwd.grossAmount)
      else
        .ok { db with
          federationSettlements := updateWhere
            (fun f => f.settlementId == settlementId && f.status == .pending)
            (fun f => { f with status := .failed }) db.federationSettlements }
  | .disputeClawback allocationId amount party disputeId description =>
    match alloc.reviewReason with
    | some why => refuse move .underReview why
    | none =>
      if amount = 0 then .ok db
      else
        let paid := db.allocationPaid allocationId party
        if paid < amount then
          refuse move .notAParty
            (party ++ " was paid " ++ toString paid ++ " by this allocation's settlements")
        else
          match db.books.debit party amount .settlementDebit (some disputeId)
              (some description) (some ⟨allocationId, .disputeClawback⟩) with
          | (none, _) =>
            refuse move .insufficientBalance (party ++ " holds less than " ++ toString amount)
          | (some _, books) => .ok { db with books := books }
  | _ =>
    let held := db.allocationHeldRaw move.allocationId
    if held < move.amount then refuse move .exceedsHeld ("held " ++ toString held)
    else moveOut signedPayee db alloc move

def moveAllocationMoney (db : Db) (amb : Ambient) (move : AllocationMove) : Except MoveError Db :=
  if amb.frozen then .error .emergencyFrozen
  else if move.amount < 0 || maxSafeInteger < move.amount then
    refuse move .invalidAmount
      ("amount " ++ toString move.amount ++ " is not a non-negative integer")
  else
    match db.allocation? move.allocationId with
    | some alloc => moveAllocated signedPayee db amb alloc move
    | none =>
      match move with
      -- a settlement record that moves nothing needs no allocation
      | .settlementFee _ amount settlement =>
        if amount = 0 then insertSettlement db move settlement
        else refuse move .noAllocation "no relay_allocations row"
      | _ => refuse move .noAllocation "no relay_allocations row"

end

/-! ## §4. The other writers -/

/-- `openAllocation`: INSERT OR IGNORE under the two unique keys. -/
def openAllocation (db : Db) (allocationId taskId worker : String) (amountLocked : Int) : Db :=
  if db.allocations.any fun a => a.allocationId == allocationId || a.taskId == taskId then db
  else { db with allocations := db.allocations ++ [⟨allocationId, taskId, worker, amountLocked, none⟩] }

def markForwardDelivered (db : Db) (settlementId : String) : Db :=
  { db with
    federationSettlements := updateWhere
      (fun f => f.settlementId == settlementId && f.status == .pending)
      (fun f => { f with status := .delivered }) db.federationSettlements }

end Motebit.Escrow
