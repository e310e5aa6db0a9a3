/-
  Motebit.X402.Record — THE TABLE OF x402 SETTLEMENT RECORDS.

  `relay_x402_settlements`, keyed by the EIP-3009 authorization (payer, nonce), and every
  statement `services/relay/src/x402-settlements.ts` writes it with: the intent, the guarded
  UPDATEs of the reconciler, the queue stamp, the selection of a run, and the credit, which
  flips the status and posts the ledger row in one transaction.

  An UPDATE of one record is a value of `Update`: `guard` is its WHERE clause beside the key,
  `set` its SET clause.  The columns only an operator reads (wall-clock times, the latest
  observation and its transaction) are left out.
-/

import Motebit.Lib.Hex
import Motebit.Accounts.Books

namespace Motebit.X402

open Motebit.Lib
open Motebit.Accounts

/-! ## §1. Records -/

/-- `X402SettlementStatus`. -/
inductive Status
  | pending | credited | failed
  deriving DecidableEq

inductive UsedState
  | unpaired | mismatched
  deriving DecidableEq

/-- What a request writes before it settles; the payer and the nonce have the shape
    `readEip3009Authorization` admits, in lower case. -/
structure Intent where
  payer : String
  nonce : String
  token : String
  payTo : String
  amountMicro : Int
  validAfter : Nat
  validBefore : Nat
  delegatorId : String
  taskId : String
  payer_word : isHexWord 40 payer = true
  nonce_word : isHexWord 64 nonce = true
  deriving DecidableEq

/-- `X402SettlementRecord`. -/
structure Record where
  intent : Intent
  status : Status
  txHash : Option String
  failureReason : Option String
  createdAt : Nat
  scanFromBlock : Option Nat
  scannedToBlock : Option Nat
  expiryObservedHeadTs : Option Nat
  resolvedHeadTs : Option Nat
  nextRecheckHeadTs : Option Nat
  recheckCount : Nat
  creditLogIndex : Option Nat
  scanEndBlock : Option Nat
  passCursor : Option Nat
  lastCheckedAt : Option Nat
  mismatchRechecks : Nat
  usedState : Option UsedState
  visitBackoffs : Nat
  nextVisitHeadTs : Option Nat
  deriving DecidableEq

def Intent.key (i : Intent) : String × String := (i.payer, i.nonce)

def Record.key (r : Record) : String × String := r.intent.key

def Record.queueKey (r : Record) : Nat := r.lastCheckedAt.getD r.createdAt

/-- The row an intent inserts. -/
def Intent.record (i : Intent) (stamp : Nat) : Record where
  intent := i
  status := .pending
  txHash := none
  failureReason := none
  createdAt := stamp
  scanFromBlock := none
  scannedToBlock := none
  expiryObservedHeadTs := none
  resolvedHeadTs := none
  nextRecheckHeadTs := none
  recheckCount := 0
  creditLogIndex := none
  scanEndBlock := none
  passCursor := none
  lastCheckedAt := none
  mismatchRechecks := 0
  usedState := none
  visitBackoffs := 0
  nextVisitHeadTs := none

/-! ## §2. Updates of one record -/

/-- Every UPDATE of one record, with what it binds. -/
inductive Update
  | scanFrom (block : Nat)
  | scanEnd (block : Nat)
  | passCursor (block : Nat) (status : Status) (recheckCount : Nat) (expected : Option Nat)
  | scannedTo (block : Nat) (expected : Option Nat)
  /-- `scheduleNextVisit`. -/
  | nextVisit (backoffs : Nat) (headTs : Nat)
  /-- After good reads. -/
  | resetCadence
  /-- `spendExpiryRecheck`. -/
  | spendExpiry (observed : Nat) (nextHeadTs : Nat)
  /-- `markUsedSeen`. -/
  | usedSeen (state : UsedState) (nextHeadTs : Nat)
  /-- `spendMismatchObservation`. -/
  | spendMismatch (mismatchRechecks recheckCount backoffs nextHeadTs : Nat)
      (observedMismatch observedRecheck : Nat)
  | expiryObserved (headTs : Nat)
  /-- `markX402Failed`. -/
  | fail (reason : String) (headTs : Option Nat) (requireNoEvidence : Bool)
  deriving DecidableEq

/-- The WHERE clause beside the key. -/
def Update.guard : Update → Record → Bool
  | .scanFrom _, r => r.scanFromBlock.isNone
  | .scanEnd _, r => r.scanEndBlock.isNone
  | .passCursor _ status recheckCount expected, r =>
      r.status == status && r.recheckCount == recheckCount && r.passCursor == expected
  | .scannedTo _ expected, r => r.status == .pending && r.scannedToBlock == expected
  | .nextVisit .., _ => true
  | .resetCadence, _ => true
  | .spendExpiry observed _, r =>
      r.status == .failed && r.recheckCount == observed && r.usedState.isNone
  | .usedSeen state _, r =>
      (r.status == .failed || (r.status == .pending && state == .unpaired)) &&
      (r.usedState.isNone || (r.usedState == some .unpaired && state == .mismatched))
  | .spendMismatch _ _ _ _ observedMismatch observedRecheck, r =>
      r.status == .failed && r.recheckCount == observedRecheck &&
        r.mismatchRechecks == observedMismatch
  | .expiryObserved _, r => r.status == .pending && r.expiryObservedHeadTs.isNone
  | .fail _ _ requireNoEvidence, r =>
      r.status == .pending && (!requireNoEvidence || r.usedState.isNone)

def Update.set : Update → Record → Record
  | .scanFrom block, r => { r with scanFromBlock := some block }
  | .scanEnd block, r => { r with scanEndBlock := some block }
  | .passCursor block .., r => { r with passCursor := some block }
  | .scannedTo block _, r => { r with scannedToBlock := some block }
  | .nextVisit backoffs headTs, r =>
      { r with visitBackoffs := backoffs, nextVisitHeadTs := some headTs }
  | .resetCadence, r => { r with visitBackoffs := 0, nextVisitHeadTs := none }
  | .spendExpiry observed nextHeadTs, r =>
      { r with recheckCount := observed + 1, nextRecheckHeadTs := some nextHeadTs
               passCursor := none }
  | .usedSeen state nextHeadTs, r =>
      { r with usedState := some state, visitBackoffs := 1, nextVisitHeadTs := some nextHeadTs
               passCursor := none }
  | .spendMismatch mismatchRechecks recheckCount backoffs nextHeadTs _ _, r =>
      { r with mismatchRechecks := mismatchRechecks, recheckCount := recheckCount
               visitBackoffs := backoffs, nextVisitHeadTs := some nextHeadTs }
  | .expiryObserved headTs, r => { r with expiryObservedHeadTs := some headTs }
  | .fail reason headTs _, r =>
      { r with status := .failed, failureReason := some reason, resolvedHeadTs := headTs
               passCursor := none }

/-! ## §3. The store -/

/-- What the code throws. -/
inductive Fault
  /-- A chain read; `rangeLimit` says that `RANGE_LIMIT_ERROR` matches its message. -/
  | read (rangeLimit : Bool)
  /-- `SQLITE_BUSY: database is locked`. -/
  | locked
  /-- `EMERGENCY_FROZEN`, from the guard trigger. -/
  | frozen
  /-- `UNIQUE constraint failed`, from the index on consumed Transfer logs. -/
  | unique
  /-- `refusing a non-positive amount`. -/
  | nonPositive (amount : Int)
  /-- `X402PaymentReplayedError`. -/
  | replayed
  /-- `TASK_X402_SETTLEMENT_FAILED`. -/
  | settlementFailed (reason : String)
  /-- `X402OutcomeUnknownError`. -/
  | outcomeUnknown (frozen : Bool)
  deriving DecidableEq

/-- The tables the settlement code writes, the freeze, another writer's lock, the clock. -/
structure Store where
  records : List Record
  books : Books
  frozen : Bool
  locked : Bool
  clock : Nat

/-- A write needs the database's lock, and the guard trigger aborts one that reaches a row
    while frozen. -/
def Store.refusal (s : Store) (touched : Bool) : Option Fault :=
  if s.locked then some .locked
  else if s.frozen && touched then some .frozen
  else none

/-- Replace the rows a statement selects, and answer whether there was one. -/
def Store.updateRecords (s : Store) (selects : Record → Bool) (set : Record → Record) :
    Except Fault (Bool × Store) :=
  let touched := s.records.any selects
  match s.refusal touched with
  | some fault => .error fault
  | none => .ok (touched, { s with records := updateWhere selects set s.records })

/-- `findX402Settlement`. -/
def Store.find (s : Store) (payer nonce : String) : Option Record :=
  s.records.find? fun r => r.key == (toLowerCase payer, toLowerCase nonce)

/-- Run an update on the record with a key; the answer is `changes === 1`. -/
def Store.update (s : Store) (key : String × String) (u : Update) : Except Fault (Bool × Store) :=
  s.updateRecords (fun r => r.key == key && u.guard r) u.set

def Store.keysOf (s : Store) (status : Status) : List Nat :=
  (s.records.filter fun r => r.status == status).map Record.queueKey

/-- `NEXT_QUEUE_STAMP_SQL`: past the clock and past every queued key. -/
def Store.nextStamp (s : Store) : Nat :=
  max s.clock (max ((s.keysOf .pending).foldl max 0 + 1) ((s.keysOf .failed).foldl max 0 + 1))

def Store.visit (s : Store) (key : String × String) : Except Fault (Bool × Store) :=
  s.updateRecords (fun r => r.key == key) fun r => { r with lastCheckedAt := some s.nextStamp }

/-- `recordX402Intent`; an authorization that has a record keeps it. -/
def Store.recordIntent (s : Store) (i : Intent) : Except Fault (Bool × Store) :=
  if i.amountMicro ≤ 0 then .error (.nonPositive i.amountMicro)
  else match s.refusal true with
    | some fault => .error fault
    | none =>
      if s.records.any fun r => r.key == i.key then .ok (false, s)
      else .ok (true, { s with records := s.records ++ [i.record s.nextStamp] })

def Store.stampUnobservedFailures (s : Store) (headTs : Nat) : Except Fault (Bool × Store) :=
  s.updateRecords (fun r => r.status == .failed && r.resolvedHeadTs.isNone)
    fun r => { r with resolvedHeadTs := some headTs }

/-- `markX402Failed` and `markUsedSeen` in one transaction, as a first mismatch of a pending
    record writes them. -/
def Store.failMismatched (s : Store) (key : String × String) (pending : Bool)
    (headTs nextHeadTs : Nat) : Except Fault (Bool × Store) :=
  if pending then
    match s.update key (.fail "execution_mismatch" (some headTs) false) with
    | .error fault => .error fault
    | .ok (_, s') => s'.update key (.usedSeen .mismatched nextHeadTs)
  else s.update key (.usedSeen .mismatched nextHeadTs)

/-- The statuses a credit may leave. -/
inductive CreditFrom
  | pending | pendingOrFailed
  deriving DecidableEq

def CreditFrom.admits : CreditFrom → Status → Bool
  | .pending, status => status == .pending
  | .pendingOrFailed, status => status == .pending || status == .failed

/-- The SET clause of a credit. -/
def Record.credit (r : Record) (txHash : Option String) (logIndex : Option Nat) : Record :=
  { r with status := .credited, txHash := txHash <|> r.txHash, creditLogIndex := logIndex
           failureReason := none }

/-- The ledger reference of a record. -/
def Intent.reference (i : Intent) : String := "x402-" ++ i.taskId

/-- `creditX402Settlement`: the flip and the ledger credit in one transaction.  The unique
    index on (tx_hash, credit_log_index) refuses a Transfer log that is consumed already. -/
def Store.credit (s : Store) (payer nonce : String) (txHash : Option String)
    (logIndex : Option Nat) (description : String) (source : CreditFrom) :
    Except Fault (Bool × Store) :=
  match s.find payer nonce with
  | none => .ok (false, s)
  | some rec =>
    if rec.intent.amountMicro ≤ 0 then .error (.nonPositive rec.intent.amountMicro)
    else match s.refusal (source.admits rec.status) with
      | some fault => .error fault
      | none =>
        if source.admits rec.status then
          let credited := rec.credit txHash logIndex
          if logIndex.isSome && s.records.any (fun r => r.key != rec.key &&
              r.txHash == credited.txHash && r.creditLogIndex == logIndex) then
            .error .unique
          else .ok (true, { s with
            records := updateWhere (fun r => r.key == rec.key) (fun _ => credited) s.records
            books := (s.books.credit rec.intent.delegatorId rec.intent.amountMicro .deposit
              (some rec.intent.reference) (some description) none).2 })
        else .ok (false, s)

/-! ## §4. Selection -/

/-- `X402ScanParams`: pages have blocks, and a failed record is checked again at least once. -/
structure ScanParams where
  pageBlocks : Nat
  maxPagesPerRun : Nat
  expiryMarginSeconds : Nat
  expiryConfirmGapMs : Nat
  recheckBackoffMs : List Nat
  pageBlocks_pos : 0 < pageBlocks
  recheckBackoffMs_ne : recheckBackoffMs ≠ []

def x402Scan : ScanParams where
  pageBlocks := 2000
  maxPagesPerRun := 25
  expiryMarginSeconds := 120
  expiryConfirmGapMs := 5 * 60000
  recheckBackoffMs := [10 * 60000, 60 * 60000, 6 * 60 * 60000]
  pageBlocks_pos := by decide
  recheckBackoffMs_ne := by decide

/-- `chainSeconds`: milliseconds as seconds, rounded up. -/
def chainSeconds (ms : Nat) : Nat := (ms + 999) / 1000

def definiteRefusals : List String :=
  ["insufficient_funds", "invalid_exact_evm_insufficient_balance", "invalid_exact_evm_signature",
   "invalid_exact_evm_payload_authorization_valid_before",
   "invalid_exact_evm_payload_authorization_valid_after",
   "invalid_exact_evm_payload_authorization_value_mismatch",
   "invalid_exact_evm_authorization_value",
   "invalid_exact_evm_recipient_mismatch",
   "invalid_exact_evm_network_mismatch",
   "invalid_exact_evm_scheme",
   "invalid_exact_evm_missing_eip712_domain",
   "invalid_exact_evm_token_name_mismatch",
   "invalid_exact_evm_token_version_mismatch",
   "invalid_exact_evm_eip3009_not_supported",
   "invalid_exact_evm_transaction_simulation_failed",
   "invalid_scheme",
   "invalid_network",
   "invalid_payload",
   "invalid_payment_requirements",
   "invalid_x402_version",
   "unsupported_scheme"]

def recheckableFailures : List String := definiteRefusals ++ ["authorization_expired_unused"]

def mismatchRecheckBudget : Nat := 1

/-- The visit cadence, which every record honours. -/
def Record.visitable (r : Record) (headTs : Nat) : Bool :=
  r.nextVisitHeadTs.all fun next => next ≤ headTs

/-- The WHERE clause of the pending selection. -/
def Record.pendingEligible (r : Record) (headTs : Nat) : Bool :=
  r.status == .pending && r.visitable headTs

/-- The WHERE clause of the re-check selection.  A NULL on either side of a comparison makes it
    not true. -/
def Record.failedEligible (p : ScanParams) (r : Record) (headTs : Nat) : Bool :=
  r.status == .failed && r.visitable headTs &&
  (r.usedState == some .unpaired || (r.usedState == some .mismatched &&
      (r.recheckCount < p.recheckBackoffMs.length || r.mismatchRechecks < mismatchRecheckBudget)) ||
    (r.usedState.isNone &&
      r.failureReason.any (fun reason => recheckableFailures.contains reason) &&
      r.recheckCount < p.recheckBackoffMs.length &&
      (r.nextRecheckHeadTs <|> r.resolvedHeadTs.map
        (· + chainSeconds ((p.recheckBackoffMs[0]?).getD 0))).any (· ≤ headTs) &&
      r.intent.validBefore + p.expiryMarginSeconds < headTs))

/-- `SELECTION_ORDER`. -/
def Record.before (r r' : Record) : Bool :=
  r.queueKey < r'.queueKey || (r.queueKey == r'.queueKey && r.createdAt ≤ r'.createdAt)

def selectFirst (eligible : Record → Bool) (limit : Nat) (records : List Record) : List Record :=
  ((records.filter eligible).mergeSort Record.before).take limit

/-- `selectX402Candidates` under a known head: the pending records, then the failed ones. -/
def Store.selectCandidates (s : Store) (p : ScanParams) (headTs limit : Nat) :
    List Record × List Record :=
  (selectFirst (fun r => r.pendingEligible headTs) limit s.records,
    selectFirst (fun r => r.failedEligible p headTs) limit s.records)

end Motebit.X402
