/-
  Motebit.X402.Model — SETTLING AND RECONCILING x402 PAYMENTS.

  Translated from `services/relay/src/x402-settlements.ts`, with the settling request of
  `tasks.ts` and the operator's resolve of `index.ts` around it.

  A request records its intent, asks the facilitator to settle, and fails or credits its record
  by the verdict.  A reconciliation run reads one confirmed head, selects candidates and visits
  each: it finds the bounds of the signed window by binary search, scans the window page by
  page with a cursor kept in the record, and credits, schedules or fails the record by what it
  found.  All of them may overlap, in any number of processes.

  Chain reads are awaited requests.  A request for events carries the head its reader reported,
  since a node answers only up to its own head.
-/

import Motebit.Lib.Task
import Motebit.X402.Chain
import Motebit.X402.Record

namespace Motebit.X402

open Motebit.Lib
open Motebit.Lib.Task (txn act ask catching)
open Motebit.Accounts

/-! ## §1. The facilitator's verdict -/

/-- A JSON value of unknown type; only a string is ever parsed. -/
inductive JsonValue
  | string (v : String)
  | other
  deriving DecidableEq

def decimalUint (v : String) : Bool :=
  match v.toList with
  | [] => false
  | ['0'] => true
  | c :: cs => decide ('1' ≤ c ∧ c ≤ '9') && decide (cs.length ≤ 77) && cs.all Char.isDigit

def maxSafeInteger : Nat := 9007199254740991

def parseAtomicAmount : JsonValue → Option Nat
  | .string v =>
    let n := v.toList.foldl (fun n c => 10 * n + (c.toNat - '0'.toNat)) 0
    if decimalUint v && decide (n ≤ maxSafeInteger) then some n else none
  | .other => none

/-- A `SettleResponse`. -/
structure Verdict where
  success : Bool
  transaction : Option String
  network : Option String
  amount : Option JsonValue
  errorReason : Option String
  deriving DecidableEq

inductive SettleOutcome
  | settled (txHash network : String)
  | refused (reason : String)
  | unknown (reason : String)
  deriving DecidableEq

def classifySettleVerdict (verdict : Verdict) (network : String) (amountMicro : Int) :
    SettleOutcome :=
  let tx := verdict.transaction.getD ""
  if verdict.success then
    if tx = "" then .unknown "settled_without_transaction"
    else if verdict.network ≠ some network then .unknown "settled_on_unexpected_network"
    else if verdict.amount.any (fun a => (parseAtomicAmount a).map Int.ofNat != some amountMicro) then
      .unknown "settled_amount_mismatch"
    else .settled tx network
  else
    let reason := verdict.errorReason.getD ""
    if tx = "" && definiteRefusals.contains reason then .refused reason
    else .unknown (if reason = "" then "settle_failed_without_reason" else reason)

/-- How `settlePayment` ends: a verdict, a `SettleError` that carries one, another error. -/
inductive SettleAnswer
  | verdict (v : Verdict)
  | settleError (errorReason transaction : Option String)
  | threw (reason : String)
  deriving DecidableEq

def SettleAnswer.outcome (network : String) (amountMicro : Int) : SettleAnswer → SettleOutcome
  | .verdict v => classifySettleVerdict v network amountMicro
  | .settleError errorReason transaction =>
      classifySettleVerdict ⟨false, transaction, none, none, errorReason⟩ network amountMicro
  | .threw reason => .unknown reason

/-! ## §2. Requests -/

inductive Req
  | settlePayment (i : Intent)
  | getConfirmedHead
  | getBlockTimestamp (blockNumber : Nat)
  | getAuthorizationEvents (reader : Head) (token authorizer nonce : String)
      (fromBlock toBlock : Nat)
  | getReceiptLogs (txHash : String)

/-- A chain read that throws says whether its message is a range limit's. -/
def Resp : Req → Type
  | .settlePayment _ => SettleAnswer
  | .getConfirmedHead => Except Bool Head
  | .getBlockTimestamp _ => Except Bool Nat
  | .getAuthorizationEvents .. => Except Bool (List AuthorizationEvent)
  | .getReceiptLogs _ => Except Bool (List ReceiptLog)

abbrev X402Task (α : Type) := Task Store Req Resp Fault α

/-- A read that threw throws here. -/
def orThrow {α : Type} : Except Bool α → X402Task α
  | .ok a => pure a
  | .error rangeLimit => throw (.read rangeLimit)

def getConfirmedHead : X402Task Head := do orThrow (← ask Req.getConfirmedHead)

def getBlockTimestamp (blockNumber : Nat) : X402Task Nat := do
  orThrow (← ask (Req.getBlockTimestamp blockNumber))

def getReceiptLogs (txHash : String) : X402Task (List ReceiptLog) := do
  orThrow (← ask (Req.getReceiptLogs txHash))

/-! ## §3. The settling request -/

/-- `settle` of a verified payment, and the credit after it. -/
def settle (network : String) (i : Intent) : X402Task Unit := do
  let recorded ← txn fun s => s.recordIntent i
  if recorded then
    let answer ← ask (Req.settlePayment i)
    match answer.outcome network i.amountMicro with
    | .refused reason => do
      let _ ← txn fun s => s.update i.key (.fail reason none false)
      throw (.settlementFailed reason)
    | .unknown _ => throw (.outcomeUnknown false)
    | .settled txHash _ => do
      let credited ← tryCatch
        (txn fun s => s.credit i.payer i.nonce (some txHash) none
          ("x402 payment " ++ txHash ++ " for task " ++ i.taskId) .pending)
        fun fault => throw (.outcomeUnknown (fault == .frozen))
      if credited then pure ()
      else
        let rec? ← act fun s => (s.find i.payer i.nonce, s)
        if rec?.any fun r => r.status == .credited then pure () else throw (.outcomeUnknown false)
  else throw .replayed

/-! ## §4. The window and its scan -/

/-- The binary search both bounds are found by: `lo` is at or before the target time and `hi`
    after it. -/
def bisect (targetTs lo hi : Nat) : X402Task (Nat × Nat) :=
  if lo + 1 < hi then do
    let mid := lo + (hi - lo) / 2
    let ts ← getBlockTimestamp mid
    if ts ≤ targetTs then bisect targetTs mid hi else bisect targetTs lo mid
  else pure (lo, hi)
termination_by hi - lo
decreasing_by all_goals omega

def locateScanStart (head : Head) (targetTs : Nat) : X402Task Nat :=
  if head.timestamp ≤ targetTs then pure head.number
  else do
    let first ← getBlockTimestamp 0
    if first > targetTs then pure 0
    else return (← bisect targetTs 0 head.number).1

def locateScanEnd (start : Nat) (head : Head) (targetTs : Nat) : X402Task Nat := do
  let first ← getBlockTimestamp start
  if first > targetTs then pure start
  else return (← bisect targetTs start head.number).2

inductive ScanCursor
  | scannedToBlock | passCursor
  deriving DecidableEq

def ScanCursor.advance (rec : Record) (block : Nat) (expected : Option Nat) : ScanCursor → Update
  | .scannedToBlock => .scannedTo block expected
  | .passCursor => .passCursor block rec.status rec.recheckCount expected

structure Scan where
  events : List AuthorizationEvent
  reached : Bool
  stale : Bool

/-- The loop of `scanEvents`, at `block`, after `pages` pages; no `maxPages` is Infinity. -/
def scanPages (reader : Head) (rec : Record) (cursor : Option ScanCursor) (maxPages : Option Nat)
    (toBlock block pageBlocks pages : Nat) (expected : Option Nat) (lost : Bool)
    (hpage : 0 < pageBlocks) : X402Task Scan :=
  if block ≤ toBlock ∧ (lost = true ∨ maxPages.all (pages < ·)) then do
    let last := min toBlock (block + pageBlocks - 1)
    let answer ← ask (Req.getAuthorizationEvents reader rec.intent.token rec.intent.payer
      rec.intent.nonce block last)
    match answer with
    | .error rangeLimit =>
      -- a capped provider: the page is halved, down to one block
      if 1 < pageBlocks ∧ rangeLimit = true then
        scanPages reader rec cursor maxPages toBlock block (max 1 (pageBlocks / 2)) pages expected
          lost (by omega)
      else throw (.read rangeLimit)
    | .ok [] =>
      match cursor, lost with
      | some c, false => do
        let changed ← txn fun s => s.update rec.key (c.advance rec last expected)
        scanPages reader rec cursor maxPages toBlock (last + 1) pageBlocks (pages + 1)
          (if changed then some last else expected) (!changed) hpage
      | _, _ =>
        scanPages reader rec cursor maxPages toBlock (last + 1) pageBlocks (pages + 1) expected
          lost hpage
    | .ok (e :: es) => pure ⟨e :: es, false, lost⟩
  else pure ⟨[], decide (toBlock < block), lost⟩
termination_by (toBlock + 1 - block, pageBlocks)
decreasing_by all_goals simp_wf; omega

def scanEvents (p : ScanParams) (reader : Head) (rec : Record) (fromBlock toBlock : Nat)
    (cursor : Option ScanCursor) (maxPages : Option Nat) : X402Task Scan :=
  scanPages reader rec cursor maxPages toBlock fromBlock p.pageBlocks 0
    (match cursor with
      | some .passCursor => rec.passCursor
      | _ => rec.scannedToBlock)
    false p.pageBlocks_pos

/-! ## §5. One visit -/

inductive ReconcileDecision
  | credited | cancelled | expired | expiryObserved | authorizationStillValid
  | executionMismatch | stillPending | usedUnpaired | usedNotVisible | scanIncomplete
  | noExecutionFound | unchanged | readError
  deriving DecidableEq

/-- The variables of a visit its `catch` reads. -/
structure Locals where
  chainNow : Option Nat
  visitBackoffs : Nat
  observeOnly : Bool

/-- An exception, with the variables as they were. -/
structure Thrown where
  fault : Fault
  locals : Locals

/-- What runs under the `try` of a visit. -/
abbrev Body (α : Type) := Task Store Req Resp Thrown α

def labelled {α : Type} (l : Locals) (x : X402Task α) : Body α :=
  catching x fun fault => throw ⟨fault, l⟩

/-- What is fixed for a visit: the parameters, the record as it was selected, the door. -/
structure Visit where
  p : ScanParams
  record : Record
  operator : Bool

namespace Visit

def recheck (v : Visit) : Bool := v.record.status == .failed

def usedSeen (v : Visit) : Bool := v.record.usedState.isSome

def wholeWindow (v : Visit) : Bool := v.operator || v.usedSeen

def confirming (v : Visit) : Bool :=
  !v.wholeWindow && !v.recheck && v.record.expiryObservedHeadTs.isSome

def expiryTs (v : Visit) : Nat := v.record.intent.validBefore + v.p.expiryMarginSeconds

def write (v : Visit) (l : Locals) (u : Update) : Body Bool :=
  labelled l (txn fun s => s.update v.record.key u)

/-- The wait after so many visits on the cadence. -/
def cadence (v : Visit) (backoffs : Nat) : Nat :=
  chainSeconds (v.p.recheckBackoffMs[min backoffs (v.p.recheckBackoffMs.length - 1)]?.getD 0)

/-- `scheduleNextVisit`; the counter moves before the write. -/
def scheduleNextVisit (v : Visit) (l : Locals) (headTs : Nat) : Body Unit := do
  let backoffs := l.visitBackoffs + 1
  let _ ← v.write { l with visitBackoffs := backoffs }
    (.nextVisit backoffs (headTs + v.cadence l.visitBackoffs))

def spendExpiryRecheck (v : Visit) (l : Locals) (headTs : Nat) : Body Unit :=
  if !v.recheck || v.operator then pure ()
  else do
    let backoff := v.p.recheckBackoffMs
    let wait := (backoff[v.record.recheckCount + 1]? <|> backoff[backoff.length - 1]?).getD 0
    let _ ← v.write l (.spendExpiry v.record.recheckCount (headTs + chainSeconds wait))

/-- The chain time `markUsedSeen` sets the next visit to. -/
def firstVisitTs (v : Visit) (headTs : Nat) : Nat :=
  headTs + chainSeconds (v.p.recheckBackoffMs[0]?.getD 0)

/-- `spendMismatchObservation`: the mismatch budget first, then the expiry re-checks. -/
def spendMismatchObservation (v : Visit) (l : Locals) (headTs : Nat) : Body Unit := do
  let left := v.record.mismatchRechecks < mismatchRecheckBudget
  let mr := if left then v.record.mismatchRechecks + 1 else v.record.mismatchRechecks
  let rc := if left then v.record.recheckCount else v.record.recheckCount + 1
  let backoffs := l.visitBackoffs + 1
  let _ ← v.write { l with visitBackoffs := backoffs }
    (.spendMismatch mr rc backoffs (headTs + v.cadence l.visitBackoffs) v.record.mismatchRechecks
      v.record.recheckCount)

/-- The closure `mismatch` of `judgeUsed`. -/
def mismatch (v : Visit) (l : Locals) (headTs : Nat) : Body ReconcileDecision :=
  if v.operator || l.observeOnly then pure .executionMismatch
  else if v.record.usedState = some .mismatched then do
    v.spendMismatchObservation l headTs
    pure .executionMismatch
  else do
    let _ ← labelled l (txn fun s =>
      s.failMismatched v.record.key (!v.recheck) headTs (v.firstVisitTs headTs))
    pure .executionMismatch

def expects (v : Visit) (paired : PairedTransfer) : Bool :=
  paired.sender == v.record.intent.payer && paired.recipient == toLowerCase v.record.intent.payTo &&
    (paired.value : Int) == v.record.intent.amountMicro

/-- `creditX402Settlement` as a visit calls it; `none` is a Transfer log consumed already. -/
def tryCredit (v : Visit) (l : Locals) (txHash : String) (position : Nat) : Body (Option Bool) :=
  tryCatch
    (do
      let credited ← labelled l (txn fun s => s.credit v.record.intent.payer v.record.intent.nonce
        (some txHash) (some position)
        ("x402 payment " ++ txHash ++ "#" ++ toString position ++ " (authorization " ++
          v.record.intent.nonce ++ ") reconciled from chain for task " ++ v.record.intent.taskId)
        .pendingOrFailed)
      pure (some credited))
    fun e => if e.fault = .unique then pure none else throw e

def judgeUsed (v : Visit) (l : Locals) (txHash : String) (headTs : Nat) :
    Body ReconcileDecision := do
  let logs ← labelled l (getReceiptLogs txHash)
  match pairedTransfer logs v.record.intent.token v.record.intent.payer v.record.intent.nonce with
  | none =>
    if v.operator || l.observeOnly then pure .usedUnpaired
    else if v.record.usedState = none then do
      let _ ← v.write l (.usedSeen .unpaired (v.firstVisitTs headTs))
      pure .usedUnpaired
    else do
      v.scheduleNextVisit l headTs
      pure .usedUnpaired
  | some paired =>
    if v.expects paired then do
      let credited ← v.tryCredit l txHash paired.position
      match credited with
      | none => v.mismatch l headTs
      | some true => pure .credited
      | some false => pure .unchanged
    else v.mismatch l headTs

/-- The first block of the window, located once and stored. -/
def scanStart (v : Visit) (l : Locals) (head : Head) : Body Nat :=
  match v.record.scanFromBlock with
  | some start => pure start
  | none => do
    let start ← labelled l (locateScanStart head v.record.intent.validAfter)
    if v.operator then pure start
    else do
      let _ ← v.write l (.scanFrom start)
      pure start

/-- The fixed end of the window, once the head is past it. -/
def scanEnd (v : Visit) (l : Locals) (head : Head) (start : Nat) : Body (Option Nat) :=
  match v.record.scanEndBlock with
  | some last => pure (some last)
  | none =>
    if head.timestamp ≤ v.expiryTs then pure none
    else do
      let last ← labelled l (locateScanEnd start head v.expiryTs)
      if v.operator then pure (some last)
      else do
        let _ ← v.write l (.scanEnd last)
        pure (some last)

def firstBlock (v : Visit) (start : Nat) : Nat :=
  if v.wholeWindow then start
  else if v.recheck || v.confirming then v.record.passCursor.elim start (· + 1)
  else v.record.scannedToBlock.elim start (· + 1)

def cursor (v : Visit) : Option ScanCursor :=
  if v.wholeWindow then none
  else if v.recheck || v.confirming then some .passCursor
  else some .scannedToBlock

def maxPages (v : Visit) : Option Nat := if v.wholeWindow then none else some v.p.maxPagesPerRun

/-- `markX402Failed` with `requireNoEvidence`. -/
def failWithoutEvidence (v : Visit) (l : Locals) (reason : String) (headTs : Nat)
    (decision : ReconcileDecision) : Body ReconcileDecision := do
  let failed ← v.write l (.fail reason (some headTs) true)
  if failed then pure decision else pure .unchanged

/-- What a visit decides when its scan shows no execution. -/
def judgeAbsence (v : Visit) (l : Locals) (head : Head) (canceled concluded : Bool) :
    Body ReconcileDecision :=
  let stillValid := decide (head.timestamp ≤ v.expiryTs)
  let observed : ReconcileDecision :=
    if stillValid then .authorizationStillValid
    else if concluded then .noExecutionFound else .scanIncomplete
  if v.usedSeen then
    if v.operator then pure observed
    else do
      v.scheduleNextVisit l head.timestamp
      pure .usedNotVisible
  else if canceled then
    if v.operator then pure .cancelled
    else if v.recheck then do
      v.spendExpiryRecheck l head.timestamp
      pure .unchanged
    else v.failWithoutEvidence l "authorization_cancelled" head.timestamp .cancelled
  else if v.operator then pure observed
  else if v.recheck then
    if stillValid then pure .authorizationStillValid
    else if concluded then do
      v.spendExpiryRecheck l head.timestamp
      pure .unchanged
    else pure .unchanged
  else if !concluded then pure (if stillValid then .authorizationStillValid else .stillPending)
  else if !v.confirming then do
    let _ ← v.write l (.expiryObserved head.timestamp)
    pure .expiryObserved
  else v.failWithoutEvidence l "authorization_expired_unused" head.timestamp .expired

/-- Good reads leave a read-error cadence behind. -/
def leaveCadence (v : Visit) (l : Locals) : Body Locals :=
  if !v.operator && !v.usedSeen && decide (0 < l.visitBackoffs) then do
    let _ ← v.write l .resetCadence
    pure { l with visitBackoffs := 0 }
  else pure l

/-- What a visit makes of its scan, which ran to `ceiling`. -/
def conclude (v : Visit) (l : Locals) (head : Head) (last : Option Nat) (ceiling : Nat)
    (scan : Scan) : Body ReconcileDecision := do
  let used := scan.events.find? fun e => e.kind == .used
  if scan.stale then
    -- another run moved the record on: this one may credit, and writes nothing else
    match used with
    | none => pure .unchanged
    | some e => v.judgeUsed { l with observeOnly := true } e.txHash head.timestamp
  else
    let l ← v.leaveCadence l
    match used with
    | some e => v.judgeUsed l e.txHash head.timestamp
    | none =>
      v.judgeAbsence l head (scan.events.any fun e => e.kind == .canceled)
        (scan.reached && decide (last = some ceiling))

/-- The second expiry observation waits out the gap. -/
def waits (v : Visit) (head : Head) : Bool :=
  v.confirming && v.record.expiryObservedHeadTs.any fun observed =>
    decide (head.timestamp < observed + chainSeconds v.p.expiryConfirmGapMs)

def reconcileAt (v : Visit) (head : Head) : Body ReconcileDecision := do
  let l : Locals := ⟨some head.timestamp, v.record.visitBackoffs, false⟩
  let start ← v.scanStart l head
  let last ← v.scanEnd l head start
  -- every read stops at this reader's head
  let ceiling := last.elim head.number (min · head.number)
  if v.waits head then pure .stillPending
  else do
    let scan ← labelled l
      (scanEvents v.p head v.record (v.firstBlock start) ceiling v.cursor v.maxPages)
    v.conclude l head last ceiling scan

/-- What runs under the `try`. -/
def body (v : Visit) (head : Option Head) : Body ReconcileDecision :=
  match head with
  | some head => v.reconcileAt head
  | none => do
    let head ← labelled ⟨none, v.record.visitBackoffs, false⟩ getConfirmedHead
    v.reconcileAt head

/-- The `catch`: a read error sets the next visit, when there is a chain time. -/
def onError (v : Visit) (e : Thrown) : X402Task ReconcileDecision :=
  if v.operator && e.fault == .frozen then throw e.fault
  else if v.operator || e.locals.observeOnly then pure .readError
  else match e.locals.chainNow with
    | none => pure .readError
    | some now => do
      catching (v.scheduleNextVisit e.locals now) fun e => throw e.fault
      pure .readError

end Visit

def reconcileX402Settlement (p : ScanParams) (rec : Record) (operator : Bool)
    (head : Option Head) : X402Task ReconcileDecision := do
  let v : Visit := ⟨p, rec, operator⟩
  if operator then pure ()
  else
    let _ ← txn fun s => s.visit rec.key
    pure ()
  catching (v.body head) v.onError

/-! ## §6. Runs and doors -/

structure ReconcileResult where
  credited : Nat
  failed : Nat
  stillPending : Nat
  errors : Nat
  deriving DecidableEq

def ReconcileResult.count (r : ReconcileResult) : ReconcileDecision → ReconcileResult
  | .credited => { r with credited := r.credited + 1 }
  | .cancelled | .expired | .executionMismatch => { r with failed := r.failed + 1 }
  | .stillPending | .expiryObserved | .authorizationStillValid | .usedUnpaired
  | .usedNotVisible => { r with stillPending := r.stillPending + 1 }
  | .readError => { r with errors := r.errors + 1 }
  | .scanIncomplete | .noExecutionFound | .unchanged => r

/-- The loop of a run over its candidates. -/
def visitAll (p : ScanParams) (head : Head) :
    List Record → ReconcileResult → X402Task ReconcileResult
  | [], result => pure result
  | rec :: recs, result => do
    let decision ← reconcileX402Settlement p rec false (some head)
    visitAll p head recs (result.count decision)

def reconcileUnder (p : ScanParams) (limit : Nat) (head : Head) : X402Task ReconcileResult := do
  let _ ← txn fun s => s.stampUnobservedFailures head.timestamp
  let candidates ← act fun s => (s.selectCandidates p head.timestamp limit, s)
  visitAll p head (candidates.1 ++ candidates.2) ⟨0, 0, 0, 0⟩

def reconcilePendingX402Settlements (p : ScanParams) (limit : Nat) :
    X402Task ReconcileResult := do
  let head ← ask Req.getConfirmedHead
  match head with
  | .error _ => pure ⟨0, 0, 0, 1⟩
  | .ok head => reconcileUnder p limit head

def resolve (payer nonce : String) : X402Task Unit := do
  let rec? ← act fun s => (s.find payer nonce, s)
  match rec? with
  | none => pure ()
  | some rec =>
    if rec.status = .credited then pure ()
    else do
      let _ ← reconcileX402Settlement x402Scan rec true none
      pure ()

/-! ## §7. The world -/

/-- The ledger row of an x402 credit: a deposit under an `x402-` reference.  The hold and the
    settlement of the task use the same reference with other types. -/
def isX402Credit (row : AccountTransaction) : Bool :=
  row.type == .deposit && row.referenceId.any fun ref => "x402-".toList.isPrefixOf ref.toList

/-- What happens outside the settlement code. -/
inductive Env (s : Store) : Store → Prop
  /-- The wall clock, backwards too. -/
  | clock (now : Nat) : Env s { s with clock := now }
  | freeze (frozen : Bool) : Env s { s with frozen := frozen }
  | lock (locked : Bool) : Env s { s with locked := locked }
  /-- Other money moves. -/
  | post (books : Books) (rows : List AccountTransaction)
      (hrows : books.transactions = s.books.transactions ++ rows)
      (hother : ∀ row ∈ rows, isX402Credit row = false) (hagrees : books.Agrees) :
      Env s { s with books := books }

/-- How requests are answered.  The facilitator may say anything.  A chain read throws or is
    true: timestamps and heads are the chain's, events are the authorization's up to the
    reader's head (all of them if `complete`), and a receipt is the transaction's or, from a
    view of it that proves nothing, empty. -/
def Answer (chain : Chain) (complete : Prop) (s : Store) : (r : Req) → Resp r → Store → Prop
  | .settlePayment _, _, s' => s' = s
  | .getConfirmedHead, answer, s' =>
      s' = s ∧ ∀ head : Head, answer = .ok head → head.timestamp = chain.timestamp head.number
  | .getBlockTimestamp n, answer, s' => s' = s ∧ ∀ ts : Nat, answer = .ok ts → ts = chain.timestamp n
  | .getAuthorizationEvents reader token authorizer nonce fromBlock toBlock, answer, s' =>
      s' = s ∧ ∀ events : List AuthorizationEvent, answer = .ok events →
        (∀ e ∈ events,
          chain.HasEvent token authorizer nonce fromBlock (min toBlock reader.number) e) ∧
        (complete → ∀ e,
          chain.HasEvent token authorizer nonce fromBlock (min toBlock reader.number) e → e ∈ events)
  | .getReceiptLogs txHash, answer, s' =>
      s' = s ∧ ∀ logs : List ReceiptLog, answer = .ok logs → logs = chain.receipt txHash ∨ logs = []

/-- Any number of settling requests, reconciliation runs and operator resolves over one
    database. -/
def world (chain : Chain) (complete : Prop) : World Store Req Resp where
  init s := s.records = [] ∧ s.books.Agrees ∧ ∀ row ∈ s.books.transactions, isX402Credit row = false
  entry _ p := (∃ network i, p = (settle network i).detach) ∨
    (∃ params limit, p = (reconcilePendingX402Settlements params limit).detach) ∨
    ∃ payer nonce, p = (resolve payer nonce).detach
  answer := Answer chain complete
  env := Env
  crash s s' := s' = s

end Motebit.X402
