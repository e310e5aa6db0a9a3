/-
  Motebit.Batch.Model — AGGREGATED WITHDRAWALS: the queue, the rails and the fire loop.

  Translated from `services/relay/src/batch-withdrawals.ts` and `refundPendingWithdrawal` of
  `account-store-sqlite.ts`.  Every SQL statement or transaction, and every touch of the
  in-process set `firingHere`, is one atomic step of an asynchronous program; every rail call
  is an awaited request.  `Date.now()` reads the store's clock, which the environment moves at
  will, and the n-th `crypto.randomUUID()` of a run returns `uuid n`.

  The ghost fields of the store say what happened outside it: which thread claimed a row, what
  was handed to a rail, what may still leave it, what left and what landed.
-/

import Motebit.Lib.Task
import Motebit.Accounts.Ledger

namespace Motebit.Batch

open Motebit.Lib
open Motebit.Lib.Task (txn act ask andFinally forEach)
open Motebit.Accounts

/-! ## §1. Rails and rows -/

/-- A guest rail, as the loop sees it; `manual` is `payoutMode === "manual"`. -/
structure Rail where
  name : String
  withdrawable : Bool
  batchable : Bool
  manual : Bool
  payoutValidityMs : Option Nat
  deriving DecidableEq

/-- `SettlementRailRegistry`: rails in a map keyed by name. -/
structure Registry where
  rails : List Rail
  names : (rails.map Rail.name).Nodup

inductive QueueStatus
  | pending | firing | fired | unknown | refundOwed | refunded
  deriving DecidableEq

/-- One row of `relay_pending_withdrawals`. -/
structure QueueRow where
  pendingId : String
  motebitId : String
  amountMicro : Int
  destination : String
  rail : String
  source : String
  enqueuedAt : Nat
  status : QueueStatus
  lastAttemptAt : Option Nat
  lastError : Option String
  withdrawalId : Option String
  idempotencyKey : Option String
  deriving DecidableEq

structure BatchPolicy where
  feeJustificationMultiplier : Int
  maxAgeMs : Int
  minAggregateMicro : Int
  deriving DecidableEq

/-- `BatchWithdrawalConfig`, resolved per rail name (`resolvePolicy`, `resolveFeeEstimate`). -/
structure Config where
  policy : String → BatchPolicy
  feeEstimate : String → Int

def staleFiringMs : Nat := 2 * 60 * 1000

def undeclaredPayoutHorizonMs : Nat := 24 * 60 * 60 * 1000

/-! ## §2. The store -/

/-- The database, the process's memory, and the ghosts. -/
structure Store where
  queue : List QueueRow
  ledger : Ledger
  frozen : Bool
  drawn : Nat
  firingHere : List String
  clock : Nat
  processStartedAt : Nat
  owner : String → Option Nat
  handed : List (String × Rail)
  atRail : List (String × Rail)
  left : List String
  landed : List String

/-- Empty tables, nothing running. -/
def Store.init (now : Nat) : Store where
  queue := []
  ledger := Ledger.empty
  frozen := false
  drawn := 0
  firingHere := []
  clock := now
  processStartedAt := now
  owner := fun _ => none
  handed := []
  atRail := []
  left := []
  landed := []

/-- What a statement may throw. -/
inductive Err
  | emergencyFrozen
  | constraint (message : String)
  | other (message : String)
  deriving DecidableEq

/-- `UPDATE relay_pending_withdrawals SET u WHERE pending_id = id AND status = from`. -/
def Store.casQueue (s : Store) (id : String) (src : QueueStatus) (u : QueueRow → QueueRow) :
    Bool × Store :=
  let p := fun q : QueueRow => q.pendingId == id && q.status == src
  (decide (0 < countWhere p s.queue), { s with queue := updateWhere p u s.queue })

/-- `SELECT … FROM relay_pending_withdrawals WHERE pending_id = ?`. -/
def Store.row? (s : Store) (id : String) : Option QueueRow :=
  s.queue.find? fun q => q.pendingId == id

/-! ## §3. What a rail answers -/

/-- A `WithdrawalResult`: the payout reference and `proof.confirmedAt` (0 without a proof). -/
structure RailResult where
  reference : Option String
  confirmedAt : Nat
  deriving DecidableEq

/-- The end of one `rail.withdraw`; `threw true` is a `PayoutNotSentError`. -/
inductive RailOutcome
  | result (r : RailResult)
  | threw (notSent : Bool) (message : String)
  deriving DecidableEq

/-- The end of one `rail.withdrawBatch`; items are named by their idempotency key. -/
inductive BatchOutcome
  | result (fired : List (String × RailResult)) (failed : List (String × String))
  | threw (notSent : Bool) (message : String)
  deriving DecidableEq

inductive Req
  | withdraw (rail : Rail) (row : QueueRow)
  | withdrawBatch (rail : Rail) (rows : List QueueRow)

def Resp : Req → Type
  | .withdraw .. => RailOutcome
  | .withdrawBatch .. => BatchOutcome

/-- An asynchronous function of the loop. -/
abbrev LoopTask (α : Type) := Task Store Req Resp Err α

def Rail.withdraw (rail : Rail) (row : QueueRow) : LoopTask RailOutcome :=
  ask (Req.withdraw rail row)

def Rail.withdrawBatch (rail : Rail) (rows : List QueueRow) : LoopTask BatchOutcome :=
  ask (Req.withdrawBatch rail rows)

def dateNow : LoopTask Nat := act fun s => (s.clock, s)

/-! ## §4. Claiming and recording -/

/-- The row `claimForFiring` moves: the guarded compare-and-set `pending → firing`. -/
def Store.claim (s : Store) (t : Nat) (id : String) (now : Nat) :
    Except Err (Option QueueRow × Store) :=
  match s.casQueue id .pending fun q => { q with status := .firing, lastAttemptAt := some now } with
  | (false, _) => .ok (none, s)
  | (true, s') =>
    if s.frozen then .error .emergencyFrozen
    else .ok (s'.row? id, { s' with owner := Function.update s'.owner id (some t) })

/-- `claimForFiring`: the rows this call moved. -/
def claimForFiring (t : Nat) (now : Nat) : List String → LoopTask (List QueueRow)
  | [] => pure []
  | id :: ids => do
    let row ← txn fun s => s.claim t id now
    let rest ← claimForFiring t now ids
    pure (row.toList ++ rest)

/-- `failureOutcome`: is this failure a proof that nothing left? -/
def failureNotSent (rail : Option Rail) (notSent : Bool) : Bool :=
  (rail.any fun r => r.manual) || notSent

/-- The text of a loop refund's ledger row. -/
def notSentText (row : QueueRow) : String :=
  "Pending withdrawal " ++ row.pendingId ++ " not sent: " ++ row.lastError.getD "refunded"

/-- `refundPendingWithdrawal`: `refund_owed → refunded` and the credit, in one transaction. -/
def Store.refundPendingWithdrawal (s : Store) (id : String) (refundedAt : Nat) :
    Except Err (Bool × Store) :=
  match s.casQueue id .refundOwed fun q =>
      { q with status := .refunded, lastAttemptAt := some refundedAt } with
  | (false, _) => .ok (false, s)
  | (true, s') =>
    match s'.row? id with
    | none => .error (.other ("refundPendingWithdrawal: " ++ id ++ " vanished mid-transaction"))
    | some row =>
      if s.frozen then .error .emergencyFrozen
      else .ok (true, { s' with
        ledger := { s'.ledger with
          books := (s'.ledger.books.credit row.motebitId row.amountMicro .withdrawal (some id)
            (some (notSentText row)) none).2 } })

/-- `settleOwedRefund`: a freeze refusal leaves the row owed, any other error is thrown. -/
def settleOwedRefund (id : String) (now : Nat) : LoopTask Bool :=
  txn fun s =>
    match s.refundPendingWithdrawal id now with
    | .error .emergencyFrozen => .ok (false, s)
    | r => r

def refundNotSent (row : QueueRow) (reason : String) (now : Nat) : LoopTask Unit := do
  let parked ← act fun s => s.casQueue row.pendingId .firing fun q =>
    { q with status := .refundOwed, lastError := some reason, lastAttemptAt := some now }
  if parked then
    let _ ← settleOwedRefund row.pendingId now
    pure ()
  else
    pure ()

structure FiredRecord where
  status : WithdrawalStatus
  payoutReference : Option String
  payoutValidUntil : Option Nat

def firedRecordFor (rail : Rail) (result : RailResult) (now : Nat) : FiredRecord :=
  if 0 < result.confirmedAt then ⟨.completed, result.reference, none⟩
  else if rail.manual then ⟨.pending, none, none⟩
  else ⟨.processing, result.reference,
    some (now + rail.payoutValidityMs.getD undeclaredPayoutHorizonMs)⟩

def firedWithdrawal (id : String) (row : QueueRow) (fired : FiredRecord) (now : Nat)
    (failureReason : Option String) : Withdrawal where
  withdrawalId := id
  motebitId := row.motebitId
  amount := row.amountMicro
  currency := "USD"
  destination := row.destination
  status := fired.status
  idempotencyKey := row.idempotencyKey
  payoutReference := fired.payoutReference
  requestedAt := row.enqueuedAt
  completedAt := if fired.status = .completed then some now else none
  failureReason := failureReason
  claimedAt := if fired.status = .pending then none else some now
  payoutValidUntil := fired.payoutValidUntil

section

variable (uuid : Nat → String)

/-- The transaction `markFired` and `holdUnknown` share: `firing → status`, a fresh
    `relay_withdrawals` row, and the link between the two.  `none`: the row is no longer
    `firing`. -/
def Store.recordOutcome (s : Store) (row : QueueRow) (status : QueueStatus)
    (lastError : Option String) (fired : FiredRecord) (now : Nat)
    (failureReason : Option String) : Except Err (Option String × Store) :=
  let p := fun q : QueueRow => q.pendingId == row.pendingId && q.status == .firing
  if 0 < countWhere p s.queue then
    let id := uuid s.drawn
    if s.ledger.withdrawals.any fun w => w.withdrawalId == id
        || (w.motebitId == row.motebitId && w.idempotencyKey.isSome
          && w.idempotencyKey == row.idempotencyKey) then
      .error (.constraint "UNIQUE constraint failed: relay_withdrawals")
    else
      .ok (some id, { s with
        drawn := s.drawn + 1
        queue := updateWhere p (fun q => { q with
          status := status, lastAttemptAt := some now,
          lastError := lastError.or q.lastError, withdrawalId := some id }) s.queue
        ledger := { s.ledger with
          withdrawals := s.ledger.withdrawals ++
            [firedWithdrawal id row fired now failureReason] } })
  else
    .ok (none, s)

def markFired (row : QueueRow) (fired : FiredRecord) (now : Nat) : LoopTask Unit := do
  let _ ← txn fun s => s.recordOutcome uuid row .fired none fired now none
  pure ()

/-- The note on a withdrawal whose payout may have been submitted. -/
def unresolvedText (row : QueueRow) (reason : String) : String :=
  "unresolved payout: batched withdrawal " ++ row.pendingId ++ " failed (" ++ reason ++
    "); the transfer may have been submitted — reconcile on chain before completing or failing"

def holdUnknown (rail : Option Rail) (row : QueueRow) (reason : String) (now : Nat) :
    LoopTask Unit := do
  let validity := (rail.bind Rail.payoutValidityMs).getD undeclaredPayoutHorizonMs
  let _ ← txn fun s => s.recordOutcome uuid row .unknown (some reason)
    ⟨.processing, none, some (now + validity)⟩ now (some (unresolvedText row reason))
  pure ()

/-- `markFailed`: the money rule. -/
def markFailed (rail : Option Rail) (row : QueueRow) (notSent : Bool) (message : String)
    (now : Nat) : LoopTask Unit :=
  if failureNotSent rail notSent then refundNotSent row message now
  else holdUnknown uuid rail row message now

/-! ## §5. Firing -/

/-- The ghost of calling the rail: the rows are with it now. -/
def Store.handOver (s : Store) (rail : Rail) (ids : List String) : Store :=
  { s with
    handed := s.handed ++ ids.map fun id => (id, rail)
    atRail := s.atRail ++ ids.map fun id => (id, rail) }

def addFiring (ids : List String) : LoopTask Unit :=
  act fun s => ((), { s with firingHere := ids ++ s.firingHere })

def removeFiring (ids : List String) : LoopTask Unit :=
  act fun s => ((), { s with firingHere := s.firingHere.filter fun id => !ids.contains id })

/-- One send of the serial path, with its outcome. -/
def sendOne (rail : Rail) (row : QueueRow) : LoopTask Unit := do
  act fun s => ((), s.handOver rail [row.pendingId])
  let out ← rail.withdraw row
  let now ← dateNow
  match out with
  | .threw notSent message => markFailed uuid (some rail) row notSent message now
  | .result r => markFired uuid row (firedRecordFor rail r now) now

/-- The row a candidate of the serial path stands for, claimed now or claimed before. -/
def claimCandidate (t : Nat) (claimEach : Bool) (candidate : QueueRow) :
    LoopTask (Option QueueRow) :=
  if claimEach then do
    let now ← dateNow
    let claimed ← claimForFiring t now [candidate.pendingId]
    pure claimed.head?
  else pure (some candidate)

def fireSerial (t : Nat) (rail : Rail) (claimEach : Bool) : List QueueRow → LoopTask Unit
  | [] => pure ()
  | candidate :: rest => do
    let row ← claimCandidate t claimEach candidate
    match row with
    | none => fireSerial t rail claimEach rest
    | some row =>
      addFiring [row.pendingId]
      andFinally (sendOne uuid rail row) (removeFiring [row.pendingId])
      fireSerial t rail claimEach rest

def itemKey (row : QueueRow) : String := row.idempotencyKey.getD ("pending-" ++ row.pendingId)

/-- Record each per-item answer of a batch, first answer first; a key the batch does not have
    and a second answer for one row are skipped.  Returns the rows answered. -/
def settleItems {β : Type} (record : QueueRow → β → LoopTask Unit) (rows : List QueueRow) :
    List (String × β) → List String → LoopTask (List String)
  | [], answered => pure answered
  | (key, outcome) :: items, answered =>
    match rows.find? fun r => itemKey r == key with
    | none => settleItems record rows items answered
    | some row =>
      if answered.contains row.pendingId then settleItems record rows items answered
      else do
        record row outcome
        settleItems record rows items (row.pendingId :: answered)

def fireBatch (t : Nat) (rail : Rail) (rows : List QueueRow) : LoopTask Unit :=
  -- two rows under one client key cannot be told apart in the answer
  if ¬ (rows.map itemKey).Nodup then fireSerial uuid t rail false rows
  else do
    act fun s => ((), s.handOver rail (rows.map QueueRow.pendingId))
    let out ← rail.withdrawBatch rows
    let now ← dateNow
    match out with
    | .threw notSent message =>
      forEach (fun row => markFailed uuid (some rail) row notSent message now) rows
    | .result fired failed =>
      let answered ← settleItems
        (fun row r => markFired uuid row (firedRecordFor rail r now) now) rows fired []
      let _ ← settleItems
        (fun row reason => markFailed uuid (some rail) row false reason now) rows failed answered
      pure ()

def shouldBatchSettle (aggregatedMicro perItemFeeMicro oldestAgeMs : Int) (policy : BatchPolicy) :
    Except Err Bool :=
  if aggregatedMicro < 0 || perItemFeeMicro < 0 || oldestAgeMs < 0 then
    .error (.other ("shouldBatchSettle invariant: non-negative inputs required (aggregated="
      ++ toString aggregatedMicro ++ ", perItemFee=" ++ toString perItemFeeMicro
      ++ ", oldestAge=" ++ toString oldestAgeMs ++ ")"))
  else if aggregatedMicro < policy.minAggregateMicro then .ok false
  else if policy.feeJustificationMultiplier * perItemFeeMicro ≤ aggregatedMicro then .ok true
  else .ok (decide (policy.maxAgeMs ≤ oldestAgeMs))

def Store.pendingRows (s : Store) (railName : String) : List QueueRow :=
  (s.queue.filter fun q => q.rail == railName && q.status == .pending).mergeSort
    fun a b => decide (a.enqueuedAt ≤ b.enqueuedAt)

def evaluateAndFireRail (t : Nat) (rail : Rail) (config : Config) : LoopTask Unit := do
  let rows ← act fun s => (s.pendingRows rail.name, s)
  match rows with
  | [] => pure ()
  | oldest :: _ =>
    let now ← dateNow
    let aggregated := (rows.map QueueRow.amountMicro).sum
    match shouldBatchSettle aggregated (config.feeEstimate rail.name)
        ((now : Int) - oldest.enqueuedAt) (config.policy rail.name) with
    | .error e => throw e
    | .ok false => pure ()
    | .ok true =>
      if rail.batchable then do
        let claimedAt ← dateNow
        let claimed ← claimForFiring t claimedAt (rows.map QueueRow.pendingId)
        if claimed.isEmpty then pure ()
        else
          addFiring (claimed.map QueueRow.pendingId)
          andFinally (fireBatch uuid t rail claimed)
            (removeFiring (claimed.map QueueRow.pendingId))
      else fireSerial uuid t rail true rows

/-! ## §6. Recovery and the tick -/

/-- `recoverFiring`: the rows no send can still be running for, by the money rule. -/
def recoverRow (rails : List Rail) (now processStartedAt : Nat) (row : QueueRow) :
    LoopTask Unit := do
  let claimedAt := row.lastAttemptAt.getD 0
  let earlierLife := decide (claimedAt < processStartedAt)
  let inFlight ← act fun s => (s.firingHere.contains row.pendingId, s)
  if !earlierLife && (inFlight || decide (now < claimedAt + staleFiringMs)) then pure ()
  else
    markFailed uuid (rails.find? fun r => r.name == row.rail) row false
      (if earlierLife then "the process died while this payout was being sent"
        else "the send's outcome was never recorded") now

def recoverFiring (rails : List Rail) (now processStartedAt : Nat) : LoopTask Unit := do
  let rows ← act fun s => (s.queue.filter fun q => q.status == .firing, s)
  forEach (recoverRow uuid rails now processStartedAt) rows

def settleOwedRefunds (now : Nat) : LoopTask Unit := do
  let owed ← act fun s => (s.queue.filter fun q => q.status == .refundOwed, s)
  forEach (fun row => do let _ ← settleOwedRefund row.pendingId now; pure ()) owed

/-- Evaluate and fire each rail in turn. -/
def fireRails (t : Nat) (config : Config) : List Rail → LoopTask Unit
  | [] => pure ()
  | rail :: rails => do
    evaluateAndFireRail uuid t rail config
    fireRails t config rails

def runBatchWithdrawalTick (registry : Registry) (config : Config) (t : Nat) : LoopTask Unit := do
  let rails := registry.rails.filter Rail.withdrawable
  let now ← dateNow
  let startedAt ← act fun s => (s.processStartedAt, s)
  recoverFiring uuid rails now startedAt
  settleOwedRefunds now
  fireRails uuid t config rails

/-! ## §7. Everything else that touches the store -/

/-- `debitAndEnqueuePending`, as `enqueuePendingWithdrawal` calls it: `available` is what the
    withdrawal holds leave of the balance. -/
def Store.enqueue (s : Store) (motebitId : String) (amountMicro available : Int)
    (destination rail source : String) (idempotencyKey : Option String) : Store :=
  if isPositiveMicro amountMicro = false || available < amountMicro || s.frozen then s
  else if idempotencyKey.any fun key =>
      s.queue.any fun q => q.motebitId == motebitId && q.idempotencyKey == some key then s
  else
    let id := uuid s.drawn
    match s.ledger.books.debit motebitId amountMicro .withdrawal (some id)
        (some ("Pending withdrawal " ++ id ++ " → " ++ destination ++ " via " ++ rail)) none with
    | (none, books) => { s with drawn := s.drawn + 1, ledger := { s.ledger with books := books } }
    | (some _, books) =>
      { s with
        drawn := s.drawn + 1
        ledger := { s.ledger with books := books }
        queue := s.queue ++ [⟨id, motebitId, amountMicro, destination, rail, source, s.clock,
          .pending, none, none, none, idempotencyKey⟩] }

/-- What happens to the store outside the loop.  `lands` says which payouts ever land. -/
inductive Env (lands : String → Bool) (s : Store) : Store → Prop
  /-- A sweep or a user queues a withdrawal. -/
  | enqueue (motebitId : String) (amountMicro available : Int)
      (destination rail source : String) (idempotencyKey : Option String) :
      Env lands s
        (s.enqueue uuid motebitId amountMicro available destination rail source idempotencyKey)
  /-- Money arrives. -/
  | deposit (motebitId : String) (amount : Int) (hpos : 0 < amount) :
      Env lands s { s with ledger := { s.ledger with
        books := (s.ledger.books.credit motebitId amount .deposit none none none).2 } }
  | freeze (frozen : Bool) : Env lands s { s with frozen := frozen }
  | clock (now : Nat) : Env lands s { s with clock := now }
  /-- A payout leaves a rail that sends. -/
  | leave (id : String) (rail : Rail) (hat : (id, rail) ∈ s.atRail) (hsends : rail.manual = false) :
      Env lands s { s with left := id :: s.left }
  /-- A payout that left lands. -/
  | land (id : String) (hleft : id ∈ s.left) (hlands : lands id = true) :
      Env lands s { s with landed := id :: s.landed }
  /-- The operator completes an open withdrawal. -/
  | complete (id payoutReference : String) (at_ : Nat) (source : WithdrawalOpenStatus) :
      Env lands s { s with ledger := (s.ledger.updateWithdrawal id (Ledger.fromOk source)
        (Ledger.completionSet payoutReference at_)).2 }
  /-- The operator fails an open withdrawal (`not_paid`): only if its payout does not land. -/
  | fail (id reason : String) (at_ : Nat) (source : WithdrawalOpenStatus)
      (hnotPaid : ∀ q ∈ s.queue, q.withdrawalId = some id → lands q.pendingId = false)
      (L : Ledger) (refunded : Option (String × Int))
      (hfail : s.ledger.failWithdrawalAndRefund id reason source at_ = .ok (refunded, L)) :
      Env lands s { s with ledger := L }

/-- How a rail may answer: `PayoutNotSentError` only when nothing of the payout left, and then
    nothing of it leaves later. -/
def Answer (s : Store) : (r : Req) → Resp r → Store → Prop
  | .withdraw _ row, .threw true _, s' =>
      row.pendingId ∉ s.left ∧
      s' = { s with atRail := s.atRail.filter fun h => h.1 != row.pendingId }
  | .withdrawBatch _ rows, .threw true _, s' =>
      (∀ row ∈ rows, row.pendingId ∉ s.left) ∧
      s' = { s with atRail := s.atRail.filter fun h =>
        !(rows.map QueueRow.pendingId).contains h.1 }
  | _, _, s' => s' = s

/-- The loop in its world: any number of ticks, rails that answer or not, and process death,
    which empties the process's memory. -/
def world (registry : Registry) (lands : String → Bool) : World Store Req Resp where
  init s := ∃ now, s = Store.init now
  entry t p := ∃ config, p = (runBatchWithdrawalTick uuid registry config t).detach
  answer := Answer
  env := Env uuid lands
  crash s s' := ∃ now, s' = { s with firingHere := [], clock := now, processStartedAt := now }

end

end Motebit.Batch
