/-
  Motebit.TaskQueue.Queue — THE DURABLE TASK QUEUE (services/relay/src/task-queue.ts).

  The queue table, the answer archive and the two settlement tables, with the triggers that
  guard them.  An entry's answer fields are written only by `writeAnswer`, a compare-and-set on
  the entry's answer version that archives the answer in the same transaction; every other write
  goes through `set`.

  Main results: `set_ok`, `writeAnswer_ok`, `insertSettlement_ok`, `cleanup_keeps`,
  `evict_keeps`.
-/

import Motebit.Lib.Keyed
import Motebit.Lib.Throws
import Motebit.TaskQueue.Entry

namespace Motebit.TaskQueue

open Motebit.Lib Function

/-! ## §1. The tables -/

/-- A row of `relay_settlements` or `relay_federation_settlements`. -/
structure SettlementRow where
  taskId : String
  receiptSignature : Option String
  receiptHash : String
  deriving DecidableEq

structure TaskAnswer where
  executorId : String
  status : ReceiptStatus
  receipt : ExecutionReceipt
  settling : Option String
  settled : Bool
  answerVersion : Nat
  answeredAt : Nat
  deriving DecidableEq

inductive TaskRouteOrigin
  | admission
  | inboundForward
  deriving DecidableEq

structure TaskRoute where
  taskId : String
  executorId : String
  viaPeer : String
  origin : TaskRouteOrigin
  deriving DecidableEq

/-- The tables; `issued` is the history of task ids ever enqueued. -/
structure Store where
  now : Nat
  queue : Keyed String TaskQueueEntry
  answers : String → Option TaskAnswer
  settlements : List SettlementRow
  federationSettlements : List SettlementRow
  routes : List TaskRoute
  taskRoutesEpoch : Option Nat
  issued : List String

def Store.get (s : Store) (taskId : String) : Option TaskQueueEntry := s.queue.lookup taskId

def Store.put (s : Store) (taskId : String) (entry : TaskQueueEntry) : Store :=
  { s with queue := s.queue.insert taskId entry }

@[simp] theorem Store.get_put_self (s : Store) (taskId : String) (entry : TaskQueueEntry) :
    (s.put taskId entry).get taskId = some entry := AList.lookup_insert _

theorem Store.get_put_ne (s : Store) {taskId other : String} (entry : TaskQueueEntry)
    (h : other ≠ taskId) : (s.put taskId entry).get other = s.get other :=
  AList.lookup_insert_ne h

/-- Every settlement row, in either settlement table, that names `taskId`. -/
def settlementRowsFor (s : Store) (taskId : String) : List SettlementRow :=
  (s.settlements ++ s.federationSettlements).filter (·.taskId = taskId)

/-! ## §2. Triggers -/

/-- `relay_task_queue_answer_update_guard`: an answer field changes only with a version step. -/
def answerUpdateGuard (old new : TaskQueueEntry) : Bool :=
  new.answerVersion < old.answerVersion ||
    old.answerVersion + 1 < new.answerVersion ||
    (new.answerVersion = old.answerVersion && answerOf new ≠ answerOf old)

/-- A settlement row names the task for another receipt than `sig`. -/
def namesOther (rows : List SettlementRow) (sig : Option String) : Bool :=
  rows.any fun r => r.receiptSignature.isSome && r.receiptSignature ≠ sig

/-- `relay_task_queue_settled_frozen_guard`: the answer and its claim never move off what a
    settlement names. -/
def settledFrozenGuard (rows : List SettlementRow) (old new : TaskQueueEntry) : Bool :=
  (new.receipt ≠ old.receipt &&
      ((old.receipt.isSome && rows ≠ []) || namesOther rows (new.receipt.map (·.signature)))) ||
    (new.settling ≠ old.settling && namesOther rows new.settling)

/-- The task's entry, or after eviction its archived answer, is claimed for `sig`. -/
def claimedFor (s : Store) (taskId : String) (sig : Option String) : Bool :=
  match s.get taskId with
  | some entry => sig.isSome && entry.settling = sig
  | none => sig.isSome && (s.answers taskId).bind (·.settling) = sig

/-- A queue entry or an archived answer. -/
def knownTask (s : Store) (taskId : String) : Bool :=
  (s.get taskId).isSome || (s.answers taskId).isSome

inductive SettlementTable
  | relaySettlements
  | relayFederationSettlements
  deriving DecidableEq

inductive QueueFault
  | leftQueue
  | insertedAnswered
  | staleCopy (copy stored : Nat)
  | changesAnswer
  | answerTrigger
  | frozenTrigger
  | oneSettlementTrigger (table : SettlementTable)
  | claimTrigger (table : SettlementTable)
  | settlementStep
  deriving DecidableEq

/-- What `AnswerWriteRefused` says, or the trigger's abort. -/
def QueueFault.message : QueueFault → String
  | .leftQueue => "a copy of an entry that has left the queue"
  | .insertedAnswered => "an entry is inserted unanswered"
  | .staleCopy copy stored =>
    s!"a stale copy (answer version {copy}, the entry is at {stored})"
  | .changesAnswer => "a write that changes the answer"
  | .answerTrigger =>
    "a task answer is written only by answerTask (the answer capability), never over a newer answer"
  | .frozenTrigger =>
    "a settled answer is frozen — never moved off the receipt its settlement names (#890 r9)"
  | .oneSettlementTrigger _ =>
    "a task settles once — a settlement row already names it (#890 r9)"
  | .claimTrigger _ =>
    "a settlement is written only for the receipt the task is claimed for (#890 r9)"
  | .settlementStep => "the settlement step failed"

/-! ## §3. Writes -/

/-- UPDATE the row at `expectedVersion` to `version`; false when it moved on. -/
def writeRow (taskId : String) (entry : TaskQueueEntry) (version expectedVersion : Nat)
    (s : Store) : Except QueueFault (Bool × Store) :=
  match s.get taskId with
  | none => .ok (false, s)
  | some old =>
    if old.answerVersion = expectedVersion then
      let new := entry.atVersion version
      if answerUpdateGuard old new then .error .answerTrigger
      else if settledFrozenGuard (settlementRowsFor s taskId) old new then .error .frozenTrigger
      else .ok (true, s.put taskId new)
    else .ok (false, s)

/-- Write an entry's non-answer fields. -/
def set (taskId : String) (entry : TaskQueueEntry) (s : Store) : Except QueueFault Store :=
  match s.get taskId with
  | none =>
    if entry.answerVersion ≠ 0 then .error .leftQueue
    else if entry.receipt.isSome || entry.task.status.terminal || entry.settling.isSome ||
        entry.settled.isSome then .error .insertedAnswered
    else .ok { s.put taskId entry with issued := taskId :: s.issued }
  | some stored =>
    if entry.answerVersion ≠ stored.answerVersion then
      .error (.staleCopy entry.answerVersion stored.answerVersion)
    else if answerOf entry ≠ answerOf stored then .error .changesAnswer
    else (writeRow taskId entry stored.answerVersion stored.answerVersion s).map (·.2)

def archived (now : Nat) (entry : TaskQueueEntry) (receipt : ExecutionReceipt) : TaskAnswer where
  executorId := receipt.motebitId
  status := receipt.status
  receipt := receipt
  settling := entry.settling
  settled := entry.settled = some true
  answerVersion := entry.answerVersion
  answeredAt := now

/-- `INSERT … ON CONFLICT DO UPDATE … WHERE excluded.answer_version > answer_version`. -/
def archiveAnswer (taskId : String) (answer : TaskAnswer) (s : Store) : Store :=
  match s.answers taskId with
  | some old =>
    if old.answerVersion < answer.answerVersion then
      { s with answers := update s.answers taskId (some answer) }
    else s
  | none => { s with answers := update s.answers taskId (some answer) }

/-- The only writer of a task's answer: a compare-and-set on the answer version. -/
def writeAnswer (taskId : String) (expectedVersion : Nat)
    (mutate : TaskQueueEntry → TaskQueueEntry) (s : Store) :
    Except QueueFault (Option TaskQueueEntry × Store) :=
  match s.get taskId with
  | none => .ok (none, s)
  | some current =>
    if current.answerVersion ≠ expectedVersion then .ok (none, s)
    else
      let written := (mutate current).atVersion (expectedVersion + 1)
      match writeRow taskId written (expectedVersion + 1) expectedVersion s with
      | .error e => .error e
      | .ok (false, _) => .ok (none, s)
      | .ok (true, s') =>
        match written.receipt with
        | none => .ok (some written, s')
        | some receipt =>
          .ok (some written, archiveAnswer taskId (archived s.now written receipt) s')

def insertSettlement (table : SettlementTable) (row : SettlementRow) (s : Store) :
    Except QueueFault Store :=
  if row.taskId ≠ "" && settlementRowsFor s row.taskId ≠ [] then
    .error (.oneSettlementTrigger table)
  else if row.taskId ≠ "" && knownTask s row.taskId &&
      !claimedFor s row.taskId row.receiptSignature then
    .error (.claimTrigger table)
  else
    match table with
    | .relaySettlements => .ok { s with settlements := s.settlements ++ [row] }
    | .relayFederationSettlements =>
      .ok { s with federationSettlements := s.federationSettlements ++ [row] }

/-! ## §4. Retention -/

def heldClaim (e : TaskQueueEntry) : Bool := e.settling.isSome && e.settled ≠ some true

def heldGrant (e : TaskQueueEntry) : Bool := e.task.status = .claimed && e.receipt.isNone

/-- A pending entry the expiry pass has not marked. -/
def unmarkedPending (e : TaskQueueEntry) : Bool :=
  e.task.status = .pending && e.receipt.isNone && e.expiredUnclaimed.isNone

def cleanup (now : Nat) (s : Store) : Store :=
  { s with queue := s.queue.deleteWhere fun _ e =>
      e.expiresAt < now && !heldClaim e && !heldGrant e && !unmarkedPending e }

/-- Evict the oldest entries to bring the queue below `maxSize`. -/
def evict (maxSize : Nat) (s : Store) : Store :=
  let victims := s.queue.smallest (fun _ e => !heldClaim e && !heldGrant e) (·.expiresAt)
    (s.queue.entries.length - maxSize)
  { s with queue := s.queue.deleteWhere fun id _ => id ∈ victims }

def unansweredPastExpiry (now : Nat) (s : Store) : List String :=
  (s.queue.entries.filter fun e => e.2.expiresAt < now && e.2.receipt.isNone &&
    (e.2.task.status = .pending || e.2.task.status = .claimed)).map (·.1)

variable {s : Store} {e : TaskQueueEntry} {taskId : String}

theorem cleanup_keeps {now : Nat} (h : s.get taskId = some e)
    (hheld : heldClaim e = true ∨ heldGrant e = true) : (cleanup now s).get taskId = some e := by
  refine Keyed.lookup_deleteWhere_of_keep h ?_
  rcases hheld with hc | hg
  · simp [hc]
  · simp [hg]

theorem evict_keeps {maxSize : Nat} (h : s.get taskId = some e)
    (hheld : heldClaim e = true ∨ heldGrant e = true) : (evict maxSize s).get taskId = some e := by
  refine Keyed.lookup_deleteWhere_of_keep h ?_
  refine decide_eq_false fun hmem => ?_
  have hfree := Keyed.mem_smallest hmem h
  rw [Bool.and_eq_true, Bool.not_eq_true', Bool.not_eq_true'] at hfree
  rcases hheld with hc | hg
  · rw [hc] at hfree
    exact Bool.noConfusion hfree.1
  · rw [hg] at hfree
    exact Bool.noConfusion hfree.2

theorem get_of_cleanup {now : Nat} (h : (cleanup now s).get taskId = some e) :
    s.get taskId = some e :=
  Keyed.lookup_of_deleteWhere h

theorem get_of_evict {maxSize : Nat} (h : (evict maxSize s).get taskId = some e) :
    s.get taskId = some e :=
  Keyed.lookup_of_deleteWhere h

end Motebit.TaskQueue
