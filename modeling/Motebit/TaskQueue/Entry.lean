/-
  Motebit.TaskQueue.Entry — A TASK'S QUEUE ENTRY and the predicates that read it
  (services/relay/src/tasks.ts, task-claim.ts, task-pin.ts, p2p-payee.ts).

  An entry carries its task, the grant it holds, and its answer: the receipt, the signature its
  settlement is claimed for and whether it is settled.  Fields no modelled function reads are
  left out.
-/

import Mathlib.Tactic.Common

namespace Motebit.TaskQueue

/-! ## §1. Receipts and doors -/

inductive AgentTaskStatus
  | pending
  | claimed
  | running
  | completed
  | failed
  | denied
  | expired
  deriving DecidableEq

/-- `TERMINAL`: the statuses only an answer sets. -/
def AgentTaskStatus.terminal : AgentTaskStatus → Bool
  | .completed | .failed | .denied => true
  | _ => false

inductive ReceiptStatus
  | completed
  | failed
  | denied
  deriving DecidableEq

/-- A signed execution receipt; `content` is whatever else it signs. -/
structure ExecutionReceipt where
  motebitId : String
  taskId : String
  relayTaskId : Option String
  deviceId : Option String
  status : ReceiptStatus
  resultHash : String
  content : String
  signature : String
  deriving DecidableEq

def receiptRelayTaskId (receipt : ExecutionReceipt) : String :=
  match receipt.relayTaskId with
  | some r => if r ≠ "" then r else receipt.taskId
  | none => receipt.taskId

def statusOf (receipt : ExecutionReceipt) : AgentTaskStatus :=
  match receipt.status with
  | .completed => .completed
  | .denied => .denied
  | .failed => .failed

theorem terminal_statusOf (receipt : ExecutionReceipt) : (statusOf receipt).terminal = true := by
  unfold statusOf
  cases receipt.status <;> rfl

/-- The door a receipt arrived by. -/
inductive AnswerDoor
  | resultPost
  | mcpForward
  | subReceipt (parentTaskId : String)
  | federationResult (viaPeer : String) (peerKey : Option String)
  deriving DecidableEq

/-! ## §2. Entries -/

inductive TaskGrantPresenter
  | ws
  | mcpForward
  | submitter
  deriving DecidableEq

inductive TaskUndeterminedReason
  | claimerLost
  | forwardUnanswered
  | unansweredAtExpiry
  deriving DecidableEq

structure TaskClaimLease where
  presenter : Option TaskGrantPresenter
  deviceId : String
  deviceVerified : Bool
  deviceGenerated : Bool := false
  authenticatedDid : Option String := none
  expiresAt : Option Nat := none
  undeterminedAt : Option Nat := none
  undeterminedReason : Option TaskUndeterminedReason := none
  deriving DecidableEq

structure AgentTask where
  motebitId : String
  status : AgentTaskStatus
  claimedBy : Option String
  requiredCapabilities : List String
  submittedAt : Nat
  deriving DecidableEq

inductive SettlementMode
  | relay
  | p2p
  deriving DecidableEq

/-- What P2P admission decided: the executor relay the federated plan chose, if any. -/
structure P2pAdmission where
  plannedPeer : Option String
  deriving DecidableEq

structure TaskQueueEntry where
  task : AgentTask
  expiresAt : Nat
  originRelay : Option String := none
  receipt : Option ExecutionReceipt := none
  settling : Option String := none
  settled : Option Bool := none
  settleVia : Option AnswerDoor := none
  answerVersion : Nat := 0
  settlementMode : Option SettlementMode := none
  targetAgent : Option String := none
  pinnedExecutor : Option String := none
  p2pAdmission : Option P2pAdmission := none
  claimLease : Option TaskClaimLease := none
  /-- When the task expired unclaimed, if it did. -/
  expiredUnclaimed : Option Nat := none
  deriving DecidableEq

def TaskQueueEntry.atVersion (e : TaskQueueEntry) (v : Nat) : TaskQueueEntry :=
  { e with answerVersion := v }

@[simp] theorem TaskQueueEntry.atVersion_atVersion (e : TaskQueueEntry) (v w : Nat) :
    (e.atVersion v).atVersion w = e.atVersion w := rfl

@[simp] theorem TaskQueueEntry.atVersion_receipt (e : TaskQueueEntry) (v : Nat) :
    (e.atVersion v).receipt = e.receipt := rfl

/-- The answer fields of an entry, as `answerOf` compares them. -/
def answerOf (e : TaskQueueEntry) :
    Option ExecutionReceipt × Option AgentTaskStatus × Option String × Option Bool :=
  (e.receipt, if e.task.status.terminal then some e.task.status else none, e.settling, e.settled)

/-! ## §3. Who may execute, answer and be paid -/

def pinOf (entry : TaskQueueEntry) : Option String := entry.pinnedExecutor.filter (· ≠ "")

def executorAllowed (pin : Option String) (executorId : String) : Bool :=
  match pin with
  | none => true
  | some p => executorId = p

def pinRefusesAnswer (entry : TaskQueueEntry) (signer : String) : Bool :=
  !executorAllowed (pinOf entry) signer

def pinRefusesSettlement (entry : TaskQueueEntry) (payee : String) : Bool :=
  !executorAllowed (pinOf entry) payee

def pinRefusesClaim (entry : TaskQueueEntry) (claimant : String) : Bool :=
  !executorAllowed (pinOf entry) claimant

/-- The worker a P2P task's onchain payment paid. -/
def p2pPayeeOf (entry : TaskQueueEntry) : String :=
  match entry.targetAgent with
  | some target => if target ≠ "" then target else entry.task.motebitId
  | none => entry.task.motebitId

def receiptDischargesP2p (entry : TaskQueueEntry) (signerId : String) : Bool :=
  signerId = p2pPayeeOf entry

/-- Whether a body's claim names the device that may answer the task. -/
def claimNamesAnswerer (entry : TaskQueueEntry) : Bool :=
  match entry.claimLease with
  | none => false
  | some lease => lease.presenter = none ∨ lease.presenter = some .ws

def claimBindsSignedAnswerer (entry : TaskQueueEntry) : Bool :=
  claimNamesAnswerer entry && !(entry.claimLease.map (·.deviceGenerated)).getD false

def claimRefusesAnswer (entry : TaskQueueEntry) (did : Option String) : Bool :=
  match entry.claimLease, did with
  | some lease, some d =>
    claimNamesAnswerer entry && (d ≠ lease.deviceId) && (some d ≠ lease.authenticatedDid)
  | _, _ => false

end Motebit.TaskQueue
