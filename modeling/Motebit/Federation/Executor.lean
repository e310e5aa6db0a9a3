/-
  Motebit.Federation.Executor — THE EXECUTOR RELAY of a federated task
  (`onTaskForwarded` and `onSettlementReceived` in services/relay/src/federation-callbacks.ts,
  `recordInboundFederatedSettlement` in allocation-escrow.ts, `inboundTaskIdCollision` and
  `recordTaskRoute` in task-routing.ts).

  A peer's forward puts a task here and names its worker; the worker answers through the task
  queue; the peer's settlement-forward then records one inbound settlement and pays the worker.
  The settlement is decided in two turns: the worker and the receipt are read first, the row is
  written after the record was signed.
-/

import Mathlib.Data.Rat.Floor
import Motebit.TaskQueue.Answer

namespace Motebit.Federation

open Motebit.Lib Function
open Motebit.TaskQueue

/-! ## §1. Tables -/

/-- One row of `relay_federation_settlements`, as the executor reads it. -/
structure FederationRow where
  settlementId : String
  taskId : String
  upstreamRelayId : String
  downstreamRelayId : Option String
  agentId : Option String
  grossAmount : Int
  feeAmount : Int
  netAmount : Int
  receiptHash : String
  receiptSignature : Option String
  deriving DecidableEq

/-- A `settlement_credit` of an inbound settlement; `referenceId` is the settlement's id. -/
structure SettlementCredit where
  motebitId : String
  amount : Int
  referenceId : String
  description : String
  deriving DecidableEq

/-- One row of `relay_task_routes`; `fromPeer` is the forwarding peer of an inbound route. -/
structure PeerRoute where
  taskId : String
  executorId : String
  viaPeer : String
  origin : TaskRouteOrigin
  fromPeer : String
  deriving DecidableEq

/-- The executor's tables.  `submitters` is the queue's `submitted_by` column; `proofClaims`
    binds a P2P proof to the task it admitted. -/
structure Executor where
  now : Nat
  frozen : Bool
  queue : Keyed String TaskQueueEntry
  submitters : String → String
  answers : String → Option TaskAnswer
  relaySettlements : List SettlementRow
  federation : List FederationRow
  credits : List SettlementCredit
  routes : List PeerRoute
  taskRoutesEpoch : Option Nat
  issued : List String
  allocations : List (String × String)
  idempotencyTasks : List String
  receipts : List String
  proofClaims : String → Option String

namespace Executor

/-- The columns of a federation row the settlement guards read. -/
def settlementRow (row : FederationRow) : SettlementRow where
  taskId := row.taskId
  receiptSignature := row.receiptSignature
  receiptHash := row.receiptHash

def taskRoute (route : PeerRoute) : TaskRoute where
  taskId := route.taskId
  executorId := route.executorId
  viaPeer := route.viaPeer
  origin := route.origin

def tasks (s : Executor) : TaskQueue.Store where
  now := s.now
  queue := s.queue
  answers := s.answers
  settlements := s.relaySettlements
  federationSettlements := s.federation.map settlementRow
  routes := s.routes.map taskRoute
  taskRoutesEpoch := s.taskRoutesEpoch
  issued := s.issued

/-- The tables after a write of the task queue, which writes entries and answers only. -/
def afterTasks (s : Executor) (t : TaskQueue.Store) : Executor :=
  { s with queue := t.queue, answers := t.answers, issued := t.issued }

def get (s : Executor) (taskId : String) : Option TaskQueueEntry := s.queue.lookup taskId

end Executor

/-! ## §2. Faults -/

inductive ExecutorFault
  | http (status : Nat) (message : String)
  | queue (fault : QueueFault)
  | emergencyFrozen
  | unsigned
  | error (message : String)
  deriving DecidableEq

/-! ## §3. Forwarded tasks -/

/-- A verified `task-forward`; `proofTxHash` is the P2P proof's transaction, if one is attached. -/
structure ForwardedTask where
  taskId : String
  originRelay : String
  targetAgent : String
  submittedBy : Option String
  requiredCapabilities : List String
  proofTxHash : Option String
  deriving DecidableEq

inductive ForwardOutcome
  | routed
  | pending
  | duplicate
  | rejected (reason : String)
  deriving DecidableEq

inductive Collision
  | inboundHeld
  | inUse
  deriving DecidableEq

/-- Does `taskId` already mean something here, outside the queue? -/
def inboundTaskIdCollision (s : Executor) (taskId fromPeer : String) : Option Collision :=
  let inbound := s.routes.filter fun r => r.taskId = taskId ∧ r.origin = .inboundForward
  if taskId ∈ s.idempotencyTasks then some .inUse
  else if s.routes.any fun r => r.taskId = taskId ∧ r.origin = .admission then some .inUse
  else if inbound ≠ [] then
    if inbound.all fun r => r.fromPeer ≠ "" && r.fromPeer = fromPeer then some .inboundHeld
    else some .inUse
  else if taskId ∈ s.receipts then some .inUse
  else none

/-- `INSERT OR IGNORE` under the primary key of `relay_task_routes`. -/
def recordTaskRoute (route : PeerRoute) (s : Executor) : Executor :=
  if route.executorId = "" then s
  else if s.routes.any fun r => r.taskId = route.taskId ∧ r.executorId = route.executorId ∧
      r.viaPeer = route.viaPeer ∧ r.origin = route.origin then s
  else { s with routes := s.routes ++ [route] }

/-- `p2pProofKey` is applied by the caller; one proof admits one task. -/
def bindP2pProofToTask (txHash taskId : String) (s : Executor) : Bool × Executor :=
  match s.proofClaims txHash with
  | none => (true, { s with proofClaims := update s.proofClaims txHash (some taskId) })
  | some bound => (bound = taskId, s)

def federatedSubmitter (task : ForwardedTask) : String :=
  task.submittedBy.getD ("relay:" ++ task.originRelay)

/-- The entry a forward enqueues: pinned to the agent it names. -/
def forwardedEntry (task : ForwardedTask) (now taskTtlMs : Nat) : TaskQueueEntry where
  task := ⟨task.targetAgent, .pending, none, task.requiredCapabilities, now⟩
  expiresAt := now + taskTtlMs
  originRelay := some task.originRelay
  pinnedExecutor := some task.targetAgent
  settlementMode := if task.proofTxHash.isSome then some .p2p else none

structure QueueLimits where
  maxTaskQueueSize : Nat
  maxTasksPerSubmitter : Nat
  taskTtlMs : Nat

def enqueueForwarded (limits : QueueLimits) (task : ForwardedTask) (s : Executor) :
    Except ExecutorFault Executor :=
  let routed := recordTaskRoute
    ⟨task.taskId, task.targetAgent, "", .inboundForward, task.originRelay⟩ s
  match TaskQueue.set task.taskId (forwardedEntry task s.now limits.taskTtlMs) routed.tasks with
  | .error fault => .error (.queue fault)
  | .ok t =>
    .ok { routed.afterTasks t with
      submitters := update s.submitters task.taskId (federatedSubmitter task) }

/-- How many queued tasks `submitter` holds. -/
def submitterCount (s : Executor) (submitter : String) : Nat :=
  (s.queue.entries.filter fun e => s.submitters e.1 = submitter).length

/-- `onTaskForwarded`; `socketOpen` says whether an open socket of the agent took the frame. -/
def onTaskForwarded (limits : QueueLimits) (task : ForwardedTask) (socketOpen : Bool)
    (s : Executor) : Except ExecutorFault (ForwardOutcome × Executor) :=
  let outcome : ForwardOutcome := if socketOpen then .routed else .pending
  match s.get task.taskId with
  | some queued =>
    if queued.originRelay = some task.originRelay then .ok (.duplicate, s)
    else .ok (.rejected "task_id_in_use", s)
  | none =>
    match inboundTaskIdCollision s task.taskId task.originRelay with
    | some .inboundHeld => .ok (.duplicate, s)
    | some .inUse => .ok (.rejected "task_id_in_use", s)
    | none =>
      if limits.maxTaskQueueSize ≤ s.queue.entries.length then .ok (.rejected "queue_full", s)
      else if limits.maxTasksPerSubmitter ≤ submitterCount s (federatedSubmitter task) then
        .ok (.rejected "per_submitter_limit", s)
      else
        match task.proofTxHash with
        | none => (enqueueForwarded limits task s).map (outcome, ·)
        | some txHash =>
          -- the claim and the queued task commit together
          match bindP2pProofToTask txHash task.taskId s with
          | (true, s') => (enqueueForwarded limits task s').map (outcome, ·)
          | (false, _) => .ok (.rejected "p2p_proof_already_admitted", s)

/-! ## §4. Inbound settlements -/

structure VerifiedSettlement where
  taskId : String
  settlementId : String
  originRelay : String
  grossAmount : Int
  receiptHash : String
  deriving DecidableEq

/-- `Math.round`: halves go up. -/
def mathRound (x : ℚ) : Int := ⌊x + 1 / 2⌋

def feeOf (platformFeeRate : ℚ) (grossAmount : Int) : Int := mathRound (grossAmount * platformFeeRate)

def netOf (platformFeeRate : ℚ) (grossAmount : Int) : Int :=
  grossAmount - feeOf platformFeeRate grossAmount

/-- Whom the settlement pays and for which receipt. -/
structure Payee where
  workerId : Option String
  receiptSignature : Option String
  deriving DecidableEq

/-- The archived answer of a task the queue forgot, unless this relay admitted the task. -/
def archivedPayee (taskId : String) (s : Executor) : Payee :=
  match s.answers taskId with
  | none => ⟨none, none⟩
  | some answer =>
    let ownAdmission := s.routes.any fun r => r.taskId = taskId ∧ r.origin = .admission
    let claimed := match answer.settling with
      | some sig => sig ≠ ""
      | none => false
    ⟨if claimed && !ownAdmission then some answer.executorId else none, answer.settling⟩

/-- The first turn of `onSettlementReceived`: the worker from the queue entry (an answer stored
    before the claim existed adopts it now), or from the archive. -/
def resolvePayee (taskId : String) (s : Executor) : Except ExecutorFault (Payee × Executor) :=
  match s.get taskId with
  | none => .ok (archivedPayee taskId s, s)
  | some entry =>
    if entry.receipt.isSome && !isClaimed entry then
      match claimStoredAnswer taskId .resultPost s.tasks with
      | .error fault => .error (.queue fault)
      | .ok (claimed, t) =>
        let workerEntry := claimed.getD entry
        .ok (⟨some workerEntry.task.motebitId, workerEntry.settling⟩, s.afterTasks t)
    else .ok (⟨some entry.task.motebitId, entry.settling⟩, s)

/-- The credit an inbound settlement writes, if it names a worker and an amount. -/
def creditRows (row : FederationRow) (worker : Option String) : List SettlementCredit :=
  match worker with
  | none => []
  | some w =>
    if 0 < row.netAmount then
      [⟨w, row.netAmount, row.settlementId, "Federated settlement for task " ++ row.taskId⟩]
    else []

/-- `recordInboundFederatedSettlement`: the row and its credit, under the settlement guards, the
    freeze and the primary key (`INSERT OR IGNORE`); whether the row was new. -/
def recordInboundFederatedSettlement (row : FederationRow) (worker : Option String)
    (s : Executor) : Except ExecutorFault (Bool × Executor) :=
  if row.downstreamRelayId.isSome then .error (.error "inbound settlements have no downstream relay")
  else
    match s.allocations.find? fun a => a.1 = row.taskId with
    | some alloc =>
      .error (.error ("inbound settlement for task " ++ row.taskId ++ " which holds local escrow ("
        ++ alloc.2 ++ ")"))
    | none =>
      if s.federation.any fun r => r.taskId = row.taskId ∧ r.upstreamRelayId = row.upstreamRelayId
      then .ok (false, s)
      else if s.frozen then .error .emergencyFrozen
      else
        match insertSettlement .relayFederationSettlements (Executor.settlementRow row) s.tasks with
        | .error fault => .error (.queue fault)
        | .ok _ =>
          if s.federation.any fun r => r.settlementId = row.settlementId then .ok (false, s)
          else .ok (true, { s with
            federation := s.federation ++ [row]
            credits := s.credits ++ creditRows row worker })

/-- The row `onSettlementReceived` writes: the final hop, for the worker it resolved. -/
def inboundRow (platformFeeRate : ℚ) (m : VerifiedSettlement) (payee : Payee) : FederationRow where
  settlementId := m.settlementId
  taskId := m.taskId
  upstreamRelayId := m.originRelay
  downstreamRelayId := none
  agentId := payee.workerId
  grossAmount := m.grossAmount
  feeAmount := feeOf platformFeeRate m.grossAmount
  netAmount := netOf platformFeeRate m.grossAmount
  receiptHash := m.receiptHash
  receiptSignature := payee.receiptSignature

/-- The last turn of `onSettlementReceived`: a re-delivered forward is a no-op. -/
def recordSettlement (platformFeeRate : ℚ) (m : VerifiedSettlement) (payee : Payee)
    (s : Executor) : Except ExecutorFault ((Int × Int) × Executor) :=
  let amounts := (feeOf platformFeeRate m.grossAmount, netOf platformFeeRate m.grossAmount)
  if s.federation.any fun r => r.taskId = m.taskId ∧ r.upstreamRelayId = m.originRelay then
    .ok (amounts, s)
  else
    match recordInboundFederatedSettlement (inboundRow platformFeeRate m payee) payee.workerId s with
    | .error fault => .error fault
    | .ok (_, s') => .ok (amounts, s')

section

variable {σ Req : Type} {Resp : Req → Type}

/-- `onSettlementReceived`, over any store that holds the executor's tables: `turn` and `commit`
    are one turn on them, `sign` the await of the record's signature. -/
def onSettlementReceived (platformFeeRate : ℚ)
    (turn : (Executor → Except ExecutorFault (Payee × Executor)) →
      Task σ Req Resp ExecutorFault Payee)
    (sign : Task σ Req Resp ExecutorFault Unit)
    (commit : Payee → (Executor → Except ExecutorFault ((Int × Int) × Executor)) →
      Task σ Req Resp ExecutorFault (Int × Int))
    (m : VerifiedSettlement) : Task σ Req Resp ExecutorFault (Int × Int) := do
  let payee ← turn (resolvePayee m.taskId)
  sign
  commit payee (recordSettlement platformFeeRate m payee)

end

end Motebit.Federation
