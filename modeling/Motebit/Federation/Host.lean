/-
  Motebit.Federation.Host — ONE EXECUTOR RELAY AND ITS PEERS: the task-forward and
  settlement-forward routes (services/relay/src/federation.ts) beside the relay's own admissions,
  its workers' answers and its queue's retention.

  Peers choose any task ids, settlement ids and amounts; only who sent a message is certain.  The
  histories say which peer's forward put a task here and for which agent, which tasks this relay
  admitted itself, which answers were taken, and whether a message ever trespassed: a settlement
  of a task that was not its sender's, of a settlement id that was not its sender's, of a task the
  queue forgot unanswered in the meantime, or a forward of an id that already meant something.
-/

import Motebit.Federation.Inbound
import Motebit.TaskQueue.AnswerInvariant

namespace Motebit.Federation

open Motebit.Lib
open Motebit.TaskQueue

/-! ## §1. Histories -/

/-- A peer's forward put a task here, for an agent. -/
structure Placed where
  taskId : String
  peer : String
  agent : String
  deriving DecidableEq

/-- The executor and its histories; `checked` are the receipts whose doors passed their checks
    and wait to write. -/
structure Hosted where
  executor : Executor
  forwarded : List Placed
  admitted : List String
  checked : List (String × ExecutionReceipt)
  answered : List (String × ExecutionReceipt)
  trespassed : Bool

/-- The relay's id, fee rate and limits, and which relay drew each settlement id. -/
structure Host where
  relayMotebitId : String
  rate : ℚ
  limits : QueueLimits
  mintedBy : String → String

/-- The task was admitted here or forwarded by another peer, the settlement id is another
    relay's, or the task was read unanswered and is gone. -/
def Host.trespass (H : Host) (m : VerifiedSettlement) (payee : Payee) (s : Hosted) : Bool :=
  m.taskId ∈ s.admitted ||
    s.forwarded.any (fun p => p.taskId = m.taskId ∧ p.peer ≠ m.originRelay) ||
    H.mintedBy m.settlementId ≠ m.originRelay ||
    (payee.workerId.isSome && payee.receiptSignature.isNone && !knownTask s.executor.tasks m.taskId)

/-- The id was held here before, or another peer has settled it. -/
def reuses (task : ForwardedTask) (s : Hosted) : Bool :=
  task.taskId ∈ s.executor.issued ||
    s.executor.federation.any fun r =>
      r.taskId = task.taskId ∧ r.upstreamRelayId ≠ task.originRelay

/-! ## §2. The routes -/

inductive HostWait
  | verify
  | agent
  | sign
  deriving DecidableEq

/-- A verification may refuse, the agent may be missing, a signature may fail. -/
abbrev HostHeard : HostWait → Type
  | .verify => Option ExecutorFault
  | .agent => Bool
  | .sign => Option String

abbrev HostWork (α : Type) := Task Hosted HostWait HostHeard ExecutorFault α

/-- `verifyFederationRequest` and the rate limit. -/
def verifyRequest : HostWork Unit := do
  match ← Task.ask HostWait.verify with
  | some fault => throw fault
  | none => pure ()

/-- The outcome left a task in the queue. -/
def ForwardOutcome.placed : ForwardOutcome → Bool
  | .routed | .pending => true
  | .duplicate | .rejected _ => false

def placeTask (H : Host) (task : ForwardedTask) (socketOpen : Bool) (s : Hosted) :
    Except ExecutorFault (ForwardOutcome × Hosted) :=
  match onTaskForwarded H.limits task socketOpen s.executor with
  | .error fault => .error fault
  | .ok (outcome, e) =>
    if outcome.placed then
      .ok (outcome, { s with
        executor := e
        forwarded := ⟨task.taskId, task.originRelay, task.targetAgent⟩ :: s.forwarded
        trespassed := s.trespassed || reuses task s })
    else .ok (outcome, { s with executor := e })

/-- `POST /federation/v1/task/forward`. -/
def taskForward (H : Host) (task : ForwardedTask) (socketOpen : Bool) : HostWork ForwardOutcome := do
  if task.taskId = "" ∨ task.originRelay = "" ∨ task.targetAgent = "" then
    throw (.http 400 "Missing required fields")
  else do
    verifyRequest
    if ← Task.ask HostWait.agent then Task.txn (placeTask H task socketOpen)
    else throw (.http 404 "Target agent not found on this relay")

def hostTurn {β : Type} (f : Executor → Except ExecutorFault (β × Executor)) : HostWork β :=
  Task.txn fun s =>
    match f s.executor with
    | .ok (b, e) => .ok (b, { s with executor := e })
    | .error fault => .error fault

def hostSign : HostWork Unit := do
  match ← Task.ask HostWait.sign with
  | some _ => throw .unsigned
  | none => pure ()

/-- The turn that records a settlement; the history notes a trespass. -/
def hostCommit (H : Host) (m : VerifiedSettlement) (payee : Payee)
    (f : Executor → Except ExecutorFault ((Int × Int) × Executor)) : HostWork (Int × Int) :=
  Task.txn fun s =>
    match f s.executor with
    | .ok (amounts, e) =>
      .ok (amounts, { s with
        executor := e
        trespassed := s.trespassed || H.trespass m payee s })
    | .error fault => .error fault

/-- `POST /federation/v1/settlement/forward`. -/
def settlementReceived (H : Host) (m : VerifiedSettlement) : HostWork (Int × Int) := do
  if m.taskId = "" ∨ m.settlementId = "" ∨ m.originRelay = "" then
    throw (.http 400 "Missing required fields")
  else do
    verifyRequest
    onSettlementReceived H.rate hostTurn hostSign (hostCommit H m) m

/-! ## §3. What else the relay does -/

/-- The agent, its pin and the forwarding relay of an entry. -/
def SameTask (e e' : TaskQueueEntry) : Prop :=
  e'.originRelay = e.originRelay ∧ e'.task.motebitId = e.task.motebitId ∧
    e'.pinnedExecutor = e.pinnedExecutor

/-- The tables but for the queue, the archive, and the federated settlements with their
    credits. -/
structure SameTasks (e e' : Executor) : Prop where
  queue : e'.queue = e.queue
  answers : e'.answers = e.answers
  issued : e'.issued = e.issued
  federation : e'.federation = e.federation
  credits : e'.credits = e.credits

/-- An answer written: the history holds it once the entry does. -/
def takenAnswer (taskId : String) (receipt : ExecutionReceipt) (t : TaskQueue.Store)
    (s : Hosted) : Hosted :=
  { s with
    executor := s.executor.afterTasks t
    answered := if (t.get taskId).bind (·.receipt) = some receipt then
      (taskId, receipt) :: s.answered else s.answered }

/-- A change of the queue and the archive. -/
def Hosted.withTasks (s : Hosted) (t : TaskQueue.Store) : Hosted :=
  { s with executor := s.executor.afterTasks t }

inductive Around (H : Host) : Hosted → Hosted → Prop
  /-- Time, the freeze, routes, other tables. -/
  | tables (s : Hosted) (e : Executor) (hsame : SameTasks s.executor e) :
      Around H s { s with executor := e }
  /-- This relay admits a task under an id it draws. -/
  | admission (s : Hosted) (taskId : String) (entry : TaskQueueEntry) (t : TaskQueue.Store)
      (hid : taskId ≠ "") (hnew : taskId ∉ s.executor.issued)
      (hunseen : ∀ r ∈ s.executor.federation, r.taskId ≠ taskId)
      (hown : entry.originRelay = none) (hset : TaskQueue.set taskId entry s.executor.tasks = .ok t) :
      Around H s { s.withTasks t with admitted := taskId :: s.admitted }
  /-- Another module rewrites an entry's other fields. -/
  | update (s : Hosted) (taskId : String) (stored entry : TaskQueueEntry) (t : TaskQueue.Store)
      (hget : s.executor.get taskId = some stored) (hsame : SameTask stored entry)
      (hset : TaskQueue.set taskId entry s.executor.tasks = .ok t) : Around H s (s.withTasks t)
  /-- A door's checks pass; it goes on to verify the signature. -/
  | check (s : Hosted) (taskId : String) (receipt : ExecutionReceipt) (door : AnswerDoor)
      (hok : answerPrecheck taskId receipt door s.executor.tasks = none) :
      Around H s { s with checked := (taskId, receipt) :: s.checked }
  /-- A door writes its answer. -/
  | answer (s : Hosted) (taskId : String) (receipt : ExecutionReceipt) (door : AnswerDoor)
      (retainMs : Nat) (presenter : Option AnswerPresenter) (key : String) (v : AnswerVerdict)
      (t : TaskQueue.Store) (hchecked : (taskId, receipt) ∈ s.checked)
      (hwrite : answerWrite taskId receipt door retainMs presenter key s.executor.tasks = .ok (v, t)) :
      Around H s (takenAnswer taskId receipt t s)
  | settled (s : Hosted) (taskId signature : String) (t : TaskQueue.Store)
      (hmark : markTaskSettled taskId signature s.executor.tasks = .ok ((), t)) :
      Around H s (s.withTasks t)
  | claim (s : Hosted) (taskId : String) (door : AnswerDoor) (r : Option TaskQueueEntry)
      (t : TaskQueue.Store) (hclaim : claimStoredAnswer taskId door s.executor.tasks = .ok (r, t)) :
      Around H s (s.withTasks t)
  /-- This relay forwards the settlement of a task of its own. -/
  | sent (s : Hosted) (row : FederationRow) (hown : row.taskId ∈ s.admitted)
      (hdown : row.downstreamRelayId.isSome) (hagent : row.agentId = none)
      (hup : row.upstreamRelayId = H.relayMotebitId)
      (hmint : H.mintedBy row.settlementId = H.relayMotebitId)
      (hnew : ∀ r ∈ s.executor.federation, r.settlementId ≠ row.settlementId ∧
        ¬(r.taskId = row.taskId ∧ r.upstreamRelayId = row.upstreamRelayId)) :
      Around H s { s with executor := { s.executor with
        federation := s.executor.federation ++ [row] } }
  | cleanup (s : Hosted) : Around H s (s.withTasks (TaskQueue.cleanup s.executor.now s.executor.tasks))
  | evict (s : Hosted) (maxSize : Nat) :
      Around H s (s.withTasks (TaskQueue.evict maxSize s.executor.tasks))
  /-- An archived answer ages out. -/
  | prune (s : Hosted) (taskId : String) :
      Around H s { s with executor := { s.executor with
        answers := Function.update s.executor.answers taskId none } }

/-- A peer's message, on either route. -/
inductive Receives (H : Host) (t : Nat) : Prog Hosted HostWait HostHeard Unit → Prop
  | task (task : ForwardedTask) (socketOpen : Bool) :
      Receives H t (taskForward H task socketOpen).detach
  | settlement (m : VerifiedSettlement) : Receives H t (settlementReceived H m).detach

/-- Nothing queued, archived, settled or remembered. -/
structure Vacant (s : Hosted) : Prop where
  queue : s.executor.queue = ∅
  answers : s.executor.answers = fun _ => none
  issued : s.executor.issued = []
  federation : s.executor.federation = []
  credits : s.executor.credits = []
  histories : s.forwarded = [] ∧ s.admitted = [] ∧ s.checked = [] ∧ s.answered = []
  trespassed : s.trespassed = false

def host (H : Host) : World Hosted HostWait HostHeard where
  init := Vacant
  entry := Receives H
  answer s _ _ s' := s' = s
  env := Around H
  crash s s' := s' = { s with checked := [] }

end Motebit.Federation
