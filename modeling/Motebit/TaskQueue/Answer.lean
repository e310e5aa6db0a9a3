/-
  Motebit.TaskQueue.Answer — A TASK'S ANSWER (services/relay/src/task-answer.ts) and the
  recovery that replays it (settlement-recovery.ts).

  Every door a receipt enters by runs `admitReceipt`: read the entry, await the signature check,
  decide and write the answer in one turn, await the settlement step, mark the entry settled.
  Any number of such calls run interleaved over the durable queue, for any tasks and receipts;
  the process may die at any await.
-/

import Motebit.Lib.Run
import Motebit.TaskQueue.Queue

namespace Motebit.TaskQueue

open Motebit.Lib

/-! ## §1. The write-once rule -/

/-- Does `row` name `receipt`?  By signature; a row written before the signature column existed,
    by the hash its writer recorded. -/
def rowNames (row : SettlementRow) (receipt : ExecutionReceipt) : Bool :=
  match row.receiptSignature with
  | some sig => sig = receipt.signature
  | none => row.receiptHash ≠ "" &&
      (row.receiptHash = receipt.resultHash || row.receiptHash = receipt.signature)

def isClaimed (entry : TaskQueueEntry) : Bool :=
  match entry.settling with
  | some sig => sig ≠ ""
  | none => false

/-- An entry's answer is frozen once its settlement is claimed or done, or once any settlement
    row names the task. -/
def answerFrozen (s : Store) (entry : TaskQueueEntry) (taskId : String) : Bool :=
  entry.settled = some true || isClaimed entry || settlementRowsFor s taskId ≠ []

inductive Ruling
  | take
  | replace
  | repeated
  | answered
  deriving DecidableEq

/-- May `incoming` become the answer of an entry that holds `prior`? -/
def answerRule (prior : Option ExecutionReceipt) (frozen : Bool) (incoming : ExecutionReceipt) :
    Ruling :=
  match prior with
  | some p =>
    if p.signature = incoming.signature ∧ p.motebitId = incoming.motebitId then .repeated
    else if frozen then .answered
    else if p.status ≠ .completed ∧ incoming.status = .completed then .replace
    else .answered
  | none => if frozen then .answered else .take

/-! ## §2. Verdicts -/

inductive AnswerRefusal
  | gone
  | notBound
  | notPayee
  | notPinnedExecutor
  | notRouted
  | noKey
  | badSignature
  | answered
  | claimedByOther
  deriving DecidableEq

inductive AnswerVerdict
  | took (entry : TaskQueueEntry) (first replaced repeated : Bool) (publicKeyHex : String)
  | refused (refusal : AnswerRefusal) (answer : Option ExecutionReceipt)
  deriving DecidableEq

/-- Who presents a result POST: the device token's `did`, absent under the master token. -/
structure AnswerPresenter where
  did : Option String
  deriving DecidableEq

/-- The device a result POST answers for, against the entry as it is now. -/
def answeringDid (current : TaskQueueEntry) (presenter : AnswerPresenter)
    (receipt : ExecutionReceipt) : Option String :=
  match presenter.did with
  | some did => some did
  | none => if claimBindsSignedAnswerer current then some (receipt.deviceId.getD "") else none

/-! ## §3. Routes -/

/-- The recorded executors of `taskId` whose hand-off was of `origin`. -/
def taskRoutes (s : Store) (taskId : String) (origin : TaskRouteOrigin) : List TaskRoute :=
  s.routes.filter fun r => r.taskId = taskId ∧ r.origin = origin

def admittedBeforeTaskRoutes (s : Store) (submittedAt : Nat) : Bool :=
  match s.taskRoutesEpoch with
  | none => false
  | some epoch => submittedAt < epoch

/-- May a receipt signed by `signer`, arriving through `viaPeer`, answer `taskId`?  `legacy` is
    the task's own agent and its submission time. -/
def isRoutedExecutor (s : Store) (taskId signer viaPeer : String) (legacy : Option (String × Nat))
    (origin : TaskRouteOrigin) : Bool :=
  match taskRoutes s taskId origin with
  | [] =>
    match legacy with
    | none => false
    | some (executor, submittedAt) =>
      viaPeer = "" && signer = executor && admittedBeforeTaskRoutes s submittedAt
  | routes => routes.any fun r => r.executorId = signer && r.viaPeer = viaPeer

/-- A P2P task admitted before the routing record existed carries its route in its admission. -/
def admittedRoute (s : Store) (entry : TaskQueueEntry) (viaPeer : String) : Bool :=
  entry.settlementMode = some .p2p &&
    (entry.p2pAdmission.bind (·.plannedPeer) = some viaPeer) &&
    admittedBeforeTaskRoutes s entry.task.submittedAt

def routed (s : Store) (taskId : String) (entry : TaskQueueEntry) (signer : String) :
    AnswerDoor → Bool
  | .federationResult viaPeer _ =>
    (taskRoutes s taskId .admission = [] && admittedRoute s entry viaPeer) ||
      isRoutedExecutor s taskId signer viaPeer none .admission
  | _ =>
    isRoutedExecutor s taskId signer "" (some (entry.task.motebitId, entry.task.submittedAt))
      (if entry.originRelay.isSome then .inboundForward else .admission)

/-- Steps 1 to 3 of `answerTask`, on the entry as it is read first. -/
def answerPrecheck (taskId : String) (receipt : ExecutionReceipt) (door : AnswerDoor)
    (s : Store) : Option AnswerRefusal :=
  match s.get taskId with
  | none => some .gone
  | some entry =>
    if receiptRelayTaskId receipt ≠ taskId then some .notBound
    else if entry.settlementMode = some .p2p ∧ receiptDischargesP2p entry receipt.motebitId = false
    then some .notPayee
    else if pinRefusesAnswer entry receipt.motebitId then some .notPinnedExecutor
    else if routed s taskId entry receipt.motebitId door = false then some .notRouted
    else none

/-! ## §4. The write step -/

/-- The write that takes an answer: it claims the answer's settlement too. -/
def takeAnswer (receipt : ExecutionReceipt) (door : AnswerDoor) (until_ : Nat)
    (e : TaskQueueEntry) : TaskQueueEntry :=
  { e with
    receipt := some receipt
    task := { e.task with status := statusOf receipt }
    expiresAt := max e.expiresAt until_
    settling := some receipt.signature
    settleVia := some door }

def claimAnswer (signature : String) (door : AnswerDoor) (e : TaskQueueEntry) : TaskQueueEntry :=
  { e with settling := some signature, settleVia := some door }

/-- An entry with no answer whose task a settlement row names takes exactly the receipt every row
    settled, settled in the same write. -/
def adoptAnswer (taskId : String) (receipt : ExecutionReceipt) (door : AnswerDoor)
    (retainMs : Nat) (key : String) (current : TaskQueueEntry) (s : Store) :
    Except QueueFault (AnswerVerdict × Store) :=
  if (settlementRowsFor s taskId).all (rowNames · receipt) &&
      (current.settling = none || current.settling = some receipt.signature) then do
    match ← writeAnswer taskId current.answerVersion
        (fun e => { takeAnswer receipt door (s.now + retainMs) e with settled := some true }) s with
    | (none, s') => return (.refused .answered none, s')
    | (some adopted, s') => return (.took adopted true false false key, s')
  else .ok (.refused .answered none, s)

/-- The write-once rule applied to the entry as it is now. -/
def applyRule (taskId : String) (receipt : ExecutionReceipt) (door : AnswerDoor)
    (retainMs : Nat) (key : String) (current : TaskQueueEntry) (s : Store) :
    Except QueueFault (AnswerVerdict × Store) :=
  match answerRule current.receipt (answerFrozen s current taskId) receipt with
  | .answered => .ok (.refused .answered current.receipt, s)
  | .repeated =>
    if current.settled ≠ some true ∧ current.settling = none then do
      let (written, s') ← writeAnswer taskId current.answerVersion
        (claimAnswer receipt.signature door) s
      return (.took (written.getD current) false false true key, s')
    else .ok (.took current false false true key, s)
  | rule => do
    match ← writeAnswer taskId current.answerVersion
        (takeAnswer receipt door (s.now + retainMs)) s with
    | (none, s') => return (.refused .answered none, s')
    | (some written, s') => return (.took written (rule = .take) (rule = .replace) false key, s')

/-- Step 5 of `answerTask`: decided and written against the entry as it is now. -/
def answerWrite (taskId : String) (receipt : ExecutionReceipt) (door : AnswerDoor)
    (retainMs : Nat) (presenter : Option AnswerPresenter) (key : String) (s : Store) :
    Except QueueFault (AnswerVerdict × Store) :=
  match s.get taskId with
  | none => .ok (.refused .gone none, s)
  | some current =>
    -- a claim granted while this answer awaited its signature check refuses it
    if (presenter.map fun p => claimRefusesAnswer current (answeringDid current p receipt))
        = some true then
      .ok (.refused .claimedByOther none, s)
    else if current.receipt = none ∧ settlementRowsFor s taskId ≠ [] then
      adoptAnswer taskId receipt door retainMs key current s
    else applyRule taskId receipt door retainMs key current s

/-- Mark `taskId` settled, only when its settlement claim names `receiptSignature`. -/
def markTaskSettled (taskId receiptSignature : String) (s : Store) :
    Except QueueFault (Unit × Store) :=
  match s.get taskId with
  | none => .ok ((), s)
  | some current =>
    if current.settled = some true then .ok ((), s)
    else if current.settling ≠ some receiptSignature then .ok ((), s)
    else do
      let (_, s') ← writeAnswer taskId current.answerVersion
        (fun e => { e with settled := some true, settling := some receiptSignature }) s
      return ((), s')

/-- An entry answered before the settlement claim existed adopts the claim for its stored
    answer. -/
def claimStoredAnswer (taskId : String) (door : AnswerDoor) (s : Store) :
    Except QueueFault (Option TaskQueueEntry × Store) :=
  match s.get taskId with
  | none => .ok (none, s)
  | some current =>
    match current.receipt with
    | none => .ok (none, s)
    | some receipt =>
      if isClaimed current then .ok (some current, s)
      else do
        let (claimed, s') ← writeAnswer taskId current.answerVersion
          (claimAnswer receipt.signature door) s
        return (claimed.or (s'.get taskId), s')

/-! ## §5. Doors -/

/-- What a settlement step decides to write, if it does not fail first. -/
structure SettlePlan where
  insert : Option (SettlementTable × String)
  deriving DecidableEq

/-- What a door waits for: the signature check, the settlement step up to its write, and the
    rest of it. -/
inductive Wait
  | verify (taskId : String) (receipt : ExecutionReceipt) (door : AnswerDoor)
  | settle (taskId : String) (receipt : ExecutionReceipt)
  | settled (taskId : String) (receipt : ExecutionReceipt)
  deriving DecidableEq

/-- The key a signature verified under or the refusal; the plan, or a throw; whether the
    settlement decision is complete. -/
abbrev Heard : Wait → Type
  | .verify _ _ _ => Except AnswerRefusal String
  | .settle _ _ => Option SettlePlan
  | .settled _ _ => Bool

abbrev Work (α : Type) := Task Store Wait Heard QueueFault α

/-- Decide, and when it takes, write the answer of `taskId`. -/
def answerTask (taskId : String) (receipt : ExecutionReceipt) (door : AnswerDoor)
    (retainMs : Nat) (presenter : Option AnswerPresenter) : Work AnswerVerdict := do
  match ← Task.read (answerPrecheck taskId receipt door) with
  | some refusal => return .refused refusal none
  | none =>
    if receipt.signature = "" then return .refused .badSignature none
    else
      match ← Task.ask (Wait.verify taskId receipt door) with
      | .error refusal => return .refused refusal none
      | .ok key => Task.txn (answerWrite taskId receipt door retainMs presenter key)

/-- A settlement row already naming the task means it settled: marked, never written twice. -/
def settleIfNamed (taskId signature : String) (s : Store) : Except QueueFault (Bool × Store) :=
  if settlementRowsFor s taskId ≠ [] then do
    let (_, s') ← markTaskSettled taskId signature s
    return (true, s')
  else .ok (false, s)

/-- A door's settlement step: it inserts at most one settlement row, for its own receipt. -/
def settleStep (taskId : String) (receipt : ExecutionReceipt) : Work Bool := do
  match ← Task.ask (Wait.settle taskId receipt) with
  | none => throw .settlementStep
  | some plan =>
    match plan.insert with
    | none => pure ()
    | some (table, hash) =>
      Task.txn fun s => (insertSettlement table ⟨taskId, some receipt.signature, hash⟩ s).map ((), ·)
    Task.ask (Wait.settled taskId receipt)

inductive Admission
  | took (receipt : ExecutionReceipt) (alreadySettled settled : Bool)
  | refused (refusal : AnswerRefusal)
  deriving DecidableEq

def settleAnswer (taskId : String) (entry : TaskQueueEntry) : Work Admission := do
  match entry.receipt with
  | none => return .refused .answered
  | some answer =>
    if entry.settled = some true then return .took answer true true
    else if entry.settling ≠ some answer.signature then return .refused .answered
    else if pinRefusesSettlement entry answer.motebitId then return .refused .notPinnedExecutor
    else if ← Task.txn (settleIfNamed taskId answer.signature) then return .took answer true true
    else do
      let done ← Task.catching (settleStep taskId answer) fun _ => pure false
      if done then Task.txn (markTaskSettled taskId answer.signature)
      return .took answer false done

/-- The door routine: every door a receipt enters by admits it here. -/
def admitReceipt (taskId : String) (receipt : ExecutionReceipt) (door : AnswerDoor)
    (retainMs : Nat) (presenter : Option AnswerPresenter) : Work Admission := do
  match ← answerTask taskId receipt door retainMs presenter with
  | .refused refusal _ => return .refused refusal
  | .took entry _ _ _ _ => settleAnswer taskId entry

/-! ## §6. Recovery -/

def claimedUnsettled (e : TaskQueueEntry) : Bool :=
  match e.receipt with
  | some receipt =>
    e.settled ≠ some true && isClaimed e && e.settling = some receipt.signature
  | none => false

/-- The entry's own answer, again through a local door. -/
def replayLocalAnswer (taskId : String) (door : AnswerDoor) (retainMs : Nat) : Work Unit := do
  match ← Task.read (fun s => (s.get taskId).bind (·.receipt)) with
  | none => pure ()
  | some receipt => discard (admitReceipt taskId receipt door retainMs none)

/-- Replay `entry`'s own answer through the door its claim was taken by. -/
def replay (taskId : String) (receipt : ExecutionReceipt) (retainMs : Nat) : AnswerDoor → Work Unit
  | .federationResult viaPeer peerKey =>
    discard (admitReceipt taskId receipt (.federationResult viaPeer peerKey) retainMs none)
  | .subReceipt parentTaskId => do
    match ← Task.read (fun s => s.get parentTaskId) with
    | some parent =>
      if parent.receipt.isSome then
        replayLocalAnswer parentTaskId
          (if parent.settleVia = some .mcpForward then .mcpForward else .resultPost) retainMs
    | none => pure ()
    if ← Task.read (fun s => decide ((s.get taskId).bind (·.settled) = some true)) then pure ()
    else replayLocalAnswer taskId .resultPost retainMs
  | door => replayLocalAnswer taskId door retainMs

/-- One step of a recovery pass. -/
def replayClaim (taskId : String) (retainMs : Nat) : Work Unit := do
  match ← Task.read (fun s => s.get taskId) with
  | none => pure ()
  | some entry =>
    match entry.receipt with
    | none => pure ()
    | some receipt =>
      if claimedUnsettled entry then
        Task.catching (replay taskId receipt retainMs (entry.settleVia.getD .resultPost))
          fun _ => pure ()

/-! ## §7. The relay -/

/-- What else happens: time passes; an admission enqueues a new task; another module writes an
    entry's non-answer fields; routes are written; the queue is swept. -/
inductive Background : Store → Store → Prop
  | tick (s : Store) (now : Nat) (h : s.now ≤ now) : Background s { s with now := now }
  | enqueue (s s' : Store) (taskId : String) (entry : TaskQueueEntry) (hid : taskId ≠ "")
      (hnew : taskId ∉ s.issued) (hset : set taskId entry s = .ok s') : Background s s'
  | update (s s' : Store) (taskId : String) (entry : TaskQueueEntry)
      (hqueued : (s.get taskId).isSome) (hset : set taskId entry s = .ok s') : Background s s'
  | route (s : Store) (routes : List TaskRoute) : Background s { s with routes := routes }
  | cleanup (s : Store) : Background s (cleanup s.now s)
  | evict (s : Store) (maxSize : Nat) : Background s (evict maxSize s)

/-- A receipt at any door, a stored answer claimed, or a recovery replay. -/
inductive Arrives (t : Nat) : Prog Store Wait Heard Unit → Prop
  | door (taskId : String) (receipt : ExecutionReceipt) (door : AnswerDoor) (retainMs : Nat)
      (presenter : Option AnswerPresenter) :
      Arrives t (admitReceipt taskId receipt door retainMs presenter).detach
  | claim (taskId : String) (door : AnswerDoor) :
      Arrives t (Task.txn (claimStoredAnswer taskId door) : Work _).detach
  | recover (taskId : String) (retainMs : Nat) : Arrives t (replayClaim taskId retainMs).detach

def Store.empty (now : Nat) (epoch : Option Nat) : Store :=
  ⟨now, ∅, fun _ => none, [], [], [], epoch, []⟩

def relay : World Store Wait Heard where
  init s := ∃ now epoch, s = Store.empty now epoch
  entry := Arrives
  answer s _ _ s' := s' = s
  env := Background
  crash s s' := s' = s

end Motebit.TaskQueue
