/-
  Motebit.Disputes.Routes — THE DISPUTE ROUTES AND THE DEFERRED WORKER
  (services/relay/src/disputes.ts, dispute-orchestration.ts).

  Filing, `/resolve`, `/appeal`, the dispute read and the worker's poll cycle, as tasks whose
  steps are single statements and transactions: any number of processes share the database, so
  anything may happen between two of them.  The in-process lock of `/resolve` only merges calls
  of one process and is not needed here.
-/

import Motebit.Disputes.FundAction
import Motebit.Lib.Run

namespace Motebit.Disputes

open Motebit.Lib
open Motebit.Accounts (DisputeState disputeWindowMs)

/-! ## §1. Awaits -/

inductive Verification
  | notRegistered | invalid | valid
  deriving DecidableEq

inductive Wait
  /-- The filer's or appellant's signature. -/
  | verify
  /-- `signDisputeResolution`. -/
  | signResolution
  /-- Whether the database takes the round-1 transaction. -/
  | commit
  /-- Building and signing the vote request. -/
  | signVoteRequest
  | fanout (door : Door) (disputeId : String) (round : Round)
      (persisted : List AdjudicatorVote) (contacted : List String)

abbrev Heard : Wait → Type
  | .verify => Verification
  | .signResolution => Option String
  | .commit => Bool
  | .signVoteRequest => Bool
  | .fanout .. => String → PeerAnswer

abbrev Work (α : Type) := Task Store Wait Heard Fault α

/-! ## §2. Filing -/

def EVIDENCE_WINDOW_MS : Nat := 48 * 60 * 60 * 1000

def APPEAL_WINDOW_MS : Nat := 24 * 60 * 60 * 1000

def FILED_AT_SKEW_MS : Nat := 15 * 60 * 1000

def MAX_ACTIVE_DISPUTES_PER_AGENT : Nat := 3

def OPENED_EXPIRE_MS : Nat := 60 * 60 * 1000

def skewed (a b : Nat) : Bool := FILED_AT_SKEW_MS < (a - b) + (b - a)

/-- A verified `DisputeRequest`, with its JSON text. -/
structure DisputeRequest where
  disputeId : String
  taskId : String
  allocationId : String
  filedBy : String
  respondent : String
  filedAt : Nat
  bodyJson : String
  deriving DecidableEq

section

variable (R : Relay)

/-- `allocationDelegator`: from the settlement once settled, else the sole hold payer. -/
def allocationDelegator (allocationId : String) (s : Store) : Option String :=
  let settled := s.escrow.settlements.find? fun row => row.allocationId == allocationId
  match settled.bind fun row => R.settlementDelegator row.settlementId with
  | some delegator => some delegator
  | none => s.escrow.allocationHoldPayer allocationId

/-- `filer_role`, and the party the respondent must be. -/
def filerRole (filedBy worker delegator : String) : Option (FilerRole × String) :=
  if filedBy = worker then some (.worker, delegator)
  else if filedBy = delegator then some (.delegator, worker)
  else none

/-- What the checks of a filing settle on; `status = none` for a p2p dispute. -/
structure FilingTerms where
  receivedAt : Nat
  amountLocked : Int
  status : Option AllocationStatus
  role : FilerRole
  deriving DecidableEq

/-- The filer is a party and the respondent is the other one. -/
def standing (req : DisputeRequest) (worker : String) (delegator : Option String) :
    Work FilerRole :=
  match delegator with
  | none => throw (.http 403
      "The delegator of this allocation cannot be established from the ledger")
  | some delegator =>
    if delegator = worker then
      throw (.http 403 "A self-delegated task has no counterparty to dispute")
    else
      match filerRole req.filedBy worker delegator with
      | none => throw (.http 403
          "Filing party must be the delegator or worker of the referenced task (dispute-v1 §4.4)")
      | some (role, counterparty) =>
        if req.respondent ≠ counterparty then
          throw (.http 403
            "Respondent must be the other party to the referenced task (dispute-v1 §4.4)")
        else pure role

/-- §4.5: a dispute of a settlement is filed within the dispute window after it. -/
def withinWindow (receivedAt : Nat) (settledAt : Option Nat) : Work Unit :=
  if settledAt.any fun at_ => at_ + disputeWindowMs < receivedAt then
    throw (.http 409 "The dispute window closed 24 hours after settlement (dispute-v1 §4.5)")
  else pure ()

/-- `SELECT MAX(settled_at) … WHERE task_id = ? AND settlement_mode = 'relay'`. -/
def lastSettledAt (taskId : String) (s : Store) : Option Nat :=
  ((s.escrow.settlements.filter fun row =>
    row.taskId == taskId && row.settlementMode == some .relay).map (·.settledAt)).max?

/-- The filing of an allocation the relay holds. -/
def allocationTerms (req : DisputeRequest) (receivedAt : Nat) (alloc : Escrow.Allocation)
    (status : AllocationStatus) : Work FilingTerms := do
  if req.taskId ≠ alloc.taskId then
    throw (.http 400 "DisputeRequest.task_id does not match the allocation's task")
  let delegator ← Task.read (allocationDelegator R alloc.allocationId)
  let role ← standing req alloc.motebitId delegator
  if status ≠ .locked ∧ status ≠ .settled then
    throw (.http 409 ("Allocation is " ++ status.text
      ++ "; only a locked or settled allocation can be disputed"))
  let settledAt ← if status = .settled then Task.read (lastSettledAt alloc.taskId) else pure none
  withinWindow receivedAt settledAt
  pure ⟨receivedAt, alloc.amountLocked, some status, role⟩

def p2pTerms (req : DisputeRequest) (receivedAt : Nat) : Work FilingTerms := do
  let settlement ← Task.read fun s => s.escrow.settlements.find? fun row =>
    row.taskId == req.taskId && row.settlementMode == some .p2p
  match settlement with
  | none => throw (.http 404 "Allocation not found")
  | some row =>
    let role ← standing req row.motebitId (R.settlementDelegator row.settlementId)
    withinWindow receivedAt (some row.settledAt)
    pure ⟨receivedAt, 0, none, role⟩

def activeDisputes (agent : String) (s : Store) : Nat :=
  s.disputes.entries.countP fun e =>
    e.2.filedBy = agent ∧ e.2.state ≠ .final ∧ e.2.state ≠ .expired

/-- Everything a filing checks before its transaction. -/
def checkFiling (allocationId : String) (req : DisputeRequest) : Work FilingTerms := do
  if req.allocationId ≠ allocationId then
    throw (.http 400 "DisputeRequest.allocation_id does not match path parameter")
  let receivedAt ← Task.read (·.now)
  if skewed req.filedAt receivedAt then
    throw (.http 400 "DisputeRequest.filed_at is more than 15 minutes from the relay's clock")
  match ← Task.ask Wait.verify with
  | Verification.notRegistered => throw (.http 401
      "Filing party is not registered; cannot verify DisputeRequest signature")
  | Verification.invalid => throw (.http 401 "DisputeRequest signature verification failed")
  | Verification.valid =>
    let existing ← Task.read (getDispute req.disputeId)
    if existing.isSome then
      throw (.http 409 "Dispute with this dispute_id already exists")
    let allocation ← Task.read fun s =>
      (s.escrow.allocation? allocationId).map fun alloc => (alloc, s.allocationStatus allocationId)
    let terms ← match allocation with
      | some (alloc, status) => allocationTerms R req receivedAt alloc status
      | none => p2pTerms R req receivedAt
    let active ← Task.read (activeDisputes req.filedBy)
    if MAX_ACTIVE_DISPUTES_PER_AGENT ≤ active then
      throw (.http 429 "Maximum 3 active disputes per agent")
    pure terms

/-- The row a filing inserts. -/
def filedDispute (req : DisputeRequest) (terms : FilingTerms) : Dispute where
  disputeId := req.disputeId
  taskId := req.taskId
  allocationId := req.allocationId
  filedBy := req.filedBy
  respondent := req.respondent
  state := .evidence
  amountLocked := terms.amountLocked
  filedAt := req.filedAt
  evidenceDeadline := terms.receivedAt + EVIDENCE_WINDOW_MS
  bodyJson := req.bodyJson
  filerRole := some terms.role
  ruling := none
  resolvedAt := none
  appealedAt := none
  finalAt := none
  expiredAt := none
  fundRefusal := none

/-- Lock the allocation and insert the dispute, each guarded. -/
def insertDispute (req : DisputeRequest) (terms : FilingTerms) (s : Store) :
    Except Fault (Unit × Store) :=
  if terms.status.any fun status => s.allocationStatus req.allocationId ≠ status then
    .error (.http 409 "Allocation changed state while filing")
  else if s.disputes.entries.any fun e => e.2.taskId = req.taskId ∧ e.2.state ≠ .expired ∧
      e.2.fundRefusal ≠ some .taskMismatch then
    .error (.http 409 "This task already has a dispute")
  else if (getDispute req.disputeId s).isSome then
    .error (.http 409 "This task already has a dispute")
  else
    let locked := match terms.status with
      | none => s.allocationStatus
      | some _ => Function.update s.allocationStatus req.allocationId .disputed
    .ok ((), { s.putDispute (filedDispute req terms) with allocationStatus := locked })

/-- `POST /api/v1/allocations/:allocationId/dispute`. -/
def fileDispute (allocationId : String) (req : DisputeRequest) : Work Unit := do
  let terms ← checkFiling R allocationId req
  Task.txn (insertDispute req terms)

/-! ## §3. Finalizing -/

def resolutionRow (verdict : Verdict) (resolvedAt : Nat) (signature : String) : DisputeResolution :=
  ⟨verdict.resolution, verdict.rationale, verdict.money, R.relayMotebitId,
    verdict.adjudicatorVotes, resolvedAt, signature⟩

/-- The appeal window expired: `resolved → final` with the fund action. -/
def finalizeResolved (d : Dispute) (row : DisputeResolution) (finalAt : Nat) (s : Store) :
    Except Fault (Bool × Store) :=
  match moveDispute d.disputeId (· == .resolved)
      (fun d => { d with state := .final, finalAt := some finalAt }) s with
  | none => .ok (false, s)
  | some s₁ => (executeFundAction R d row.money s₁).map (true, ·)

def Dispute.finalized (d : Dispute) (row : DisputeResolution) (finalAt : Nat) : Dispute :=
  { d with
    state := .final
    finalAt := some finalAt
    ruling := some row.ruling
    resolvedAt := some row.resolvedAt }

/-- The round-2 row, `appealed → final` and the fund action. -/
def finalizeAppealed (d : Dispute) (row : DisputeResolution) (finalAt : Nat) (s : Store) :
    Except Fault (Bool × Store) :=
  match moveDispute d.disputeId (· == .appealed) (·.finalized row finalAt) s with
  | none => .ok (false, s)
  | some s₁ => (executeFundAction R d row.money (insertRound2 d.disputeId row s₁)).map (true, ·)

/-- The same for a round-2 row already there. -/
def retryAppealed (d : Dispute) (row : DisputeResolution) (finalAt : Nat) (s : Store) :
    Except Fault (Bool × Store) :=
  match moveDispute d.disputeId (· == .appealed) (·.finalized row finalAt) s with
  | none => .ok (false, s)
  | some s₁ => (executeFundAction R d row.money s₁).map (true, ·)

/-- A refused fund action leaves a marker; any other failure only a log line. -/
def afterRefusal (d : Dispute) : Fault → Work Dispute
  | .fundActionRefused reason _ => do
    Task.modify (recordFundRefusal d.disputeId (some reason))
    pure { d with fundRefusal := some reason }
  | _ => pure d

/-- The dispute as it stands, or as it was read. -/
def reread (d : Dispute) : Work Dispute := do
  let now ← Task.read (getDispute d.disputeId)
  pure (now.getD d)

def tryFinalizePersistedRound2 (d : Dispute) : Work Dispute := do
  match ← Task.read fun s => s.resolutions d.disputeId .second with
  | none => pure d
  | some row =>
    let finalAt ← Task.read (·.now)
    Task.catching (do
      let _ ← Task.txn (retryAppealed R d row finalAt)
      reread d) (afterRefusal d)

/-- `resolved` past its appeal window becomes `final` on the read that finds it so. -/
def finalizeExpiredWindow (d : Dispute) (resolvedAt : Nat) : Work Dispute := do
  let now ← Task.read (·.now)
  if now ≤ resolvedAt + APPEAL_WINDOW_MS then pure d
  else
    match ← Task.read fun s => s.resolutions d.disputeId .first with
    | none => pure d
    | some row =>
      let finalAt ← Task.read (·.now)
      Task.catching (do
        let moved ← Task.txn (finalizeResolved R d row finalAt)
        if moved then pure { d with state := .final, finalAt := some finalAt }
        else reread d) (afterRefusal d)

def tryFinalizeIfWindowExpired (d : Dispute) (retryRound2 : Bool) : Work Dispute :=
  if d.state = .appealed then
    if retryRound2 then tryFinalizePersistedRound2 R d else pure d
  else if d.state ≠ .resolved then pure d
  else if d.appealedAt.isSome then pure d
  else
    match d.resolvedAt with
    | none => pure d
    | some resolvedAt => finalizeExpiredWindow R d resolvedAt

/-- What a failed round-2 transaction leaves: a refused or frozen fund action keeps the signed
    row. -/
def afterRound2Failure (d : Dispute) (row : DisputeResolution) : Fault → Work Bool
  | .emergencyFrozen => do
    Task.modify (insertRound2 d.disputeId row)
    throw .emergencyFrozen
  | .fundActionRefused reason message => do
    Task.modify (insertRound2 d.disputeId row)
    Task.modify (recordFundRefusal d.disputeId (some reason))
    throw (.http 500 ("Round-2 finalization failed: " ++ message))
  | .http _ message => throw (.http 500 ("Round-2 finalization failed: " ++ message))
  | .error message => throw (.http 500 ("Round-2 finalization failed: " ++ message))

/-- Sign and commit a round-2 verdict, on either adjudication path. -/
def commitRound2Verdict (d : Dispute) (verdict : Verdict) : Work (Nat × Nat) := do
  let resolvedAt ← Task.read (·.now)
  match ← Task.ask Wait.signResolution with
  | none => throw (.error "signing failed")
  | some signature =>
    let row := resolutionRow R verdict resolvedAt signature
    let finalAt ← Task.read (·.now)
    let moved ← Task.catching (Task.txn (finalizeAppealed R d row finalAt))
      (afterRound2Failure d row)
    if moved then pure (resolvedAt, finalAt)
    else throw (.http 409 "Dispute is no longer awaiting a round-2 verdict")

/-- The commit of thread `t`, in flight until it returns or throws. -/
def runRound2 (t : Nat) (d : Dispute) (verdict : Verdict) : Work Unit := do
  Task.modify (beginRound2 t d.disputeId)
  Task.andFinally (do
    let _ ← commitRound2Verdict R d verdict) (Task.modify (endRound2 t))

/-! ## §4. The round-1 commit -/

structure StandingRecord where
  state : Option DisputeState
  resolution : Option DisputeResolution
  deriving DecidableEq

def readStandingRecord (disputeId : String) : Work StandingRecord := do
  let dispute ← Task.read (getDispute disputeId)
  let resolution ← Task.read fun s => governing s disputeId
  pure ⟨dispute.map (·.state), resolution⟩

inductive FinalizeResult
  | persisted
  | notPersisted (standing : StandingRecord)
  deriving DecidableEq

def Dispute.resolved (d : Dispute) (row : DisputeResolution) : Dispute :=
  { d with state := .resolved, ruling := some row.ruling, resolvedAt := some row.resolvedAt }

/-- The guarded state move, then the resolution row; a row already there rolls back. -/
def commitRound1 (disputeId : String) (row : DisputeResolution) (s : Store) : Bool × Store :=
  match moveDispute disputeId (fun st => st == .evidence || st == .arbitration)
      (·.resolved row) s with
  | none => (false, s)
  | some s₁ =>
    match s.resolutions disputeId .first with
    | some _ => (false, s)
    | none => (true, s₁.putResolution disputeId .first row)

def finalizeFederationResolution (disputeId : String) (verdict : Verdict) (resolvedAt : Nat) :
    Work FinalizeResult := do
  match ← Task.ask Wait.signResolution with
  | none => throw (.error "signing failed")
  | some signature =>
    if ← Task.ask Wait.commit then
      let persisted ← Task.act (commitRound1 disputeId (resolutionRow R verdict resolvedAt signature))
      if persisted then pure .persisted
      else
        let standing ← readStandingRecord disputeId
        pure (.notPersisted standing)
    else throw (.error "the round-1 transaction failed")

/-! ## §5. The orchestrator -/

/-- `orchestrateFederationResolution`: one fan-out over the peers without a persisted vote. -/
def orchestrateFederationResolution (door : Door) (d : Dispute) (round : Round) :
    Work Verdict := do
  let peers ← Task.read (votingPeers R.relayMotebitId)
  let persisted ← Task.read (persistedVotes d.disputeId round)
  if FEDERATION_QUORUM_MIN ≤ persisted.length then
    pure (aggregateVotes persisted peers.length d.filerRole)
  else if peers.length < FEDERATION_QUORUM_MIN then
    throw (.http 503 "insufficient_federation_peers")
  else if d.bodyJson = "" then
    throw (.http 503 "legacy_dispute_no_signed_body")
  else if ← Task.ask Wait.signVoteRequest then
    let contacted := peers.filter fun p => p ∉ persisted.map (·.peerId)
    let answers ← Task.ask (Wait.fanout door d.disputeId round persisted contacted)
    let fresh := validAnswers d.disputeId round contacted answers
    Task.forEach (fun v => Task.modify (insertVote v)) fresh
    pure (aggregateVotes (persisted ++ fresh) peers.length d.filerRole)
  else throw (.error "building the vote request failed")

/-- `initOrchestration`: insert unless there is a row; a row inserted meanwhile throws. -/
def initOrchestration (disputeId : String) (round : Round) (now : Nat) : Work Unit := do
  match ← Task.read (getOrchestrationState disputeId round) with
  | some _ => pure ()
  | none =>
    Task.txn fun s =>
      if (getOrchestrationState disputeId round s).isSome then
        .error (.error "UNIQUE constraint failed: relay_dispute_orchestrations")
      else .ok ((), s.putOrchestration disputeId round (firstAttempt now))

def recordOrchestrationAttempt (disputeId : String) (round : Round) (now : Nat) :
    Work OrchestrationRow := do
  match ← Task.read (getOrchestrationState disputeId round) with
  | none => throw (.error "Cannot record attempt on missing orchestration row")
  | some current =>
    let count := current.attemptCount + 1
    Task.modify (updateOrchestration disputeId round fun row =>
      { row with
        attemptCount := count
        lastAttemptAt := now
        nextAttemptAt := some (computeNextAttemptAt count now) })
    match ← Task.read (getOrchestrationState disputeId round) with
    | none => throw (.error "the orchestration row is gone")
    | some updated => pure updated

inductive AttemptOutcome
  | ready (result : Verdict)
  | deferred (orchestration : OrchestrationRow)
  | timedOut (result : Verdict)
  deriving DecidableEq

def markTerminal (t : Nat) (disputeId : String) (round : Round) (mark : Store → Store)
    (s : Store) : Store :=
  match round with
  | .first => markAttempt t disputeId (mark s)
  | .second => mark s

def attemptOrFinalizeFederationResolution (t : Nat) (d : Dispute) (round : Round) :
    Work AttemptOutcome := do
  let now ← Task.read (·.now)
  initOrchestration d.disputeId round now
  let result ← orchestrateFederationResolution R .attempt d round
  let updated ← recordOrchestrationAttempt d.disputeId round now
  if FEDERATION_QUORUM_MIN ≤ result.adjudicatorVotes.length then
    Task.modify (markTerminal t d.disputeId round (markOrchestrationDone d.disputeId round))
    pure (.ready result)
  else if updated.deadlineAt ≤ now then
    Task.modify (markTerminal t d.disputeId round (markOrchestrationTimedOut d.disputeId round))
    pure (.timedOut result)
  else pure (.deferred updated)

inductive ResolveOutcome
  | resolved (verdict : Verdict)
  | deferred (orchestration : OrchestrationRow)
  | notCommitted (standing : StandingRecord)
  deriving DecidableEq

def FinalizeResult.outcome (verdict : Verdict) : FinalizeResult → ResolveOutcome
  | .persisted => .resolved verdict
  | .notPersisted standing => .notCommitted standing

/-- The attempt's verdict committed, at the worker's cycle time or now. -/
def commitAttempt (t : Nat) (d : Dispute) (cycle : Option Nat) (verdict : Verdict) :
    Work ResolveOutcome := do
  let now ← Task.read (·.now)
  let committed ← finalizeFederationResolution R d.disputeId verdict (cycle.getD now)
  Task.modify (endAttempt t)
  pure (committed.outcome verdict)

/-- One attempt at round 1 and the commit of what it decided. -/
def adjudicate (t : Nat) (d : Dispute) (cycle : Option Nat) : Work ResolveOutcome := do
  Task.modify (beginAttempt t d.disputeId)
  match ← attemptOrFinalizeFederationResolution R t d .first with
  | .deferred row => do
    Task.modify (endAttempt t)
    pure (.deferred row)
  | .ready verdict => commitAttempt R t d cycle verdict
  | .timedOut verdict => commitAttempt R t d cycle verdict

/-! ## §6. The operator's routes -/

def relayIsParty (d : Dispute) : Bool :=
  d.filedBy == R.relayMotebitId || d.respondent == R.relayMotebitId

def operatorVerdict (body : ResolveBody) (role : Option FilerRole) : Except Fault Verdict :=
  if body.rationale = "" then .error (.http 400 "Rationale is required")
  else
    match body.resolution, deriveSingleRelayFundAction body role with
    | some outcome, .ok money => .ok ⟨outcome, body.rationale, money, []⟩
    | _, .error refused => .error (.http 400 refused.text)
    | none, .ok _ => .error (.http 400 MoneyRefusal.resolution.text)

def sameSingleRelayVerdict (body : ResolveBody) (role : Option FilerRole)
    (resolution : DisputeOutcome) (money : Money) : Bool :=
  match deriveSingleRelayFundAction body role with
  | .error _ => false
  | .ok derived => body.resolution == some resolution && derived == money

/-- `200` means the caller's verdict is the one recorded. -/
def reconcile (d : Dispute) (body : ResolveBody) (outcome : ResolveOutcome) : Work ResolveOutcome :=
  if relayIsParty R d then pure outcome
  else
    match outcome with
    | .resolved verdict =>
      if sameSingleRelayVerdict body d.filerRole verdict.resolution verdict.money then
        pure outcome
      else ResolveOutcome.notCommitted <$> readStandingRecord d.disputeId
    | .notCommitted ⟨_, some row⟩ =>
      if sameSingleRelayVerdict body d.filerRole row.resolution row.money then
        pure (.resolved ⟨row.resolution, row.rationale, row.money, row.adjudicatorVotes⟩)
      else pure outcome
    | _ => pure outcome

/-- Round 1 decided on the federation path: an attempt that throws is abandoned. -/
def resolveFederation (t : Nat) (d : Dispute) : Work ResolveOutcome := do
  if d.state = .evidence then
    Task.modify fun s => (moveDispute d.disputeId (· == .evidence)
      (fun d => { d with state := .arbitration }) s).getD s
  Task.catching (adjudicate R t d none) fun e => do
    Task.modify (abandonAttempt t)
    throw e

/-- Round 1 decided by the operator's body. -/
def resolveSingleRelay (d : Dispute) (body : ResolveBody) : Work ResolveOutcome :=
  match operatorVerdict body d.filerRole with
  | .error e => throw e
  | .ok verdict => do
    let resolvedAt ← Task.read (·.now)
    let committed ← finalizeFederationResolution R d.disputeId verdict resolvedAt
    pure (committed.outcome verdict)

/-- The `/resolve` route once the appealed branch is behind it. -/
def resolveRound1 (t : Nat) (d : Dispute) (body : ResolveBody) : Work ResolveOutcome := do
  let standing ← readStandingRecord d.disputeId
  match standing.resolution with
  | some row =>
    if !relayIsParty R d && !sameSingleRelayVerdict body d.filerRole row.resolution row.money then
      pure (.notCommitted standing)
    else pure (.resolved ⟨row.resolution, row.rationale, row.money, row.adjudicatorVotes⟩)
  | none =>
    if d.state ≠ .evidence ∧ d.state ≠ .arbitration then
      throw (.http 400 ("Cannot resolve in state: " ++ stateText d.state))
    else
      let now ← Task.read (·.now)
      if now < d.evidenceDeadline then throw (.http 409 "DISPUTE_EVIDENCE_WINDOW_OPEN")
      else
        let outcome ← if relayIsParty R d then resolveFederation R t d
          else resolveSingleRelay R d body
        reconcile R d body outcome

/-- `POST /api/v1/disputes/:disputeId/resolve`. -/
def resolve (t : Nat) (disputeId : String) (body : ResolveBody) : Work Unit := do
  match ← Task.read (getDispute disputeId) with
  | none => throw (.http 404 "Dispute not found")
  | some read =>
    let d ← tryFinalizeIfWindowExpired R read false
    let round2 ← if d.state = .appealed ∧ !relayIsParty R d then
        Task.read fun s => (s.resolutions disputeId .second).isNone
      else pure false
    if round2 then
      match operatorVerdict body d.filerRole with
      | .error e => throw e
      | .ok verdict => runRound2 R t d verdict
    else
      let _ ← resolveRound1 R t d body

structure DisputeAppeal where
  disputeId : String
  appealedBy : String
  appealedAt : Nat
  deriving DecidableEq

/-- The guarded move to `appealed`. -/
def markAppealed (disputeId : String) (appealedAt : Nat) (s : Store) : Bool × Store :=
  match getDispute disputeId s with
  | none => (false, s)
  | some d =>
    if d.appealedAt.isSome then (false, s)
    else
      match moveDispute disputeId (· == .resolved)
          (fun d => { d with state := .appealed, appealedAt := some appealedAt }) s with
      | none => (false, s)
      | some s' => (true, s')

/-- The checks of an appeal against the row it read. -/
def checkAppeal (d : Dispute) (ap : DisputeAppeal) : Work Unit := do
  if d.state ≠ .resolved then throw (.http 400 "Can only appeal a resolved dispute")
  let now ← Task.read (·.now)
  if d.resolvedAt.any fun at_ => at_ + APPEAL_WINDOW_MS < now then
    throw (.http 400 "Appeal window has expired")
  if skewed ap.appealedAt now then
    throw (.http 400 "DisputeAppeal.appealed_at is more than 15 minutes from the relay's clock")
  if ap.appealedBy ≠ d.filedBy ∧ ap.appealedBy ≠ d.respondent then
    throw (.http 403 "Only dispute parties can appeal")
  if d.appealedAt.isSome then throw (.http 409 "Dispute has already been appealed")
  match ← Task.ask Wait.verify with
  | Verification.notRegistered => throw (.http 401
      "Appealing party is not registered; cannot verify DisputeAppeal signature")
  | Verification.invalid => throw (.http 401 "DisputeAppeal signature verification failed")
  | Verification.valid => pure ()

/-- Round 2 of a federation appeal, run by the route itself. -/
def appealRound2 (t : Nat) (d : Dispute) : Work Unit := do
  let verdict ← orchestrateFederationResolution R .appeal d .second
  runRound2 R t d verdict

/-- `POST /api/v1/disputes/:disputeId/appeal`. -/
def appeal (t : Nat) (disputeId : String) (ap : DisputeAppeal) : Work Unit := do
  if ap.disputeId ≠ disputeId then
    throw (.http 400 "DisputeAppeal.dispute_id does not match path parameter")
  match ← Task.read (getDispute disputeId) with
  | none => throw (.http 404 "Dispute not found")
  | some read =>
    let d ← tryFinalizeIfWindowExpired R read false
    checkAppeal d ap
    if ← Task.act (markAppealed disputeId ap.appealedAt) then
      if relayIsParty R d then appealRound2 R t d else pure ()
    else throw (.http 409 "Dispute changed state while appealing; it is no longer appealable")

/-- An `opened` dispute without evidence for an hour. -/
def expireOpened (d : Dispute) : Work Dispute := do
  let now ← Task.read (·.now)
  if d.state = .opened ∧ d.filedAt + OPENED_EXPIRE_MS < now then
    Task.modify fun s => (moveDispute d.disputeId (· == .opened)
      (fun d => { d with state := .expired, expiredAt := some now }) s).getD s
    reread d
  else pure d

def readDispute (disputeId : String) : Work Unit := do
  match ← Task.read (getDispute disputeId) with
  | none => throw (.http 404 "Dispute not found")
  | some read =>
    let d ← expireOpened read
    let _ ← tryFinalizeIfWindowExpired R d true

/-! ## §7. The worker -/

/-- Round 2 in the worker: only a quorum verdict commits. -/
def workRound2 (t : Nat) (d : Dispute) : Work Unit := do
  match ← attemptOrFinalizeFederationResolution R t d .second with
  | .ready verdict =>
    match ← Task.read (getDispute d.disputeId) with
    | none => throw (.error "dispute vanished mid-cycle")
    | some full => runRound2 R t full verdict
  | .timedOut _ => pure ()
  | .deferred _ => pure ()

def workRound1 (t : Nat) (d : Dispute) (now : Nat) : Work Unit :=
  Task.catching (do
    let _ ← adjudicate R t d (some now)) fun _ => Task.modify (abandonAttempt t)

/-- One due row. -/
def workItem (t now : Nat) (item : String × Round) : Work Unit := do
  match ← Task.read (getDispute item.1) with
  | none => Task.modify (markOrchestrationTimedOut item.1 item.2)
  | some d =>
    match item.2 with
    | .first => if now < d.evidenceDeadline then pure () else workRound1 R t d now
    | .second => Task.catching (workRound2 R t d) fun _ => pure ()

def runDeferredOrchestrationCycle (t limit : Nat) : Work Unit := do
  let now ← Task.read (·.now)
  let due ← Task.read (getDueOrchestrations now limit)
  Task.forEach (workItem R t now) due

/-! ## §8. The relay -/

inductive Entry (t : Nat) : Prog Store Wait Heard Unit → Prop
  | file (allocationId : String) (req : DisputeRequest) :
      Entry t (fileDispute R allocationId req).detach
  | resolve (disputeId : String) (body : ResolveBody) :
      Entry t (resolve R t disputeId body).detach
  | appeal (disputeId : String) (ap : DisputeAppeal) : Entry t (appeal R t disputeId ap).detach
  | read (disputeId : String) : Entry t (readDispute R disputeId).detach
  | cycle (limit : Nat) : Entry t (runDeferredOrchestrationCycle R t limit).detach

/-- Everything else that happens to the tables: time, the freeze, ledger activity that is no
    dispute movement, settlements closing allocations, peers coming and going, and a round-2
    orchestration an earlier relay left. -/
inductive Background (s : Store) : Store → Prop
  | tick (now : Nat) (h : s.now ≤ now) : Background s { s with now := now }
  | freeze (frozen : Bool) : Background s { s with frozen := frozen }
  | ledger (db : Escrow.Db)
      (h : ∀ A, db.allocationDisputeRows A = s.escrow.allocationDisputeRows A) :
      Background s { s with escrow := db }
  | status (status : String → AllocationStatus) : Background s { s with allocationStatus := status }
  | peers (peers : Keyed String PeerState) : Background s { s with peers := peers }
  | round2 (disputeId : String) (row : OrchestrationRow) (hrow : row.status = .inProgress) :
      Background s (s.putOrchestration disputeId .second row)

def answered (s : Store) : (r : Wait) → Heard r → Store
  | .fanout door disputeId round persisted contacted, answers =>
    { s with fanouts := ⟨door, disputeId, round, persisted, contacted, answers⟩ :: s.fanouts }
  | .verify, _ => s
  | .signResolution, _ => s
  | .commit, _ => s
  | .signVoteRequest, _ => s

/-- Any number of routes and worker cycles, answered in any order or never. -/
def relay : World Store Wait Heard where
  init s := ∃ now, s = Store.empty now
  entry := Entry R
  answer s r a s' := s' = answered s r a
  env := Background
  crash s s' := s' = abandonAll s

end

end Motebit.Disputes
