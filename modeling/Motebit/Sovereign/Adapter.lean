/-
  Motebit.Sovereign.Adapter — THE PAY-FORWARD ADAPTER of a delegating motebit.

  One `delegateStep` discovers candidates, lets the delegator's own selector choose one, pays it
  from the wallet, presents the task and reads the receipt; a failed attempt may be followed by
  another.  Everything outside the process is a question with an arbitrary answer: the market
  read, the selector, the wallet, the ledger, the worker, the clock and the caller's callbacks.

  The store keeps a history beside the adapter's own field: each payment handed to the wallet,
  whether the wallet proved it absent, the task it was paid for and the receipts answered for it.
-/

import Mathlib.Data.Rat.Defs
import Motebit.Lib.Task

namespace Motebit.Sovereign

open Motebit.Lib

/-! ## §1. Data -/

structure Pricing where
  unitCost : ℚ
  per : String
  deriving DecidableEq

/-- A row of the relay's market answer. -/
structure DiscoveredCandidate where
  motebitId : String
  endpointUrl : Option String
  payToAddress : Option String
  pricing : List Pricing
  isOnline : Bool
  deriving DecidableEq

/-- A candidate as the selector sees it. -/
structure RankedCandidate where
  motebitId : String
  unitCost : Option ℚ
  deriving DecidableEq

/-- A truthy `public_key` of a parsed receipt: a string, or any other JSON value. -/
inductive PublicKey
  | text (hex : String)
  | json (value : String)
  deriving DecidableEq

abbrev Bytes := List UInt8

/-- What a worker answers.  Only `task_id`, `motebit_id` and `signature` were checked to be
    strings; `publicKey` is `none` where the field is absent or falsy, and `rest` holds the other
    signed fields. -/
structure ExecutionReceipt where
  taskId : String
  motebitId : String
  publicKey : Option PublicKey
  status : String
  result : String
  signature : String
  rest : String
  deriving DecidableEq

inductive McpOutcome
  | receipt (receipt : ExecutionReceipt)
  | undelivered (reason : String)

inductive SovereignSendConfirmation
  | landed (signature : String)
  | absent
  | pending (recheckAtMs : Int)
  | unknown (reason : String)

/-- What `confirmPayment` returns: never `pending`. -/
inductive Verdict
  | landed (signature : String)
  | absent
  | unknown (reason : String)

structure SovereignPaidEntry where
  workerMotebitId : String
  capability : String
  taskId : String
  txHash : String
  paidMicro : Int
  feeMicro : Int
  recordedAt : Int
  deriving DecidableEq

structure PriorPayment where
  taskId : String
  txHash : String
  capability : String

inductive LockScope
  | pair
  | session

inductive LedgerVerdict
  | unlocked
  | locked (scope : LockScope) (prior : PriorPayment)

inductive LedgerWrite
  | recordInFlight
  | recordUnretrieved
  | resolve

/-- An error of an attempt, with what the retry loop reads of it. -/
structure DelegationError where
  message : String
  failedAgentId : Option String := none
  terminal : Bool := false
  undetermined : Bool := false
  paidTxHash : Option String := none
  deriving DecidableEq

structure DelegatedStepResult where
  stepId : String
  taskId : String
  receipt : ExecutionReceipt
  resultText : String
  deriving DecidableEq

structure PlanStep where
  stepId : String
  description : String
  prompt : String
  requiredCapabilities : Option (List String)

/-- `step.required_capabilities?.[0] ?? ""` -/
def PlanStep.capability (step : PlanStep) : String :=
  ((step.requiredCapabilities.getD []).head?).getD ""

/-- What the adapter is constructed with.  `verifyReceipt` and `hexToBytes` are injected; either
    may throw on what a worker answered. -/
structure SovereignDelegationConfig where
  hasPaidLedger : Bool
  canConfirmSend : Bool
  maxRetries : Option Int
  paymentConfirmMaxWaitMs : Option Int
  verifyReceipt : ExecutionReceipt → Bytes → Except String Bool
  hexToBytes : PublicKey → Except String Bytes

def DEFAULT_PAYMENT_CONFIRM_MAX_WAIT_MS : Int := 180000

/-! ## §2. Questions -/

structure ConfirmQuery where
  toAddress : String
  microAmount : Int
  sentAtMs : Int
  failedAtMs : Int
  error : String

structure McpCall where
  mcpUrl : String
  workerMotebitId : String
  prompt : String
  txHash : String
  timeoutMs : Int

inductive MarketAnswer
  | threw (message : String)
  | refused (status : Nat) (text : String)
  | candidates (rows : List DiscoveredCandidate)

inductive Question
  | market (capability : String)
  | selectWorker (candidates : List RankedCandidate) (capability : String)
  | ledgerCheck (workerMotebitId capability : String)
  | ledgerWrite (op : LedgerWrite) (entry : SovereignPaidEntry)
  | now
  | sleep (ms : Int)
  | send (toAddress : String) (microAmount : Int)
  | confirmSend (query : ConfirmQuery) (excludeSignatures : List String)
  | onTaskSubmitted (taskId : String)
  | executeMcpTask (call : McpCall)
  | onDelegationFailure (attempt : Nat) (error : String) (failedAgentId : Option String)

/-- A thrown value is answered as its message.  A failed ledger write is logged and no more. -/
abbrev Answer : Question → Type
  | .market _ => MarketAnswer
  | .selectWorker .. => Except String (Option String)
  | .ledgerCheck .. => Except String LedgerVerdict
  | .ledgerWrite .. => Unit
  | .now => Int
  | .sleep _ => Unit
  | .send .. => Except String String
  | .confirmSend .. => Except String SovereignSendConfirmation
  | .onTaskSubmitted _ => Except String Unit
  | .executeMcpTask _ => McpOutcome
  | .onDelegationFailure .. => Except String Unit

/-! ## §3. The store -/

/-- One payment handed to the wallet, and what was answered about it since. -/
structure Payment where
  worker : String
  toAddress : String
  microAmount : Int
  absent : Bool := false
  taskId : Option String := none
  receipts : List ExecutionReceipt := []
  deriving DecidableEq

/-- `payments` is the history of one step, latest first. -/
structure Adapter where
  paidSignatures : List String
  payments : List Payment
  deriving DecidableEq

namespace Adapter

def paying (p : Payment) (s : Adapter) : Adapter := { s with payments := p :: s.payments }

def provedAbsent (s : Adapter) : Adapter :=
  { s with payments := s.payments.modifyHead fun p => { p with absent := true } }

def paid (txHash taskId : String) (s : Adapter) : Adapter where
  paidSignatures := s.paidSignatures ++ [txHash]
  payments := s.payments.modifyHead fun p => { p with taskId := some taskId }

def answered (r : ExecutionReceipt) (s : Adapter) : Adapter :=
  { s with payments := s.payments.modifyHead fun p => { p with receipts := r :: p.receipts } }

/-- What an answer adds to the history. -/
def hears : (q : Question) → Answer q → Adapter → Adapter
  | .confirmSend .., .ok .absent, s => s.provedAbsent
  | .executeMcpTask _, .receipt r, s => s.answered r
  | _, _, s => s

end Adapter

/-! ## §4. The program -/

abbrev Delegation (α : Type) := Task Adapter Question Answer DelegationError α

def includes (haystack needle : String) : Bool :=
  haystack.toList.tails.any fun suffix => needle.toList.isPrefixOf suffix

def sovereignTaskId (worker txHash : String) : String := s!"sovereign:{worker}:{txHash}"

def terminal (message : String) : DelegationError := { message, terminal := true }

def undeterminedTerminal (message : String) : DelegationError :=
  { message, terminal := true, undetermined := true }

/-- `BigInt(n)`: a number that is no integer throws. -/
def bigInt (n : ℚ) : Except DelegationError Int :=
  if n.den = 1 then
    .ok n.num
  else
    .error { message :=
      s!"The number {n} cannot be converted to a BigInt because it is not an integer" }

def estimateCost (pricing : List Pricing) : ℚ :=
  match pricing.find? fun p => p.per = "task" with
  | some p => p.unitCost
  | none => 500000

def rankedCandidate (c : DiscoveredCandidate) : RankedCandidate where
  motebitId := c.motebitId
  unitCost := (c.pricing.find? fun p => p.per = "task").map Pricing.unitCost

def discoverCandidates (step : PlanStep) (excludeAgents : List String) :
    Delegation (List DiscoveredCandidate) := do
  match ← Task.ask (Question.market step.capability) with
  | .threw message => throw { message }
  | .refused status text => throw { message := s!"Discovery failed ({status}): {text}" }
  | .candidates rows =>
    pure (((rows.filter fun c => c.motebitId ∉ excludeAgents).filter fun c => c.isOnline).filter
      fun c => c.endpointUrl.isSome && c.payToAddress.isSome)

/-- A ledger that cannot answer refuses too: nothing has moved yet. -/
def refuseIfAlreadyPaid (cfg : SovereignDelegationConfig) (worker capability : String) :
    Delegation Unit :=
  if cfg.hasPaidLedger then do
    match ← Task.ask (Question.ledgerCheck worker capability) with
    | .error err =>
      throw (terminal (s!"Refused before payment: the paid-intent ledger could not be read ({err})"
        ++ ". No money moved."))
    | .ok .unlocked => pure ()
    | .ok (.locked .pair prior) =>
      throw (terminal (s!"Refused before payment: worker {worker} already holds a paid, unretrieved "
        ++ s!"result for \"{prior.capability}\" (tx {prior.txHash}, task {prior.taskId}). "
        ++ "No money moved. Recover or dismiss it (/result) before hiring again."))
    | .ok (.locked .session prior) =>
      throw (terminal ("Refused before payment: paid delegations are outstanding without results "
        ++ "— all new paid delegation is suspended. "
        ++ s!"Oldest: tx {prior.txHash}, task {prior.taskId}. No money moved."))
  else
    pure ()

def ledgerWrite (cfg : SovereignDelegationConfig) (op : LedgerWrite)
    (entry : SovereignPaidEntry) : Delegation Unit :=
  if cfg.hasPaidLedger then Task.ask (Question.ledgerWrite op entry) else pure ()

/-- The looks a failed send is given; `looks` counts those left. -/
def confirmLoop (query : ConfirmQuery) (deadline : Int) : Nat → Delegation Verdict
  | 0 => pure (.unknown "the transfer could still land and the confirmation window ran out")
  | looks + 1 => do
    let excludeSignatures ← Task.read Adapter.paidSignatures
    match ← Task.ask (Question.confirmSend query excludeSignatures) with
    | .error reason => pure (.unknown reason)
    | .ok (.landed signature) => pure (.landed signature)
    | .ok .absent => pure .absent
    | .ok (.unknown reason) => pure (.unknown reason)
    | .ok (.pending recheckAtMs) =>
      if deadline < recheckAtMs then
        pure (.unknown "the transfer could still land and the confirmation window ran out")
      else do
        let now ← Task.ask Question.now
        Task.ask (Question.sleep (max 0 (recheckAtMs - now)))
        confirmLoop query deadline looks

def confirmPayment (cfg : SovereignDelegationConfig) (query : ConfirmQuery) : Delegation Verdict :=
  if cfg.canConfirmSend then
    confirmLoop query (query.failedAtMs +
      cfg.paymentConfirmMaxWaitMs.getD DEFAULT_PAYMENT_CONFIRM_MAX_WAIT_MS) 3
  else
    pure (.unknown "this wallet cannot confirm a failed send")

def paymentFailed (worker sendMsg : String) : DelegationError :=
  { message := s!"Payment failed: {sendMsg}", failedAgentId := some worker }

def paymentUnknown (worker toAddress : String) (microAmount : Int) (sendMsg reason : String) :
    DelegationError :=
  undeterminedTerminal (s!"Payment status unknown ({microAmount} micro to worker {worker} at "
    ++ s!"{toAddress}; the send failed with \"{sendMsg}\" and whether it landed could not be "
    ++ s!"confirmed: {reason}). Not retried — check the wallet's history before paying again.")

/-- A thrown `send` is resolved through the wallet before it counts as not paid. -/
def afterFailedSend (cfg : SovereignDelegationConfig) (worker toAddress : String)
    (microAmount sentAtMs : Int) (sendMsg : String) : Delegation String := do
  let failedAtMs ← Task.ask Question.now
  match ← confirmPayment cfg ⟨toAddress, microAmount, sentAtMs, failedAtMs, sendMsg⟩ with
  | .landed signature => pure signature
  | .absent => throw (paymentFailed worker sendMsg)
  | .unknown reason => throw (paymentUnknown worker toAddress microAmount sendMsg reason)

def pay (cfg : SovereignDelegationConfig) (worker toAddress : String) (costMicro : ℚ) :
    Delegation (String × Int) := do
  match bigInt costMicro with
  | .error err => throw err
  | .ok microAmount =>
    let sentAtMs ← Task.ask Question.now
    Task.modify (Adapter.paying { worker, toAddress, microAmount })
    match ← Task.ask (Question.send toAddress microAmount) with
    | .ok signature => pure (signature, microAmount)
    | .error sendMsg =>
      let signature ← afterFailedSend cfg worker toAddress microAmount sentAtMs sendMsg
      pure (signature, microAmount)

/-- Money moved to this worker and no verifiable result came back. -/
def paidUnretrieved (entry : SovereignPaidEntry) (reason : String) : DelegationError :=
  { undeterminedTerminal (s!"Paid, result not retrieved (tx {entry.txHash}, worker "
      ++ s!"{entry.workerMotebitId}): {reason}. Not retried — another attempt would pay again. "
      ++ s!"The payment is recorded as outstanding (task {entry.taskId}).") with
    paidTxHash := some entry.txHash }

/-- Whether the receipt verified under the key it carries; without one it did not. -/
def checkReceipt (cfg : SovereignDelegationConfig) (r : ExecutionReceipt) :
    Except String (Option Bool) :=
  match r.publicKey with
  | none => .ok none
  | some raw =>
    match cfg.hexToBytes raw with
    | .error err => .error err
    | .ok key =>
      match cfg.verifyReceipt r key with
      | .error err => .error err
      | .ok verified => .ok (some verified)

def stepFailed (entry : SovereignPaidEntry) (r : ExecutionReceipt) : DelegationError :=
  { message := s!"Delegated step {r.status}: {r.result} (paid tx {entry.txHash})"
    failedAgentId := some r.motebitId }

/-- Phase 4. -/
def readReceipt (cfg : SovereignDelegationConfig) (step : PlanStep) (entry : SovereignPaidEntry)
    (r : ExecutionReceipt) : Delegation DelegatedStepResult := do
  match checkReceipt cfg r with
  | .error err => throw { message := err }
  | .ok (some false) =>
    ledgerWrite cfg .recordUnretrieved entry
    throw { paidUnretrieved entry "receipt signature verification failed" with
      failedAgentId := some entry.workerMotebitId }
  | .ok verified =>
    if r.status ≠ "completed" then
      if verified = none ∨ r.motebitId ≠ entry.workerMotebitId then
        ledgerWrite cfg .recordUnretrieved entry
        throw { paidUnretrieved entry
            s!"worker answered \"{r.status}\" without a receipt it verifiably signed" with
          failedAgentId := some entry.workerMotebitId }
      else
        ledgerWrite cfg .resolve entry
        throw (stepFailed entry r)
    else
      ledgerWrite cfg .resolve entry
      pure ⟨step.stepId, entry.taskId, r, r.result⟩

/-- The paid task is presented, once. -/
def present (cfg : SovereignDelegationConfig) (step : PlanStep) (timeoutMs : Int)
    (endpointUrl : String) (entry : SovereignPaidEntry) : Delegation DelegatedStepResult := do
  ledgerWrite cfg .recordInFlight entry
  match ← Task.ask (Question.onTaskSubmitted entry.taskId) with
  | .error err => throw { message := err }
  | .ok () =>
    match ← Task.ask (Question.executeMcpTask
        ⟨endpointUrl, entry.workerMotebitId, step.prompt, entry.txHash, timeoutMs⟩) with
    | .undelivered reason =>
      ledgerWrite cfg .recordUnretrieved entry
      throw (paidUnretrieved entry reason)
    | .receipt r => readReceipt cfg step entry r

def unusable (candidate : DiscoveredCandidate) (message : String) : DelegationError :=
  { message, failedAgentId := some candidate.motebitId }

/-- The chosen candidate is paid and given the task. -/
def hire (cfg : SovereignDelegationConfig) (step : PlanStep) (timeoutMs : Int)
    (candidate : DiscoveredCandidate) : Delegation DelegatedStepResult :=
  let endpointUrl := candidate.endpointUrl.getD ""
  let payToAddress := candidate.payToAddress.getD ""
  if endpointUrl = "" then
    throw (unusable candidate "Candidate has no MCP endpoint URL")
  else if payToAddress = "" then
    throw (unusable candidate "Candidate has no wallet address")
  else do
    refuseIfAlreadyPaid cfg candidate.motebitId step.capability
    let (txHash, paidMicro) ←
      pay cfg candidate.motebitId payToAddress (estimateCost candidate.pricing)
    let taskId := sovereignTaskId candidate.motebitId txHash
    Task.modify (Adapter.paid txHash taskId)
    let recordedAt ← Task.ask Question.now
    present cfg step timeoutMs endpointUrl
      ⟨candidate.motebitId, step.capability, taskId, txHash, paidMicro, 0, recordedAt⟩

def noCandidateChosen : DelegationError :=
  { message := "No candidates chosen by the first-person selector for sovereign delegation" }

def attemptSovereignDelegation (cfg : SovereignDelegationConfig) (step : PlanStep)
    (timeoutMs : Int) (excludeAgents : List String) : Delegation DelegatedStepResult := do
  let candidates ← discoverCandidates step excludeAgents
  if candidates.isEmpty then
    throw { message := "No candidates found for sovereign delegation" }
  match ← Task.ask (Question.selectWorker (candidates.map rankedCandidate) step.capability) with
  | .error err => throw { message := err }
  | .ok chosenId =>
    match chosenId.bind fun id => candidates.find? fun c => c.motebitId = id with
    | none => throw noCandidateChosen
    | some candidate => hire cfg step timeoutMs candidate

def SovereignDelegationConfig.retries (cfg : SovereignDelegationConfig) : Int :=
  cfg.maxRetries.getD 2

def gaveUp (cfg : SovereignDelegationConfig) (step : PlanStep) (excludeAgents : List String)
    (lastError : Option DelegationError) : DelegationError :=
  let attempts := min (excludeAgents.length : Int) cfg.retries + 1
  let last := (lastError.map DelegationError.message).getD "unknown error"
  { message := s!"Sovereign delegation failed after {attempts} attempt(s) for step "
      ++ s!"\"{step.description}\": {last}" }

/-- The retry loop: `left` attempts remain, `attempt` is the next one's number. -/
def attempts (cfg : SovereignDelegationConfig) (step : PlanStep) (timeoutMs : Int) :
    Nat → Nat → List String → Option DelegationError → Delegation DelegatedStepResult
  | 0, _, excludeAgents, lastError => throw (gaveUp cfg step excludeAgents lastError)
  | left + 1, attempt, excludeAgents, _ =>
    Task.catching (attemptSovereignDelegation cfg step timeoutMs excludeAgents) fun err => do
      match ← Task.ask (Question.onDelegationFailure attempt err.message err.failedAgentId) with
      | .error thrown => throw { message := thrown }
      | .ok () =>
        if err.terminal then
          throw err
        else
          let excludeAgents := match err.failedAgentId with
            | some id => if id = "" then excludeAgents else excludeAgents ++ [id]
            | none => excludeAgents
          if includes err.message "No candidates" || includes err.message "Insufficient" then
            throw (gaveUp cfg step excludeAgents (some err))
          else
            attempts cfg step timeoutMs left (attempt + 1) excludeAgents (some err)

def delegateStep (cfg : SovereignDelegationConfig) (step : PlanStep) (timeoutMs : Int)
    (crossStepExclude : List String) : Delegation DelegatedStepResult :=
  attempts cfg step timeoutMs (cfg.retries + 1).toNat 0 crossStepExclude none

end Motebit.Sovereign
