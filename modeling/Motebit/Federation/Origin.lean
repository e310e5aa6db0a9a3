/-
  Motebit.Federation.Origin — THE ORIGIN RELAY's settlement forward and its retries
  (`forwardOriginSettlement` in services/relay/src/federation-callbacks.ts,
  `processSettlementRetries` in federation.ts, `refundExhaustedForward` in index.ts,
  `beginForwardSend` and `markForwardDelivered` in allocation-escrow.ts), joined to one executor
  relay by a network.

  A forward leaves the escrow `pending`, in one transaction with its retry row.  Each send is
  claimed in the turn that starts it; a 2xx marks the forward `delivered`; exhausted attempts or
  a vanished peer turn it `failed` and refund the hold payer.  A request may be lost or arrive
  late, an answer may be lost, and the executor may die while it handles one.
-/

import Motebit.Escrow.Effects
import Motebit.Federation.Inbound

namespace Motebit.Federation

open Motebit.Lib
open Motebit.Escrow (Db Ambient AllocationMove MoveError ForwardStatus FederationSettlement
  moveAllocationMoney markForwardDelivered)

/-! ## §1. The origin's tables -/

/-- The fields of a `settlement-forward`, as the retry row keeps them. -/
structure SettlementBody where
  taskId : String
  settlementId : String
  originRelay : String
  grossAmount : Int
  receiptHash : String
  deriving DecidableEq

inductive RetryStatus
  | pending
  | completed
  | failed
  deriving DecidableEq

/-- One row of `relay_settlement_retries`. -/
structure Retry where
  retryId : String
  settlementId : String
  taskId : String
  peerRelayId : String
  payload : SettlementBody
  attempts : Nat
  maxAttempts : Nat
  nextRetryAt : Nat
  status : RetryStatus
  lastError : Option String
  deriving DecidableEq

inductive AllocationStatus
  | locked
  | settled
  | released
  | disputed
  deriving DecidableEq

/-- The columns of `relay_allocations` the refund reads beside the escrow's own. -/
structure AllocationState where
  status : AllocationStatus
  claimUnrecoverable : Bool
  deriving DecidableEq

/-- The origin's tables; `peers` gives a peer relay's endpoint, `unsettledClaims` the tasks whose
    answer is claimed and not settled, and `minted` counts the ids drawn. -/
structure Origin where
  escrow : Db
  ambient : Ambient
  allocationStates : String → AllocationState
  unsettledClaims : String → Bool
  peers : String → Option String
  retries : List Retry
  minted : Nat

/-- `forwardOf`: a sent forward's lifecycle row. -/
def forwardOf (o : Origin) (settlementId : String) : Option FederationSettlement :=
  o.escrow.federationSettlements.find? fun f =>
    f.settlementId = settlementId ∧ f.downstreamRelayId.isSome

/-! ## §2. The network -/

/-- What became of a request: on its way, being handled, recorded by the executor, refused by
    it, or gone (lost on the way, or with the process that handled it). -/
inductive Fate
  | travelling
  | taken
  | recorded
  | refused
  | gone
  deriving DecidableEq

/-- A signed `settlement-forward` on its way to a peer. -/
structure Request where
  recipient : String
  body : SettlementBody
  fate : Fate
  deriving DecidableEq

/-- Both relays, the requests sent so far, those the executor answered 2xx, and whether some
    forward was ever turned `failed` while one of its requests was neither refused nor gone. -/
structure Pair where
  origin : Origin
  executor : Executor
  requests : List Request
  acked : List Nat
  hasty : Bool

/-- What both relays are set up with: their ids and fee rates, and the ids the origin draws. -/
structure Setup where
  originId : String
  executorId : String
  originRate : ℚ
  executorRate : ℚ
  uuid : Nat → String
  signedPayee : String → Option String

/-- The request is of the forward `settlementId` to the executor. -/
def Setup.carries (S : Setup) (settlementId : String) (r : Request) : Bool :=
  r.recipient = S.executorId && r.body.settlementId = settlementId

/-- Every request of the forward was refused by the executor or is gone. -/
def Setup.cleared (S : Setup) (settlementId : String) (p : Pair) : Bool :=
  p.requests.all fun r => !S.carries settlementId r || r.fate = .refused || r.fate = .gone

/-! ## §3. Awaits -/

/-- What a thread waits for: a signature, the answer to a POST, the executor's verification. -/
inductive PairWait
  | sign
  | post (n : Nat)
  | verify (n : Nat)
  deriving DecidableEq

inductive PostAnswer
  | ok
  | status (code : Nat) (text : String)
  | failed (message : String)
  deriving DecidableEq

/-- What verifying a request says; a limited one is refused after its nonce was spent. -/
inductive VerifyAnswer
  | refused (status : Nat) (message : String)
  | limited (message : String)
  | verified
  deriving DecidableEq

/-- A signature may fail; a POST is answered; a request is verified. -/
abbrev PairHeard : PairWait → Type
  | .sign => Option String
  | .post _ => PostAnswer
  | .verify _ => VerifyAnswer

inductive OriginFault
  | emergencyFrozen
  | move (e : MoveError)
  | federation (message : String)
  deriving DecidableEq

def OriginFault.message : OriginFault → String
  | .emergencyFrozen => "emergency freeze"
  | .move _ => "allocation movement failed"
  | .federation message => message

abbrev OriginWork (α : Type) := Task Pair PairWait PairHeard OriginFault α
abbrev ExecutorWork (α : Type) := Task Pair PairWait PairHeard ExecutorFault α

/-- One turn on the origin's tables. -/
def onOrigin {β : Type} (f : Origin → β × Origin) : OriginWork β :=
  Task.act fun p => ((f p.origin).1, { p with origin := (f p.origin).2 })

/-! ## §4. The forward lifecycle -/

/-- `beginForwardSend`: refuses while frozen; false when the forward is delivered or failed. -/
def beginForwardSend (settlementId : String) (o : Origin) : Except OriginFault Bool :=
  if o.ambient.frozen then .error .emergencyFrozen
  else
    match forwardOf o settlementId with
    | some f => .ok (f.status ≠ .delivered && f.status ≠ .failed)
    | none => .ok true

/-- The send claim and, in the same turn, the request put on the network; its number. -/
def claimAndSend (recipient : String) (body : SettlementBody) (p : Pair) :
    Except OriginFault (Option Nat × Pair) :=
  match beginForwardSend body.settlementId p.origin with
  | .error e => .error e
  | .ok false => .ok (none, p)
  | .ok true =>
    .ok (some p.requests.length,
      { p with requests := p.requests ++ [⟨recipient, body, .travelling⟩] })

def updateRetry (retryId : String) (f : Retry → Retry) (o : Origin) : Origin :=
  { o with retries := updateWhere (fun r => r.retryId = retryId) f o.retries }

/-- The forward acknowledged: `markForwardDelivered` beside the retry row's own end. -/
def acknowledge (settlementId : String) (endRetry : List Retry → List Retry) (o : Origin) : Origin :=
  { o with
    retries := endRetry o.retries
    escrow := markForwardDelivered o.escrow settlementId }

inductive RefundOutcome
  | refunded
  | returned
  | skipped
  deriving DecidableEq

/-- The refund once the forward's gross is back in the escrow. -/
def refundHeld (S : Setup) (taskId allocationId : String) (returned : Bool) (o : Origin) :
    Except MoveError (RefundOutcome × Origin) :=
  let state := o.allocationStates allocationId
  let held := o.escrow.allocationHeld allocationId
  let claimHeld := state.status = .locked && state.claimUnrecoverable && o.unsettledClaims taskId
  let unpaid : RefundOutcome := if returned then .returned else .skipped
  if state.status = .disputed || claimHeld || held ≤ 0 then .ok (unpaid, o)
  else
    match o.escrow.allocationHoldPayer allocationId with
    | none =>
      .ok (unpaid, { o with
        escrow := { o.escrow with
          allocations := updateWhere (fun a => a.allocationId = allocationId)
            (fun a => { a with reviewReason := a.reviewReason.or (some "unroutable_refund") })
            o.escrow.allocations } })
    | some payer =>
      match moveAllocationMoney S.signedPayee o.escrow o.ambient
          (.release .retryExhaustionRefund allocationId held payer
            ("Retry exhaustion refund for task " ++ taskId)) with
      | .error e => .error e
      | .ok escrow =>
        .ok (.refunded, { o with
          escrow := escrow
          allocationStates := Function.update o.allocationStates allocationId
            (if state.status = .locked then { state with status := .released } else state) })

def refundExhaustedForward (S : Setup) (settlementId taskId : String) (o : Origin) :
    Except MoveError (RefundOutcome × Origin) :=
  match o.escrow.allocations.find? fun a => a.taskId = taskId with
  | none => .ok (.skipped, o)
  | some alloc =>
    match forwardOf o settlementId with
    | some fwd =>
      if fwd.status = .pending ∧ fwd.allocationId = some alloc.allocationId then
        match moveAllocationMoney S.signedPayee o.escrow o.ambient
            (.forwardReturn alloc.allocationId fwd.grossAmount settlementId) with
        | .error e => .error e
        | .ok escrow => refundHeld S taskId alloc.allocationId true { o with escrow := escrow }
      else refundHeld S taskId alloc.allocationId false o
    | none => refundHeld S taskId alloc.allocationId false o

/-- `onRetryExhausted`: a refund that throws is logged and undone. -/
def onRetryExhausted (S : Setup) (retry : Retry) (o : Origin) : Origin :=
  match refundExhaustedForward S retry.settlementId retry.taskId o with
  | .ok (_, o') => o'
  | .error _ => o

def failsForward (settlementId : String) (o o' : Origin) : Bool :=
  (forwardOf o settlementId).any (·.status = .pending) &&
    (forwardOf o' settlementId).any (·.status = .failed)

/-- The retry row failed and the refund run, in one turn; the history notes a forward failed
    before its requests were cleared. -/
def exhaust (S : Setup) (retry : Retry) (mark : Retry → Retry) (p : Pair) : Pair :=
  let o' := onRetryExhausted S retry (updateRetry retry.retryId mark p.origin)
  { p with
    origin := o'
    hasty := p.hasty || (failsForward retry.settlementId p.origin o' &&
      !S.cleared retry.settlementId p) }

/-! ## §5. The first send -/

inductive ForwardResult
  | delivered
  | queued
  | refused
  deriving DecidableEq

structure ForwardArgs where
  taskId : String
  peerRelayId : String
  grossAmount : Int
  receiptHash : String
  deriving DecidableEq

/-- What the peer is sent: the origin's own net. -/
def settlementBody (S : Setup) (args : ForwardArgs) (settlementId : String) : SettlementBody where
  taskId := args.taskId
  settlementId := settlementId
  originRelay := S.originId
  grossAmount := netOf S.originRate args.grossAmount
  receiptHash := args.receiptHash

def firstRetry (S : Setup) (args : ForwardArgs) (settlementId retryId : String) (now : Nat) :
    Retry where
  retryId := retryId
  settlementId := settlementId
  taskId := args.taskId
  peerRelayId := args.peerRelayId
  payload := settlementBody S args settlementId
  attempts := 0
  maxAttempts := 8
  nextRetryAt := now + 5000
  status := .pending
  lastError := none

def recordForward (S : Setup) (args : ForwardArgs) (allocationId settlementId retryId : String)
    (o : Origin) : Except MoveError Origin :=
  match moveAllocationMoney S.signedPayee o.escrow o.ambient
      (.federatedForward allocationId args.grossAmount
        ⟨settlementId, args.taskId, S.originId, some args.peerRelayId, args.grossAmount⟩) with
  | .error e => .error e
  | .ok escrow =>
    .ok { o with
      escrow := escrow
      retries := o.retries ++ [firstRetry S args settlementId retryId o.ambient.now] }

/-- Draw the two ids of a forward. -/
def mint (S : Setup) (o : Origin) : (String × String) × Origin :=
  ((S.uuid o.minted, S.uuid (o.minted + 1)), { o with minted := o.minted + 2 })

/-- `signFederationRequest`: nothing to sign for a peer with no key on record. -/
def signFederationRequest (recipient : String) : OriginWork Unit := do
  match ← onOrigin fun o => (o.peers recipient, o) with
  | none => throw (.federation ("no key on record for peer relay " ++ recipient))
  | some _ =>
    match ← Task.ask PairWait.sign with
    | some message => throw (.federation message)
    | none => pure ()

/-- `!resp.ok`, or the fetch's own error. -/
def postFault : PostAnswer → Option OriginFault
  | .ok => none
  | .status code text => some (.federation ("HTTP " ++ toString code ++ ": " ++ text))
  | .failed message => some (.federation message)

/-- The first send of a recorded forward; its retry row is retired with the acknowledgment. -/
def sendForward (S : Setup) (args : ForwardArgs) (settlementId retryId : String) :
    OriginWork ForwardResult := do
  let body := settlementBody S args settlementId
  signFederationRequest args.peerRelayId
  match ← Task.txn (claimAndSend args.peerRelayId body) with
  | none => return .queued
  | some n =>
    match postFault (← Task.ask (PairWait.post n)) with
    | some e => throw e
    | none =>
      onOrigin fun o => ((), acknowledge settlementId (fun retries => retries.filter fun r =>
        ¬(r.retryId = retryId ∧ r.status = .pending ∧ r.attempts = 0)) o)
      return .delivered

def forwardOriginSettlement (S : Setup) (args : ForwardArgs) : OriginWork ForwardResult := do
  let (settlementId, retryId) ← onOrigin (mint S)
  match ← onOrigin fun o => (o.escrow.allocations.find? fun a => a.taskId = args.taskId, o) with
  | none => return .refused
  | some alloc =>
    match ← Task.ask PairWait.sign with
    | some message => throw (.federation message)
    | none =>
      let peerInfo ← onOrigin fun o => (o.peers args.peerRelayId, o)
      let recorded ← Task.txn fun p =>
        match recordForward S args alloc.allocationId settlementId retryId p.origin with
        | .ok o => .ok (true, { p with origin := o })
        | .error (.refused ..) => .ok (false, p)
        | .error e => .error (.move e)
      if !recorded then return .refused
      else
        match peerInfo with
        | none => return .queued
        | some _ =>
          -- any failure from here on leaves the committed retry row to carry the forward
          Task.catching (sendForward S args settlementId retryId) fun _ => pure .queued

/-! ## §6. The retries -/

/-- The retries a pass takes up. -/
def pendingRetries (o : Origin) : List Retry :=
  o.retries.filter fun r =>
    r.status = .pending ∧ r.nextRetryAt ≤ o.ambient.now ∧ r.attempts < r.maxAttempts

/-- A forward delivered or failed by another path ends the retry. -/
def notResent (retry : Retry) (o : Origin) : Origin :=
  let status := (forwardOf o retry.settlementId).map (·.status)
  { o with
    retries := updateWhere (fun r => r.retryId = retry.retryId ∧ r.status = .pending)
      (fun r => { r with
        status := if status = some .delivered then .completed else .failed
        lastError := some ("forward is " ++ Escrow.forwardText status ++ "; not re-sent") })
      o.retries }

inductive Claimed
  | notSent
  | peerGone
  | sending
  deriving DecidableEq

/-- The first turn of a retry: the send claim, then the peer's row; with no peer the forward is
    failed and refunded in the same turn. -/
def claimRetry (S : Setup) (retry : Retry) (p : Pair) : Except OriginFault (Claimed × Pair) :=
  match beginForwardSend retry.settlementId p.origin with
  | .error e => .error e
  | .ok false => .ok (.notSent, { p with origin := notResent retry p.origin })
  | .ok true =>
    match p.origin.peers retry.peerRelayId with
    | some _ => .ok (.sending, p)
    | none => .ok (.peerGone, exhaust S retry
        (fun r => { r with status := .failed, lastError := some "Peer relay no longer exists" }) p)

/-- The send of a retry, signed and claimed again. -/
def resend (retry : Retry) : OriginWork Unit := do
  signFederationRequest retry.peerRelayId
  match ← Task.txn (claimAndSend retry.peerRelayId retry.payload) with
  | none => pure ()
  | some n =>
    match postFault (← Task.ask (PairWait.post n)) with
    | some e => throw e
    | none =>
      onOrigin fun o => ((), acknowledge retry.settlementId (updateWhere
        (fun r => r.retryId = retry.retryId) fun r => { r with status := .completed }) o)

/-- What a failed attempt does: the attempt is counted, or the retries are exhausted; true when
    the freeze stops the pass.  `delay` is the backoff. -/
def attemptFailed (S : Setup) (delay : Nat → Nat) (retry : Retry) (e : OriginFault) (p : Pair) :
    Bool × Pair :=
  let newAttempts := retry.attempts + 1
  match e with
  | .emergencyFrozen => (true, p)
  | e =>
    if retry.maxAttempts ≤ newAttempts then
      if p.origin.ambient.frozen then (true, p)
      else (false, exhaust S retry (fun r =>
        { r with status := .failed, attempts := newAttempts, lastError := some e.message }) p)
    else
      (false, { p with origin := updateRetry retry.retryId (fun r =>
        { r with
          attempts := newAttempts
          nextRetryAt := p.origin.ambient.now + delay (newAttempts - 1)
          lastError := some e.message }) p.origin })

/-- One retry of a pass; true when the pass stops. -/
def processRetry (S : Setup) (delay : Nat → Nat) (retry : Retry) : OriginWork Bool :=
  Task.catching
    (do
      match ← Task.txn (claimRetry S retry) with
      | .sending => resend retry
      | .notSent | .peerGone => pure ()
      return false)
    fun e => Task.act (attemptFailed S delay retry e)

def processAll (S : Setup) (delay : Nat → Nat) : List Retry → OriginWork Unit
  | [] => pure ()
  | retry :: rest => do
    if ← processRetry S delay retry then pure () else processAll S delay rest

def processSettlementRetries (S : Setup) (delay : Nat → Nat) : OriginWork Unit := do
  processAll S delay (← onOrigin fun o => (pendingRetries o, o))

/-! ## §7. The executor's route -/

/-- The settlement a request asks for. -/
def SettlementBody.verified (b : SettlementBody) : VerifiedSettlement where
  taskId := b.taskId
  settlementId := b.settlementId
  originRelay := b.originRelay
  grossAmount := b.grossAmount
  receiptHash := b.receiptHash

def setFate (n : Nat) (fate : Fate) (p : Pair) : Pair :=
  { p with requests := p.requests.modify n fun r => { r with fate := fate } }

def handling (n : Nat) (p : Pair) : Bool := p.requests[n]?.any (·.fate = .taken)

/-- One turn of the handler of request `n`, after which `mark` notes what became of the request.
    A handler whose process died does nothing more. -/
def onExecutor (n : Nat) (mark : Pair → Pair) {β : Type}
    (f : Executor → Except ExecutorFault (β × Executor)) : ExecutorWork β :=
  Task.txn fun p =>
    if handling n p then
      match f p.executor with
      | .ok (b, e) => .ok (b, mark { p with executor := e })
      | .error fault => .error fault
    else .error (.error "the process died")

def signRecord : ExecutorWork Unit := do
  match ← Task.ask PairWait.sign with
  | some _ => throw .unsigned
  | none => pure ()

/-- `POST /federation/v1/settlement/forward` for request `n`, once it arrived. -/
def settlementForward (S : Setup) (n : Nat) (r : Request) : ExecutorWork Unit := do
  match ← Task.ask (PairWait.verify n) with
  | .refused status message => throw (.http status message)
  | .limited message => throw (.http 429 message)
  | .verified =>
    let _ ← onSettlementReceived S.executorRate (onExecutor n id) signRecord
      (fun _ => onExecutor n (setFate n .recorded)) r.body.verified
    Task.modify fun p => { p with acked := n :: p.acked }

/-- The executor takes request `n` off the network, if it is there for it. -/
def takeRequest (S : Setup) (n : Nat) (p : Pair) : Option Request × Pair :=
  match p.requests[n]? with
  | some r =>
    if r.fate = .travelling ∧ r.recipient = S.executorId then (some r, setFate n .taken p)
    else (none, p)
  | none => (none, p)

/-- A request that arrived is handled; a refusal is its end. -/
def handleRequest (S : Setup) (n : Nat) : ExecutorWork Unit := do
  match ← Task.act (takeRequest S n) with
  | none => pure ()
  | some r =>
    Task.catching (settlementForward S n r) fun _ =>
      Task.modify fun p => if handling n p then setFate n .refused p else p

/-! ## §8. The two relays -/

/-- What else happens.  The origin's other work may do anything to its tables except to the
    forwards, the retries and the ids drawn; the executor's may do anything except to its
    federated settlements, which other peers' settlement-forwards add to; a request is lost; the
    executor's process dies. -/
inductive Beside (S : Setup) : Pair → Pair → Prop
  | origin (p : Pair) (o : Origin)
      (hforwards : o.escrow.federationSettlements = p.origin.escrow.federationSettlements)
      (hretries : o.retries = p.origin.retries) (hminted : o.minted = p.origin.minted) :
      Beside S p { p with origin := o }
  | executor (p : Pair) (e : Executor) (hsame : SameSettlements p.executor e) :
      Beside S p { p with executor := e }
  | peer (p : Pair) (row : FederationRow) (new : Bool) (e : Executor)
      (hpeer : row.upstreamRelayId ≠ S.originId)
      (hrow : recordInboundFederatedSettlement row row.agentId p.executor = .ok (new, e)) :
      Beside S p { p with executor := e }
  | lose (p : Pair) (n : Nat) (htravelling : p.requests[n]?.any (·.fate = .travelling)) :
      Beside S p (setFate n .gone p)
  | die (p : Pair) : Beside S p { p with
      requests := p.requests.map fun r => if r.fate = .taken then { r with fate := .gone } else r }

/-- A forward of any task, a pass over the retries, a request at the executor. -/
inductive Starts (S : Setup) (t : Nat) : Prog Pair PairWait PairHeard Unit → Prop
  | forward (args : ForwardArgs) : Starts S t (forwardOriginSettlement S args).detach
  | retries (delay : Nat → Nat) : Starts S t (processSettlementRetries S delay).detach
  | request (n : Nat) : Starts S t (handleRequest S n).detach

/-- A 2xx from the executor means that it answered so; every other answer may be an error. -/
def Answers (S : Setup) (p : Pair) : (w : PairWait) → PairHeard w → Pair → Prop
  | .sign, _, p' => p' = p
  | .post n, a, p' => p' = p ∧
      (a = .ok → (p.requests[n]?.map (·.recipient)) = some S.executorId → n ∈ p.acked)
  | .verify _, _, p' => p' = p

/-- Nothing forwarded, nothing received. -/
structure Quiescent (p : Pair) : Prop where
  forwards : p.origin.escrow.federationSettlements = []
  retries : p.origin.retries = []
  federation : p.executor.federation = []
  credits : p.executor.credits = []
  requests : p.requests = []
  acked : p.acked = []
  hasty : p.hasty = false

/-- The origin and the executor. -/
def pair (S : Setup) : World Pair PairWait PairHeard where
  init := Quiescent
  entry := Starts S
  answer := Answers S
  env := Beside S
  crash p p' := p' = p

end Motebit.Federation
