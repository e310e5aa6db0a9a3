/-
  Motebit.Idempotency.Model — IDEMPOTENCY KEYS AND PAYMENT-PROOF CLAIMS
  (services/relay/src/idempotency.ts), and the requests that use them.

  A task submission claims its `(key, motebit)` row, prepares, admits its task in one
  transaction (bind the row, bind the payment proof, enqueue), dispatches it, and records the
  response its client got.  A request that throws before admission releases the row; one that
  throws after it records the failure (tasks.ts, middleware.ts).  Any number of requests run
  interleaved; the sweep deletes rows older than a day; the process may die at any moment.

  The store also keeps a history no statement reads: which request admitted which task, which
  response each admitted task got, and which row each completion found.
-/

import Motebit.Lib.Run
import Motebit.Lib.Throws

namespace Motebit.Idempotency

open Motebit.Lib Function

/-! ## §1. Rows -/

/-- How long idempotency records are retained (24 hours), in milliseconds. -/
def IDEMPOTENCY_TTL_MS : Nat := 24 * 60 * 60 * 1000

/-- The primary key of `relay_idempotency_keys`. -/
structure Scope where
  key : String
  motebitId : String
  deriving DecidableEq

inductive Status
  | processing
  | completed
  deriving DecidableEq

structure IdempotencyRecord where
  status : Status
  responseStatus : Option Nat
  responseBody : Option String
  createdAt : Nat
  completedAt : Option Nat
  taskId : Option String
  deriving DecidableEq

def IdempotencyRecord.respond (row : IdempotencyRecord) (now status : Nat) (body : String) :
    IdempotencyRecord :=
  { row with
    status := .completed
    responseStatus := some status
    responseBody := some body
    completedAt := some now }

inductive IdempotencyCheckResult
  | proceed
  | replay (status : Nat) (body : String)
  | conflict (taskId : Option String)
  deriving DecidableEq

structure P2pProofClaim where
  taskId : String
  submittedBy : String
  submitterVerified : Bool
  deriving DecidableEq

/-! ## §2. The store -/

/-- A task admitted by request `request`, which had claimed the row of `scope` at
    `claimedAt`. -/
structure Admission where
  request : Nat
  scope : Scope
  claimedAt : Nat
  taskId : String
  deriving DecidableEq

/-- The response the request that admitted `taskId` ended with. -/
structure Outcome where
  taskId : String
  status : Nat
  body : String
  deriving DecidableEq

/-- A `completeIdempotency` call: whose it was, when, and the task the row it found was bound
    to. -/
structure Completion where
  taskId : String
  claimedAt : Nat
  completedAt : Nat
  found : Option String
  deriving DecidableEq

structure Store where
  now : Nat
  keys : Scope → Option IdempotencyRecord
  proofs : String → Option P2pProofClaim
  queue : List String
  admissions : List Admission
  bindings : List (String × String)
  outcomes : List Outcome
  completions : List Completion

def Store.setKey (s : Store) (scope : Scope) (row : Option IdempotencyRecord) : Store :=
  { s with keys := update s.keys scope row }

/-! ## §3. Statements -/

/-- `INSERT OR IGNORE`, then read what is there. -/
def checkIdempotency (scope : Scope) (s : Store) : IdempotencyCheckResult × Store :=
  match s.keys scope with
  | none =>
    (.proceed, s.setKey scope (some ⟨.processing, none, none, s.now, none, none⟩))
  | some row =>
    match row.status, row.responseStatus, row.responseBody with
    | .completed, some status, some body => (.replay status body, s)
    | _, _, _ => (.conflict row.taskId, s)

/-- `UPDATE … WHERE idempotency_key = ? AND motebit_id = ?`: any row of the key. -/
def completeIdempotency (scope : Scope) (status : Nat) (body : String) (s : Store) : Store :=
  match s.keys scope with
  | none => s
  | some row =>
    s.setKey scope (some (row.respond s.now status body))

inductive Fault
  | refused
  | funding
  | claimNotOwned (scope : Scope) (taskId : String)
  | proofAlreadyAdmitted (existing : P2pProofClaim)
  deriving DecidableEq

def bindIdempotencyClaimToTask (scope : Scope) (taskId : String) (s : Store) : Except Fault Store :=
  match s.keys scope with
  | none => .error (.claimNotOwned scope taskId)
  | some row =>
    if row.status = .processing ∧ row.taskId = none then
      .ok (s.setKey scope (some { row with taskId := some taskId }))
    else .error (.claimNotOwned scope taskId)

/-- Written only over the claim bound to that exact task and still processing. -/
def recordAdmittedOutcome (scope : Scope) (taskId : String) (status : Nat) (body : String)
    (s : Store) : Bool × Store :=
  match s.keys scope with
  | none => (false, s)
  | some row =>
    if row.taskId = some taskId ∧ row.status = .processing then
      (true, s.setKey scope (some (row.respond s.now status body)))
    else (false, s)

/-- Deletes only a still-processing row that admitted nothing. -/
def releaseIdempotency (scope : Scope) (s : Store) : Store :=
  match s.keys scope with
  | none => s
  | some row =>
    if row.status = .processing ∧ row.taskId = none then
      s.setKey scope none
    else s

/-- `DELETE … WHERE created_at < now - TTL`. -/
def cleanupIdempotencyKeys (s : Store) : Store :=
  { s with keys := fun scope =>
    (s.keys scope).filter fun row => decide (s.now ≤ row.createdAt + IDEMPOTENCY_TTL_MS) }

def findP2pProofClaim (txHash : String) (s : Store) : Option P2pProofClaim := s.proofs txHash

inductive ProofBinding
  | bound
  | unbound (existing : P2pProofClaim)
  deriving DecidableEq

/-- `INSERT OR IGNORE` on the tx hash; the same task again is bound already. -/
def bindP2pProofToTask (txHash taskId submittedBy : String) (submitterVerified : Bool)
    (s : Store) : ProofBinding × Store :=
  match findP2pProofClaim txHash s with
  | none =>
    let claim : P2pProofClaim := ⟨taskId, submittedBy, submitterVerified⟩
    (.bound, { s with proofs := update s.proofs txHash (some claim) })
  | some existing => if existing.taskId = taskId then (.bound, s) else (.unbound existing, s)

/-! ## §4. Requests -/

/-- What a submission has settled on when it reaches admission. -/
structure Prepared where
  taskId : String
  txHash : Option String
  submittedBy : String
  submitterVerified : Bool
  /-- The budget hold inside the transaction throws. -/
  fundingFails : Bool
  deriving DecidableEq

/-- What a request waits for. -/
inductive Ask
  | prepare
  | dispatch
  | render
  deriving DecidableEq

/-- A preparation throws or gives what to admit; a dispatch throws or gives the 201 body;
    rendering gives the response the admission-outcome middleware reads back. -/
abbrev Reply : Ask → Type
  | .prepare => Option Prepared
  | .dispatch => Option String
  | .render => Nat × String

abbrev Request (α : Type) := Task Store Ask Reply Fault α

/-- Bind the payment proof of a submission that has one. -/
def bindProof (p : Prepared) (s : Store) : Except Fault Store :=
  match p.txHash with
  | none => .ok s
  | some txHash =>
    match bindP2pProofToTask txHash p.taskId p.submittedBy p.submitterVerified s with
    | (.bound, s') => .ok { s' with bindings := (txHash, p.taskId) :: s'.bindings }
    | (.unbound existing, _) => .error (.proofAlreadyAdmitted existing)

/-- The admission transaction: the hold, the claim bound to the task, the proof bound to the
    task, and the queued task. -/
def admission (request : Nat) (scope : Scope) (claimedAt : Nat) (p : Prepared) (s : Store) :
    Except Fault (String × Store) := do
  if p.fundingFails then throw .funding
  let s₁ ← bindIdempotencyClaimToTask scope p.taskId s
  let s₂ ← bindProof p s₁
  return (p.taskId, { s₂ with
    queue := p.taskId :: s₂.queue
    admissions := ⟨request, scope, claimedAt, p.taskId⟩ :: s₂.admissions })

/-- The handler between the claim and the end of the admission transaction. -/
def admitTask (request : Nat) (scope : Scope) (claimedAt : Nat) : Request String := do
  match ← Task.ask Ask.prepare with
  | none => throw .refused
  | some p => Task.txn (admission request scope claimedAt p)

/-- `completeIdempotency(key, motebit, 201, body)` of the request that admitted `taskId`. -/
def complete (scope : Scope) (claimedAt : Nat) (taskId body : String) (s : Store) : Store :=
  { completeIdempotency scope 201 body s with
    outcomes := ⟨taskId, 201, body⟩ :: s.outcomes
    completions :=
      ⟨taskId, claimedAt, s.now, (s.keys scope).bind (·.taskId)⟩ :: s.completions }

/-- `recordAdmittedOutcome` of the request that admitted `taskId`. -/
def recordOutcome (scope : Scope) (taskId : String) (status : Nat) (body : String)
    (s : Store) : Store :=
  match recordAdmittedOutcome scope taskId status body s with
  | (true, s') => { s' with outcomes := ⟨taskId, status, body⟩ :: s'.outcomes }
  | (false, s') => s'

/-- What the handler and the admission-outcome middleware do once the task is admitted. -/
def conclude (scope : Scope) (claimedAt : Nat) (taskId : String) : Request Unit := do
  match ← Task.ask Ask.dispatch with
  | some body => Task.modify (complete scope claimedAt taskId body)
  | none => Task.modify (releaseIdempotency scope)
  let response ← Task.ask Ask.render
  Task.modify (recordOutcome scope taskId response.1 response.2)

/-- The check at the door, with the time it read. -/
def claim (scope : Scope) (s : Store) : (IdempotencyCheckResult × Nat) × Store :=
  (((checkIdempotency scope s).1, s.now), (checkIdempotency scope s).2)

/-- `POST /agent/:motebitId/task`.  The error boundary releases the claim of a request that
    throws; only a request that proceeded has one to release. -/
def submitTask (request : Nat) (scope : Scope) : Request Unit := do
  let (action, claimedAt) ← Task.act (claim scope)
  match action with
  | .replay _ _ => pure ()
  | .conflict _ => pure ()
  | .proceed =>
    let admitted ← Task.catching (some <$> admitTask request scope claimedAt) fun _ => do
      Task.modify (releaseIdempotency scope)
      pure none
    match admitted with
    | none => pure ()
    | some taskId => conclude scope claimedAt taskId

/-- A federated forward received with a payment proof (federation-callbacks.ts): no key, but
    the same claim on the proof. -/
def receiveForward (taskId txHash federatedSubmitter : String) (s : Store) :
    Except Fault (Unit × Store) :=
  match bindP2pProofToTask txHash taskId federatedSubmitter false s with
  | (.bound, s') =>
    .ok ((), { s' with
      queue := taskId :: s'.queue
      bindings := (txHash, taskId) :: s'.bindings })
  | (.unbound existing, _) => .error (.proofAlreadyAdmitted existing)

/-! ## §5. The relay -/

/-- Time passes, or the cleanup interval fires. -/
inductive Background : Store → Store → Prop
  | tick (s : Store) (now : Nat) (h : s.now ≤ now) : Background s { s with now := now }
  | cleanup (s : Store) : Background s (cleanupIdempotencyKeys s)

/-- A submission, or a forward from a peer. -/
inductive Entry (t : Nat) : Prog Store Ask Reply Unit → Prop
  | submit (scope : Scope) : Entry t (submitTask t scope).detach
  | forward (taskId txHash federatedSubmitter : String) :
      Entry t (Task.txn (receiveForward taskId txHash federatedSubmitter) : Request Unit).detach

def Store.empty (now : Nat) : Store :=
  ⟨now, fun _ => none, fun _ => none, [], [], [], [], []⟩

/-- Requests in any number, answered in any order or never; a death loses them and keeps the
    database. -/
def relay : World Store Ask Reply where
  init s := ∃ now, s = Store.empty now
  entry := Entry
  answer s _ _ s' := s' = s
  env := Background
  crash s s' := s' = s

end Motebit.Idempotency
