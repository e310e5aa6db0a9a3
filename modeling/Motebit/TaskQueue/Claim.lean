/-
  Motebit.TaskQueue.Claim — ONE TASK, ONE BODY: the claim registry
  (services/relay/src/task-claim.ts) over the durable queue.

  A grant is a presentation that may lead to execution: a body's claim, the relay's own MCP
  forward, or the submitter's chosen presentation.  The registry's in-memory part is the set of
  leased task ids; a restart rebuilds it from the queue.

  The system below runs the registry's operations, answer writes and retention in any order.  It
  keeps the forwards in flight, each with whether its `tools/call` was sent, and a log of the
  grants given and the forwards released unsent.
-/

import Motebit.Lib.Transition
import Motebit.TaskQueue.AnswerInvariant

namespace Motebit.TaskQueue.Claim

open Motebit.Lib

/-! ## §1. The registry -/

/-- How long a visibly-expired (never granted) task stays readable. -/
def EXPIRED_VISIBLE_MS : Nat := 24 * 60 * 60 * 1000

/-- A `TaskClaims` instance over its durable queue. -/
structure TaskClaims where
  store : Store
  leased : List String

/-- A write of an entry read in the same turn.  `set` refuses a write only when it changes the
    answer or is stale (`write_of_read`). -/
def write (taskId : String) (entry : TaskQueueEntry) (s : Store) : Store :=
  match set taskId entry s with
  | .ok s' => s'
  | .error _ => s

/-- The constructor: re-adopt every leased claim the durable queue holds. -/
def construct (s : Store) : TaskClaims where
  store := s
  leased := (s.queue.entries.filter fun e =>
    e.2.task.status = .claimed && (e.2.claimLease.bind (·.expiresAt)).isSome).map (·.1)

structure ClaimingPeer where
  deviceId : String
  deviceIdVerified : Bool
  capabilities : Option (List String)
  authenticatedDid : Option String
  deviceIdDeclared : Option Bool
  deriving DecidableEq

inductive ClaimVerdict
  | granted (leaseMs : Option Nat)
  | rejected (reason : String)
  deriving DecidableEq

def lacksCapabilities (entry : TaskQueueEntry) (peer : ClaimingPeer) : Bool :=
  match peer.capabilities with
  | none => false
  | some caps => !entry.task.requiredCapabilities.all (caps.contains ·)

def bodyLease (peer : ClaimingPeer) (expiresAt : Option Nat) : TaskClaimLease :=
  { presenter := some .ws
    deviceId := peer.deviceId
    deviceVerified := peer.deviceIdVerified
    deviceGenerated := peer.deviceIdDeclared = some false
    authenticatedDid := peer.authenticatedDid.filter (· ≠ peer.deviceId)
    expiresAt := expiresAt }

def grantEntry (by_ : String) (lease : TaskClaimLease) (e : TaskQueueEntry) : TaskQueueEntry :=
  { e with
    task := { e.task with status := .claimed, claimedBy := some by_ }
    claimLease := some lease }

def claim (leaseMs : Nat) (taskId motebitId : String) (peer : ClaimingPeer) (lease : Bool)
    (now : Nat) (r : TaskClaims) : ClaimVerdict × TaskClaims :=
  match r.store.get taskId with
  | none => (.rejected "Task not found", r)
  | some entry =>
    if entry.task.motebitId ≠ motebitId then (.rejected "Task not found", r)
    else if pinRefusesClaim entry motebitId then (.rejected "not_pinned_executor", r)
    else if entry.task.status ≠ .pending ∨ entry.receipt ≠ none then
      (.rejected "already_claimed", r)
    else if entry.expiredUnclaimed ≠ none then (.rejected "expired", r)
    else if lacksCapabilities entry peer then (.rejected "Device lacks required capabilities", r)
    else
      let held := bodyLease peer (if lease then some (now + leaseMs) else none)
      let s' := write taskId (grantEntry peer.deviceId held entry) r.store
      if lease then (.granted (some leaseMs), ⟨s', r.leased.insert taskId⟩)
      else (.granted none, ⟨s', r.leased⟩)

/-- `task_claim_renew`: extend the lease when that device holds it; a lapsed claimer's renewal
    clears the undetermined mark. -/
def renew (leaseMs : Nat) (taskId motebitId deviceId : String) (now : Nat) (r : TaskClaims) :
    Bool × TaskClaims :=
  match r.store.get taskId with
  | none => (false, r)
  | some entry =>
    match entry.claimLease with
    | none => (false, r)
    | some lease =>
      if entry.task.motebitId ≠ motebitId ∨ entry.task.status ≠ .claimed ∨
          lease.expiresAt = none ∨ lease.deviceId ≠ deviceId then (false, r)
      else
        let held := { lease with undeterminedAt := none, expiresAt := some (now + leaseMs) }
        (true, ⟨write taskId { entry with claimLease := some held } r.store,
          r.leased.insert taskId⟩)

/-- The lease of the relay's own MCP forward: it cannot renew. -/
def forwardLease (workerId : String) : TaskClaimLease :=
  { presenter := some .mcpForward, deviceId := "mcp:" ++ workerId, deviceVerified := false }

/-- The relay's MCP forward takes the grant before its first request. -/
def grantForward (taskId workerId : String) (r : TaskClaims) : Bool × TaskClaims :=
  match r.store.get taskId with
  | none => (false, r)
  | some entry =>
    if entry.task.status ≠ .pending ∨ entry.receipt ≠ none ∨ entry.expiredUnclaimed ≠ none then
      (false, r)
    else if pinRefusesClaim entry workerId then (false, r)
    else
      (true, { r with
        store := write taskId (grantEntry ("mcp:" ++ workerId) (forwardLease workerId) entry)
          r.store })

/-- The entry returned to Pending. -/
def releaseEntry (e : TaskQueueEntry) : TaskQueueEntry :=
  { e with
    task := { e.task with status := .pending, claimedBy := none }
    claimLease := none }

/-- The entry whose grantee is lost, under `lease`. -/
def markEntry (lease : TaskClaimLease) (now : Nat) (reason : TaskUndeterminedReason)
    (e : TaskQueueEntry) : TaskQueueEntry :=
  { e with claimLease := some { lease with
      undeterminedAt := some now, undeterminedReason := some reason } }

/-- The forward the relay granted itself has ended; `called` is whether its `tools/call` was
    sent. -/
def forwardEnded (taskId : String) (called : Bool) (now : Nat) (r : TaskClaims) :
    Option TaskQueueEntry × TaskClaims :=
  match r.store.get taskId with
  | none => (none, r)
  | some entry =>
    match entry.claimLease with
    | none => (none, r)
    | some lease =>
      if entry.receipt ≠ none ∨ entry.task.status ≠ .claimed ∨
          lease.presenter ≠ some .mcpForward then (none, r)
      else if called = false then
        (some (releaseEntry entry), { r with store := write taskId (releaseEntry entry) r.store })
      else if lease.undeterminedAt = none then
        (none, { r with
          store := write taskId (markEntry lease now .forwardUnanswered entry) r.store })
      else (none, r)

def holdsUnresolvedGrant (taskId : String) (r : TaskClaims) : Bool :=
  match r.store.get taskId with
  | none => false
  | some entry => entry.receipt = none && entry.task.status = .claimed

/-- What the TTL pass does to one unanswered entry past its expiry. -/
def expireOne (now : Nat) (s : Store) (taskId : String) : Store :=
  match s.get taskId with
  | none => s
  | some entry =>
    if entry.receipt ≠ none ∨ now ≤ entry.expiresAt then s
    else if entry.task.status = .pending then
      if entry.expiredUnclaimed ≠ none then s
      else
        write taskId { entry with
          expiredUnclaimed := some now
          expiresAt := now + EXPIRED_VISIBLE_MS } s
    else if entry.task.status ≠ .claimed then s
    else
      match entry.claimLease with
      | none =>
        -- a claim written before leases existed
        write taskId (markEntry
          { presenter := none, deviceId := entry.task.claimedBy.getD "unknown",
            deviceVerified := false } now .unansweredAtExpiry entry) s
      | some lease =>
        if lease.undeterminedAt ≠ none then s
        else
          match lease.expiresAt with
          | none => write taskId (markEntry lease now .unansweredAtExpiry entry) s
          | some expiresAt =>
            if now < expiresAt then s
            else write taskId (markEntry lease now .claimerLost entry) s

/-- The TTL pass. -/
def expire (now : Nat) (r : TaskClaims) : TaskClaims :=
  { r with store := (unansweredPastExpiry now r.store).foldl (expireOne now) r.store }

/-- What the lease sweep does to one leased id. -/
def sweepOne (now : Nat) (r : TaskClaims) (taskId : String) : TaskClaims :=
  let dropped : TaskClaims := { r with leased := r.leased.filter (· ≠ taskId) }
  match r.store.get taskId with
  | none => dropped
  | some entry =>
    match entry.claimLease with
    | none => dropped
    | some lease =>
      match lease.expiresAt with
      | none => dropped
      | some expiresAt =>
        if entry.receipt ≠ none ∨ entry.task.status ≠ .claimed ∨ lease.undeterminedAt ≠ none then
          dropped
        else if now < expiresAt then r
        else { dropped with store := write taskId (markEntry lease now .claimerLost entry) r.store }

/-- Lapse every lease past its expiry. -/
def sweep (now : Nat) (r : TaskClaims) : TaskClaims := r.leased.foldl (sweepOne now) r

/-- The grant the submitter's chosen presentation takes at admission. -/
def grantToSubmitter (entry : TaskQueueEntry) (submitter : Option String) : TaskQueueEntry :=
  let name := "submitter:" ++ submitter.getD "operator"
  grantEntry name { presenter := some .submitter, deviceId := name, deviceVerified := false } entry

/-! ## §2. The log -/

/-- A grant, with the entry it was given on. -/
structure Grant where
  id : Nat
  taskId : String
  presenter : TaskGrantPresenter
  entry : TaskQueueEntry
  deriving DecidableEq

inductive Event
  | granted (g : Grant)
  | released (id : Nat) (taskId : String)
  deriving DecidableEq

def given (log : List Event) (taskId : String) : List Nat :=
  log.filterMap fun
    | .granted g => if g.taskId = taskId then some g.id else none
    | .released _ _ => none

/-- The grants on `taskId` released unsent. -/
def freed (log : List Event) (taskId : String) : List Nat :=
  log.filterMap fun
    | .granted _ => none
    | .released id task => if task = taskId then some id else none

/-! ## §3. The system -/

/-- A granted forward that has not reported its end. -/
structure Forward where
  grant : Nat
  taskId : String
  called : Bool
  deriving DecidableEq

structure State where
  claims : TaskClaims
  forwards : List Forward
  next : Nat
  /-- Newest first. -/
  log : List Event

inductive Act
  | enqueue (taskId : String) (entry : TaskQueueEntry)
  | enqueueGranted (taskId : String) (entry : TaskQueueEntry) (submitter : Option String)
  | claim (taskId motebitId : String) (peer : ClaimingPeer) (lease : Bool) (now : Nat)
  | renew (taskId motebitId deviceId : String) (now : Nat)
  | grantForward (taskId workerId : String)
  /-- The forward's `tools/call` is sent. -/
  | call (grant : Nat)
  | forwardEnded (f : Forward) (now : Nat)
  | expire (now : Nat)
  | sweep (now : Nat)
  | answer (taskId : String) (receipt : ExecutionReceipt) (door : AnswerDoor) (retainMs : Nat)
      (presenter : Option AnswerPresenter) (key : String)
  | claimStored (taskId : String) (door : AnswerDoor)
  | settle (table : SettlementTable) (row : SettlementRow)
  | markSettled (taskId signature : String)
  | cleanup (now : Nat)
  | evict (maxSize : Nat)
  | tick (now : Nat)
  | restart

def State.withStore (s : State) (store : Store) : State :=
  { s with claims := { s.claims with store := store } }

/-- The grant on record, given on `entry`. -/
def State.granted (s : State) (taskId : String) (presenter : TaskGrantPresenter)
    (entry : TaskQueueEntry) (claims : TaskClaims) : State :=
  { s with
    claims := claims
    next := s.next + 1
    log := .granted ⟨s.next, taskId, presenter, entry⟩ :: s.log }

/-- The grant on record, given on the entry `taskId` has. -/
def State.grantedOn (s : State) (taskId : String) (presenter : TaskGrantPresenter)
    (claims : TaskClaims) : State :=
  match s.claims.store.get taskId with
  | some entry => s.granted taskId presenter entry claims
  | none => { s with claims := claims }

/-- A write that may throw changes nothing when it does. -/
def State.attempt {α : Type} (s : State) (f : Store → Except QueueFault (α × Store)) : State :=
  match f s.claims.store with
  | .ok (_, store) => s.withStore store
  | .error _ => s

def apply (leaseMs : Nat) (s : State) : Act → State
  | .enqueue taskId entry => s.attempt fun store => (set taskId entry store).map ((), ·)
  | .enqueueGranted taskId entry submitter =>
    match set taskId (grantToSubmitter entry submitter) s.claims.store with
    | .ok store => s.granted taskId .submitter entry { s.claims with store := store }
    | .error _ => s
  | .claim taskId motebitId peer lease now =>
    match claim leaseMs taskId motebitId peer lease now s.claims with
    | (.granted _, claims) => s.grantedOn taskId .ws claims
    | (.rejected _, claims) => { s with claims := claims }
  | .renew taskId motebitId deviceId now =>
    { s with claims := (renew leaseMs taskId motebitId deviceId now s.claims).2 }
  | .grantForward taskId workerId =>
    match grantForward taskId workerId s.claims with
    | (true, claims) =>
      { s.grantedOn taskId .mcpForward claims with
        forwards := ⟨s.next, taskId, false⟩ :: s.forwards }
    | (false, claims) => { s with claims := claims }
  | .call grant =>
    { s with forwards := s.forwards.map fun f =>
        if f.grant = grant then { f with called := true } else f }
  | .forwardEnded f now =>
    let forwards := s.forwards.filter (·.grant ≠ f.grant)
    match forwardEnded f.taskId f.called now s.claims with
    | (some _, claims) =>
      { s with
        claims := claims, forwards := forwards, log := .released f.grant f.taskId :: s.log }
    | (none, claims) => { s with claims := claims, forwards := forwards }
  | .expire now => { s with claims := expire now s.claims }
  | .sweep now => { s with claims := sweep now s.claims }
  | .answer taskId receipt door retainMs presenter key =>
    s.attempt (answerWrite taskId receipt door retainMs presenter key)
  | .claimStored taskId door => s.attempt (claimStoredAnswer taskId door)
  | .settle table row => s.attempt fun store => (insertSettlement table row store).map ((), ·)
  | .markSettled taskId signature => s.attempt (markTaskSettled taskId signature)
  | .cleanup now => s.withStore (cleanup now s.claims.store)
  | .evict maxSize => s.withStore (evict maxSize s.claims.store)
  | .tick now => s.withStore { s.claims.store with now := now }
  | .restart => { s with claims := construct s.claims.store, forwards := [] }

/-- A task is enqueued once, pending and unpresented; a forward reports its end once. -/
def enabled (s : State) : Act → Prop
  | .enqueue taskId entry | .enqueueGranted taskId entry _ =>
    taskId ∉ s.claims.store.issued ∧ entry.task.status = .pending ∧ entry.receipt = none ∧
      entry.claimLease = none ∧ entry.expiredUnclaimed = none
  | .forwardEnded f _ => f ∈ s.forwards
  | _ => True

def relayClaims (leaseMs : Nat) (now : Nat) (epoch : Option Nat) : System State Act where
  init := ⟨construct (Store.empty now epoch), [], 0, []⟩
  enabled := enabled
  apply := apply leaseMs

end Motebit.TaskQueue.Claim
