/-
  Motebit.Disputes.Tables — THE DISPUTE TABLES and the statements over them
  (services/relay/src/disputes.ts, dispute-orchestration.ts).

  Every UPDATE of a dispute's state is guarded on the state it leaves (`moveDispute`).  Round 1
  is inserted; round 2 is inserted or replaces the row that stands.

  The store also keeps a history no statement reads: which row each round-2 verdict found when
  it was written, the vote fan-outs with the answers they got, and the attempts and round-2
  commits in flight.
-/

import Motebit.Escrow.Model
import Motebit.Disputes.Verdict
import Motebit.Lib.Keyed
import Motebit.Lib.Throws

namespace Motebit.Disputes

open Motebit.Lib Function
open Motebit.Accounts (DisputeState)

/-! ## §1. Rows -/

/-- Why a verdict's fund action moved nothing. -/
inductive FundRefusalReason
  | taskMismatch | noAllocation | unroutable | clawbackInsufficient | underReview
  deriving DecidableEq

/-- The verdict columns of a dispute row. -/
structure Ruling where
  resolution : DisputeOutcome
  rationale : String
  money : Money
  adjudicator : String
  deriving DecidableEq

/-- A row of `relay_disputes`. -/
structure Dispute where
  disputeId : String
  taskId : String
  allocationId : String
  filedBy : String
  respondent : String
  state : DisputeState
  amountLocked : Int
  filedAt : Nat
  evidenceDeadline : Nat
  bodyJson : String
  filerRole : Option FilerRole
  ruling : Option Ruling
  resolvedAt : Option Nat
  appealedAt : Option Nat
  finalAt : Option Nat
  expiredAt : Option Nat
  fundRefusal : Option FundRefusalReason
  deriving DecidableEq

/-- A row of `relay_dispute_resolutions`, keyed by dispute and round. -/
structure DisputeResolution where
  resolution : DisputeOutcome
  rationale : String
  money : Money
  adjudicator : String
  adjudicatorVotes : List AdjudicatorVote
  resolvedAt : Nat
  signature : String
  deriving DecidableEq

def DisputeResolution.ruling (row : DisputeResolution) : Ruling :=
  ⟨row.resolution, row.rationale, row.money, row.adjudicator⟩

inductive Regime
  | preSettlement | postSettlement
  deriving DecidableEq

/-- A row of `relay_dispute_fund_actions`. -/
structure FundActionClaim where
  allocationId : String
  taskId : String
  disputeId : String
  money : Money
  regime : Regime
  workerAmount : Int
  delegatorAmount : Int
  executedAt : Nat
  deriving DecidableEq

/-- A row of `relay_dispute_votes`, keyed by dispute, round and peer. -/
structure VoteRow where
  vote : DisputeOutcome
  rationale : String
  signature : String
  deriving DecidableEq

inductive OrchestrationStatus
  | inProgress | done | timedOut
  deriving DecidableEq

/-- A row of `relay_dispute_orchestrations`, keyed by dispute and round. -/
structure OrchestrationRow where
  status : OrchestrationStatus
  startedAt : Nat
  lastAttemptAt : Nat
  nextAttemptAt : Option Nat
  attemptCount : Nat
  deadlineAt : Nat
  deriving DecidableEq

inductive AllocationStatus
  | locked | settled | released | disputed
  deriving DecidableEq

def AllocationStatus.text : AllocationStatus → String
  | .locked => "locked"
  | .settled => "settled"
  | .released => "released"
  | .disputed => "disputed"

/-- A dispute's state as the source spells it. -/
def stateText : DisputeState → String
  | .opened => "opened"
  | .evidence => "evidence"
  | .arbitration => "arbitration"
  | .resolved => "resolved"
  | .appealed => "appealed"
  | .final => "final"
  | .expired => "expired"

inductive PeerState
  | pending | active | suspended | removed
  deriving DecidableEq

/-- What a peer answered a vote request with; `verified` is the signature check under the
    peer's key. -/
inductive PeerAnswer
  /-- Timeout, fetch error, non-200 or a malformed body. -/
  | failed
  | vote (v : AdjudicatorVote) (verified : Bool)
  deriving DecidableEq

/-! ## §2. History -/

/-- Which door ran a fan-out. -/
inductive Door
  | attempt | appeal
  deriving DecidableEq

/-- A fan-out: the votes persisted when it was sent, the peers contacted and their answers. -/
structure Fanout where
  door : Door
  disputeId : String
  round : Round
  persisted : List AdjudicatorVote
  contacted : List String
  answers : String → PeerAnswer

/-- A round-2 row written over what stood there. -/
structure Round2Write where
  disputeId : String
  found : Option DisputeResolution
  written : DisputeResolution
  deriving DecidableEq

/-- An attempt to resolve round 1 in flight; `marked` once its orchestration row is `done` or
    `timed_out`. -/
structure Attempt where
  disputeId : String
  marked : Bool
  deriving DecidableEq

/-! ## §3. The store -/

structure Store where
  now : Nat
  frozen : Bool
  escrow : Escrow.Db
  allocationStatus : String → AllocationStatus
  disputes : Keyed String Dispute
  resolutions : String → Round → Option DisputeResolution
  fundActions : List FundActionClaim
  votes : Keyed (String × Round × String) VoteRow
  orchestrations : Keyed (String × Round) OrchestrationRow
  peers : Keyed String PeerState
  round2Writes : List Round2Write
  fanouts : List Fanout
  running : List (Nat × Attempt)
  interrupted : Bool
  committing : List (Nat × String)
  raced : Bool

def Store.empty (now : Nat) : Store where
  now := now
  frozen := false
  escrow := .init
  allocationStatus _ := .locked
  disputes := ∅
  resolutions _ _ := none
  fundActions := []
  votes := ∅
  orchestrations := ∅
  peers := ∅
  round2Writes := []
  fanouts := []
  running := []
  interrupted := false
  committing := []
  raced := false

/-- What the escrow reads outside its own tables. -/
def Store.ambient (s : Store) : Escrow.Ambient :=
  ⟨s.frozen, s.now, s.disputes.entries.map fun e => ⟨e.2.taskId, e.2.state⟩⟩

/-! ## §4. Disputes and resolutions -/

def getDispute (disputeId : String) (s : Store) : Option Dispute := s.disputes.lookup disputeId

def Store.putDispute (s : Store) (d : Dispute) : Store :=
  { s with disputes := s.disputes.insert d.disputeId d }

/-- `UPDATE relay_disputes SET … WHERE dispute_id = ? AND state …`; `none` when no row
    changed. -/
def moveDispute (disputeId : String) (ok : DisputeState → Bool) (set : Dispute → Dispute)
    (s : Store) : Option Store :=
  match getDispute disputeId s with
  | none => none
  | some d => if ok d.state then some (s.putDispute (set d)) else none

/-- Set or clear the operator-visible marker. -/
def recordFundRefusal (disputeId : String) (reason : Option FundRefusalReason) (s : Store) :
    Store :=
  (moveDispute disputeId (fun _ => true) (fun d => { d with fundRefusal := reason }) s).getD s

def Store.putResolution (s : Store) (disputeId : String) (round : Round)
    (row : DisputeResolution) : Store :=
  { s with
    resolutions := update s.resolutions disputeId
      (update (s.resolutions disputeId) round (some row)) }

def insertRound2 (disputeId : String) (row : DisputeResolution) (s : Store) : Store :=
  let write : Round2Write := ⟨disputeId, s.resolutions disputeId .second, row⟩
  { s.putResolution disputeId .second row with round2Writes := write :: s.round2Writes }

/-- The highest committed round: `ORDER BY round DESC LIMIT 1`. -/
def governing (s : Store) (disputeId : String) : Option DisputeResolution :=
  match s.resolutions disputeId .second with
  | some row => some row
  | none => s.resolutions disputeId .first

theorem getDispute_put (s : Store) (d : Dispute) (id : String) :
    getDispute id (s.putDispute d) = if id = d.disputeId then some d else getDispute id s := by
  by_cases h : id = d.disputeId
  · rw [if_pos h, h]
    exact AList.lookup_insert s.disputes
  · rw [if_neg h]
    exact AList.lookup_insert_ne h

theorem resolutions_put (s : Store) (id : String) (round : Round) (row : DisputeResolution)
    (id' : String) (round' : Round) : (s.putResolution id round row).resolutions id' round' =
      if id' = id ∧ round' = round then some row else s.resolutions id' round' := by
  unfold Store.putResolution
  by_cases hid : id' = id
  · subst hid
    by_cases hround : round' = round
    · subst hround
      simp
    · simp [hround]
  · simp [hid]

variable {ok : DisputeState → Bool} {set : Dispute → Dispute}

/-- **A guarded UPDATE** changes the one row it finds in a state it may leave. -/
theorem moveDispute_some {id : String} {s s' : Store} (h : moveDispute id ok set s = some s') :
    ∃ d, getDispute id s = some d ∧ ok d.state = true ∧ s' = s.putDispute (set d) := by
  unfold moveDispute at h
  split at h
  · cases h
  next d hd =>
  split at h
  · rename_i hok
    cases h
    exact ⟨d, hd, hok, rfl⟩
  · cases h

theorem moveDispute_none {id : String}
    {s : Store} (h : moveDispute id ok set s = none) {d : Dispute}
    (hd : getDispute id s = some d) : ok d.state = false := by
  unfold moveDispute at h
  rw [hd] at h
  dsimp only at h
  split at h
  · cases h
  · rename_i hok
    exact Bool.not_eq_true _ ▸ hok

/-! ## §5. Votes -/

/-- `SELECT … FROM relay_dispute_votes WHERE dispute_id = ? AND round = ?`. -/
def persistedVotes (disputeId : String) (round : Round) (s : Store) : List AdjudicatorVote :=
  (s.votes.entries.filter fun e => e.1.1 = disputeId ∧ e.1.2.1 = round).map fun e =>
    ⟨e.1.1, e.1.2.1, e.1.2.2, e.2.vote, e.2.rationale, e.2.signature⟩

def insertVote (v : AdjudicatorVote) (s : Store) : Store :=
  { s with
    votes := s.votes.insert (v.disputeId, v.round, v.peerId) ⟨v.vote, v.rationale, v.signature⟩ }

def fetchPeerVote (disputeId : String) (round : Round) (peerRelayId : String) :
    PeerAnswer → Option AdjudicatorVote
  | .failed => none
  | .vote v verified =>
    if v.disputeId ≠ disputeId ∨ v.round ≠ round then none
    else if v.peerId ≠ peerRelayId then none
    else if verified then some v else none

def validAnswers (disputeId : String) (round : Round) (peers : List String)
    (answers : String → PeerAnswer) : List AdjudicatorVote :=
  peers.filterMap fun peer => fetchPeerVote disputeId round peer (answers peer)

/-- The peers asked to vote: active or suspended, and not this relay. -/
def votingPeers (relayMotebitId : String) (s : Store) : List String :=
  (s.peers.entries.filter fun e =>
    (e.2 = .active ∨ e.2 = .suspended) ∧ e.1 ≠ relayMotebitId).map (·.1)

/-! ## §6. Orchestrations -/

def ORCHESTRATION_DEADLINE_MS : Nat := 72 * 60 * 60 * 1000

def ORCHESTRATION_BACKOFF_CAP_MS : Nat := 30 * 60 * 1000

def computeNextAttemptAt (attemptCount now : Nat) : Nat :=
  now + min (10000 * 2 ^ attemptCount) ORCHESTRATION_BACKOFF_CAP_MS

def getOrchestrationState (disputeId : String) (round : Round) (s : Store) :
    Option OrchestrationRow :=
  s.orchestrations.lookup (disputeId, round)

def Store.putOrchestration (s : Store) (disputeId : String) (round : Round)
    (row : OrchestrationRow) : Store :=
  { s with orchestrations := s.orchestrations.insert (disputeId, round) row }

def updateOrchestration (disputeId : String) (round : Round)
    (set : OrchestrationRow → OrchestrationRow) (s : Store) : Store :=
  match getOrchestrationState disputeId round s with
  | none => s
  | some row => s.putOrchestration disputeId round (set row)

theorem getOrchestrationState_put (s : Store) (id : String) (round : Round)
    (row : OrchestrationRow) (id' : String) (round' : Round) :
    getOrchestrationState id' round' (s.putOrchestration id round row) =
      if id' = id ∧ round' = round then some row else getOrchestrationState id' round' s := by
  unfold getOrchestrationState Store.putOrchestration
  by_cases h : (id', round') = (id, round)
  · rw [if_pos (Prod.mk.inj h), h]
    exact AList.lookup_insert s.orchestrations
  · rw [if_neg fun heq => h (Prod.ext heq.1 heq.2)]
    exact AList.lookup_insert_ne h

def firstAttempt (now : Nat) : OrchestrationRow :=
  ⟨.inProgress, now, now, some (computeNextAttemptAt 0 now), 0, now + ORCHESTRATION_DEADLINE_MS⟩

def markOrchestrationDone (disputeId : String) (round : Round) : Store → Store :=
  updateOrchestration disputeId round fun row =>
    { row with status := .done, nextAttemptAt := none }

def markOrchestrationTimedOut (disputeId : String) (round : Round) : Store → Store :=
  updateOrchestration disputeId round fun row =>
    { row with status := .timedOut, nextAttemptAt := none }

/-- `in_progress` rows whose next attempt is due, earliest first. -/
def getDueOrchestrations (now limit : Nat) (s : Store) : List (String × Round) :=
  s.orchestrations.smallest
    (fun _ row => row.status = .inProgress ∧ row.nextAttemptAt.any (· ≤ now))
    (fun row => row.nextAttemptAt.getD 0) limit

/-! ## §7. Attempts and commits in flight -/

def beginAttempt (t : Nat) (disputeId : String) (s : Store) : Store :=
  { s with running := (t, ⟨disputeId, false⟩) :: s.running }

/-- The attempt wrote `done` or `timed_out`. -/
def markAttempt (t : Nat) (disputeId : String) (s : Store) : Store :=
  { s with running := (t, ⟨disputeId, true⟩) :: s.running.filter (·.1 ≠ t) }

/-- Its commit returned. -/
def endAttempt (t : Nat) (s : Store) : Store :=
  { s with running := s.running.filter (·.1 ≠ t) }

/-- It threw. -/
def abandonAttempt (t : Nat) (s : Store) : Store :=
  { s with
    running := s.running.filter (·.1 ≠ t)
    interrupted := s.interrupted || s.running.any fun r => r.1 == t && r.2.marked }

/-- A round-2 commit begins; `raced` when another of its dispute is in flight or has left its
    row. -/
def beginRound2 (t : Nat) (disputeId : String) (s : Store) : Store :=
  { s with
    committing := (t, disputeId) :: s.committing
    raced := s.raced || s.committing.any (·.2 == disputeId)
      || (s.resolutions disputeId .second).isSome }

def endRound2 (t : Nat) (s : Store) : Store :=
  { s with committing := s.committing.filter (·.1 ≠ t) }

/-- The process died. -/
def abandonAll (s : Store) : Store :=
  { s with
    running := []
    interrupted := s.interrupted || s.running.any (·.2.marked)
    committing := [] }

end Motebit.Disputes
