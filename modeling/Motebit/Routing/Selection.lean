/-
  Motebit.Routing.Selection — WHICH WORKER TO HIRE, with a transcript of the decision, and its
  replay.

  Translated from `packages/semiring/src/worker-selection.ts`.  Numbers are those of an ordered
  field, and the Thompson draw is a parameter.
-/

import Mathlib.Algebra.Order.Floor.Defs
import Mathlib.Data.Prod.Lex
import Motebit.Routing.Network

namespace Motebit.Routing

open Motebit.Lib Motebit.Lib.Json Motebit.Traversal

/-! ## §1. Trust records -/

-- the numerals of the scores

scoped instance two_le_2 : Nat.AtLeastTwo 2 := ⟨by decide⟩
scoped instance two_le_3 : Nat.AtLeastTwo 3 := ⟨by decide⟩
scoped instance two_le_5 : Nat.AtLeastTwo 5 := ⟨by decide⟩
scoped instance two_le_10 : Nat.AtLeastTwo 10 := ⟨by decide⟩
scoped instance two_le_100 : Nat.AtLeastTwo 100 := ⟨by decide⟩
scoped instance two_le_1000 : Nat.AtLeastTwo 1000 := ⟨by decide⟩
scoped instance two_le_5000 : Nat.AtLeastTwo 5000 := ⟨by decide⟩

inductive AgentTrustLevel
  | unknown
  | first_contact
  | verified
  | trusted
  | blocked
  deriving DecidableEq

structure CapabilityStats (K : Type) where
  successful_tasks : Option K
  failed_tasks : Option K
  paid_failure_penalty : Option K

structure AgentTrustRecord (K : Type) where
  trust_level : AgentTrustLevel
  successful_tasks : Option K
  failed_tasks : Option K
  capability_stats : Option (JsMap Text (CapabilityStats K))

/-- `RankableWorker`; `bonded` is false where it is absent. -/
structure RankableWorker (K : Type) where
  motebit_id : Text
  trustRecord : Option (AgentTrustRecord K)
  unitCost : Option K
  bonded : Bool

structure ExplorationConfig (K : Type) where
  seed : Text
  strength : Option K

structure WorkerSelectionWeights (K : Type) where
  trust : K
  cost : K
  latency : K
  reliability : K

structure SelectionOptions (K : Type) where
  weights : Option (WorkerSelectionWeights K)
  explore : Option (ExplorationConfig K)
  capability : Option Text

variable {K : Type} [Field K] [LinearOrder K]

def trustLevelToScore : AgentTrustLevel → K
  | .unknown => 1 / 10
  | .first_contact => 3 / 10
  | .verified => 6 / 10
  | .trusted => 9 / 10
  | .blocked => 0

/-- The pseudo-counts of the prior. -/
def levelPrior : Option AgentTrustLevel → K × K
  | some .trusted => (3, 1)
  | some .verified => (2, 1)
  | _ => (1, 1)

def DEFAULT_LATENCY_MS : K := 5000

def COUNT_CAP : K := 100

def BOND_EXPLORE_BOOST : K := 2

def DEFAULT_WEIGHTS : WorkerSelectionWeights K := ⟨5 / 10, 2 / 10, 0, 3 / 10⟩

/-! ## §2. Quality -/

/-- `competenceCounts`: successful and failed. -/
def competenceCounts (record : Option (AgentTrustRecord K)) (capability : Option Text) : K × K :=
  match record with
  | none => (0, 0)
  | some record =>
    let stats := record.capability_stats.getD []
    match capability with
    | some capability =>
      let bucket := stats.get capability
      ((bucket.bind CapabilityStats.successful_tasks).getD 0,
        (bucket.bind CapabilityStats.failed_tasks).getD 0 +
          (bucket.bind CapabilityStats.paid_failure_penalty).getD 0)
    | none =>
      let penalty := stats.foldl (fun sum b => sum + b.2.paid_failure_penalty.getD 0) 0
      (record.successful_tasks.getD 0, record.failed_tasks.getD 0 + penalty)

/-- `clampStrength`; every number of a field is finite. -/
def clampStrength (x : K) : K := min 1 (max 0 x)

def cappedCounts [FloorRing K] (successful failed : K) : K × K :=
  let s0 : K := max 0 ⌊successful⌋
  let f0 : K := max 0 ⌊failed⌋
  let total := s0 + f0
  if total ≤ COUNT_CAP then (s0, f0)
  else
    let s : K := ⌊s0 * COUNT_CAP / total + 1 / 2⌋
    (s, COUNT_CAP - s)

structure QualityDetail (K : Type) where
  quality : K
  alpha : K
  beta : K
  theta : Option K

def drawSeed (seed id : Text) : Text := seed ++ toText ['|'] ++ id

def exploratoryQualityDetail [FloorRing K] (thompsonDraw : K → K → Text → K)
    (c : RankableWorker K) (explore : ExplorationConfig K) (capability : Option Text) :
    QualityDetail K :=
  let prior : K × K := levelPrior (c.trustRecord.map AgentTrustRecord.trust_level)
  let counts := competenceCounts c.trustRecord capability
  let capped := cappedCounts counts.1 counts.2
  let alpha := prior.1 + capped.1
  let beta := prior.2 + capped.2
  let mean := alpha / (alpha + beta)
  let base := clampStrength (explore.strength.getD 1)
  let strength := if c.bonded then min 1 (base * BOND_EXPLORE_BOOST) else base
  if strength ≤ 0 then ⟨mean, alpha, beta, none⟩
  else
    let draw := thompsonDraw alpha beta (drawSeed explore.seed c.motebit_id)
    ⟨mean + strength * (draw - mean), alpha, beta, some draw⟩

def reliabilityOf (record : Option (AgentTrustRecord K)) (capability : Option Text) : K :=
  match record with
  | none => 1 / 2
  | some record =>
    let counts := competenceCounts (some record) capability
    (1 + counts.1) / (2 + counts.1 + counts.2)

/-! ## §3. The ranking -/

def RankableWorker.blocked (c : RankableWorker K) : Bool :=
  c.trustRecord.map AgentTrustRecord.trust_level == some .blocked

/-- Exploration is active only at a positive strength. -/
def activeExplore (opts : SelectionOptions K) : Option (ExplorationConfig K) :=
  opts.explore.filter fun explore => 0 < clampStrength (explore.strength.getD 1)

def trustAxis [FloorRing K] (thompsonDraw : K → K → Text → K)
    (explore : Option (ExplorationConfig K)) (capability : Option Text) (c : RankableWorker K) :
    K :=
  match explore with
  | some explore => (exploratoryQualityDetail thompsonDraw c explore capability).quality
  | none => trustLevelToScore ((c.trustRecord.map AgentTrustRecord.trust_level).getD .unknown)

def reliabilityAxis [FloorRing K] (thompsonDraw : K → K → Text → K)
    (explore : Option (ExplorationConfig K)) (capability : Option Text) (c : RankableWorker K) :
    K :=
  match explore with
  | some _ => trustAxis thompsonDraw explore capability c
  | none => reliabilityOf c.trustRecord capability

def starWeight (trust cost latency reliability : K) : RouteWeight K
  | .trust => trust
  | .cost => cost
  | .latency => latency
  | .reliability => reliability
  | .regulatory_risk => 0

/-- The star around a source: an edge to each worker. -/
def starGraph (source : Text) (edges : List (Text × RouteWeight K)) :
    WeightedDigraph Text (RouteWeight K) :=
  edges.foldl (fun graph edge => graph.setEdge source edge.1 edge.2)
    (WeightedDigraph.empty.addNode source)

def WorkerSelectionWeights.route (weights : WorkerSelectionWeights K) : RouteWeight K :=
  starWeight weights.trust weights.cost weights.latency weights.reliability

/-- Highest score first, ties by id. -/
def bestFirst (agents : List (RankedAgent K)) : List (RankedAgent K) :=
  sortOn (fun agent => toLex (OrderDual.toDual agent.score, agent.motebit_id)) agents

structure WorkerRanking (K : Type) where
  motebit_id : Text
  score : K
  route : RouteWeight K

def RankedAgent.ranking (agent : RankedAgent K) : WorkerRanking K :=
  ⟨agent.motebit_id, agent.score, agent.route⟩

def rankWorkers [FloorRing K] (localeCompare : Text → Text → Int)
    (thompsonDraw : K → K → Text → K) (selfId : Text) (candidates : List (RankableWorker K))
    (opts : SelectionOptions K) : List (WorkerRanking K) :=
  let weights := opts.weights.getD DEFAULT_WEIGHTS
  let explore := activeExplore opts
  let graph := starGraph selfId ((candidates.filter fun c => !c.blocked).map fun c =>
    (c.motebit_id, starWeight (trustAxis thompsonDraw explore opts.capability c)
      (c.unitCost.getD 0) DEFAULT_LATENCY_MS
      (reliabilityAxis thompsonDraw explore opts.capability c)))
  (bestFirst (rankReachableAgents localeCompare graph selfId weights.route)).map
    RankedAgent.ranking

/-! ## §4. The transcript -/

/-- `TranscriptCandidate`; `bonded` is false where it is absent. -/
structure TranscriptCandidate (K : Type) where
  motebit_id : Text
  unit_cost : Option K
  bonded : Bool
  trust_axis : K
  reliability_axis : K
  alpha : Option K
  beta : Option K
  theta : Option K

structure RoutingDecisionBasis (K : Type) where
  capability : Text
  candidates : List (TranscriptCandidate K)
  seed : Text
  strength : K
  weights : WorkerSelectionWeights K
  count_cap : K
  bond_explore_boost : K
  default_latency_ms : K
  algorithm_version : String
  winner_motebit_id : Text
  explored : Bool

def WORKER_SELECTION_ALGORITHM_VERSION : String := "motebit-worker-selection@1"

/-- The frozen inputs of one candidate. -/
def freezeCandidate [FloorRing K] (thompsonDraw : K → K → Text → K)
    (explore : Option (ExplorationConfig K)) (capability : Option Text) (c : RankableWorker K) :
    TranscriptCandidate K :=
  match explore with
  | some explore =>
    let d := exploratoryQualityDetail thompsonDraw c explore capability
    ⟨c.motebit_id, c.unitCost, c.bonded, d.quality, d.quality, some d.alpha, some d.beta, d.theta⟩
  | none =>
    ⟨c.motebit_id, c.unitCost, c.bonded,
      trustLevelToScore ((c.trustRecord.map AgentTrustRecord.trust_level).getD .unknown),
      reliabilityOf c.trustRecord capability, none, none, none⟩

def rankIndex (ranking : List (WorkerRanking K)) : JsMap Text Nat :=
  ranking.zipIdx.foldl (fun index r => JsMap.set index r.1.motebit_id r.2) []

def MAX_SAFE_INTEGER : Nat := 9007199254740991

def rankWorkersWithBasis [FloorRing K] (localeCompare : Text → Text → Int)
    (thompsonDraw : K → K → Text → K) (selfId : Text) (candidates : List (RankableWorker K))
    (opts : SelectionOptions K) : Option (WorkerRanking K) × Option (RoutingDecisionBasis K) :=
  let weights := opts.weights.getD DEFAULT_WEIGHTS
  let explore := activeExplore opts
  let ranking := rankWorkers localeCompare thompsonDraw selfId candidates opts
  match ranking with
  | [] => (none, none)
  | winner :: _ =>
    let index := rankIndex ranking
    let frozen := sortOn
      (fun c : TranscriptCandidate K => (index.get c.motebit_id).getD MAX_SAFE_INTEGER)
      ((candidates.filter fun c => !c.blocked).map
        (freezeCandidate thompsonDraw explore opts.capability))
    let exploitTop := match explore with
      | some _ => (rankWorkers localeCompare thompsonDraw selfId candidates
          { opts with explore := none }).head?
      | none => some winner
    (some winner, some
      { capability := opts.capability.getD []
        candidates := frozen
        seed := (opts.explore.map ExplorationConfig.seed).getD []
        strength := match explore with
          | some explore => clampStrength (explore.strength.getD 1)
          | none => 0
        weights := weights
        count_cap := COUNT_CAP
        bond_explore_boost := BOND_EXPLORE_BOOST
        default_latency_ms := DEFAULT_LATENCY_MS
        algorithm_version := WORKER_SELECTION_ALGORITHM_VERSION
        winner_motebit_id := winner.motebit_id
        explored := explore.isSome &&
          exploitTop.any fun top => winner.motebit_id != top.motebit_id })

/-! ## §5. The replay -/

inductive RecomputeReason
  | unsupported_algorithm_version
  | empty_candidates
  | theta_mismatch
  | axis_mismatch
  | winner_mismatch
  deriving DecidableEq

structure RecomputeResult where
  consistent : Bool
  reason : Option RecomputeReason
  recomputed_winner : Option Text
  deriving DecidableEq

def checkDraw (thompsonDraw : K → K → Text → K) (basis : RoutingDecisionBasis K)
    (c : TranscriptCandidate K) : Option RecomputeReason :=
  match c.alpha, c.beta with
  | some alpha, some beta =>
    let mean := alpha / (alpha + beta)
    let eff := if c.bonded then min 1 (clampStrength basis.strength * basis.bond_explore_boost)
      else clampStrength basis.strength
    if 0 < eff then
      let draw := thompsonDraw alpha beta (drawSeed basis.seed c.motebit_id)
      if c.theta ≠ some draw then some .theta_mismatch
      else
        let quality := mean + eff * (draw - mean)
        if c.trust_axis ≠ quality ∨ c.reliability_axis ≠ quality then some .axis_mismatch else none
    else if c.trust_axis ≠ mean ∨ c.reliability_axis ≠ mean then some .axis_mismatch
    else none
  | _, _ => none

def recomputeRoot : Text := toText "transcript:recompute".toList

def recomputeRoutingDecision (localeCompare : Text → Text → Int)
    (thompsonDraw : K → K → Text → K) (basis : RoutingDecisionBasis K) : RecomputeResult :=
  if basis.algorithm_version ≠ WORKER_SELECTION_ALGORITHM_VERSION then
    ⟨false, some .unsupported_algorithm_version, none⟩
  else if basis.candidates = [] then ⟨false, some .empty_candidates, none⟩
  else match basis.candidates.findSome? (checkDraw thompsonDraw basis) with
  | some reason => ⟨false, some reason, none⟩
  | none =>
    let graph := starGraph recomputeRoot (basis.candidates.map fun c =>
      (c.motebit_id, starWeight c.trust_axis (c.unit_cost.getD 0) basis.default_latency_ms
        c.reliability_axis))
    let ranked := bestFirst (rankReachableAgents localeCompare graph recomputeRoot
      basis.weights.route)
    let recomputed := ranked.head?.map RankedAgent.motebit_id
    if recomputed ≠ some basis.winner_motebit_id then
      ⟨false, some .winner_mismatch, recomputed⟩
    else ⟨true, none, recomputed⟩

end Motebit.Routing
