/-
  Motebit.Market.GraphRouting — RANKING CANDIDATES OVER A ROUTING GRAPH.

  Translated from `packages/market/src/graph-routing.ts`, with what it reads of `scoring.ts`,
  `credential-weight.ts` and `hardware-attestation.ts`.  Numbers are those of an ordered field,
  so none is `NaN` or infinite; the two frontier searches are a parameter.
-/

import Motebit.Routing.Selection
import Motebit.Traversal.Edges

namespace Motebit.Market

open Motebit.Lib Motebit.Lib.Json Motebit.Traversal Motebit.Routing

/-! ## §1. Candidates and requirements -/

/-- `AgentTrustRecord`, as far as the routing reads it. -/
structure TrustRecord (K : Type) where
  trust_level : AgentTrustLevel
  successful_tasks : Option K
  failed_tasks : Option K
  avg_quality : Option K
  quality_sample_count : Option K

structure CapabilityPrice (K : Type) where
  capability : Text
  unit_cost : K

structure Sla (K : Type) where
  max_latency_ms : K
  availability_guarantee : K

structure AgentServiceListing (K : Type) where
  capabilities : List Text
  pricing : List (CapabilityPrice K)
  sla : Option (Sla K)
  regulatory_risk : Option K

structure CredentialReputation (K : Type) where
  success_rate : K
  trust_score : K
  issuer_count : K
  total_weight : K

inductive Platform
  | secure_enclave
  | tpm
  | play_integrity
  | android_keystore
  | device_check
  | webauthn
  | software
  deriving DecidableEq

/-- `HardwareAttestationClaim`; `key_exported` is false where it is absent. -/
structure HardwareAttestationClaim where
  platform : Platform
  key_exported : Bool

/-- `CandidateProfile`.  Of the latency the average, of the aggregate the score. -/
structure CandidateProfile (K : Type) where
  motebit_id : Text
  trust_record : Option (TrustRecord K)
  listing : Option (AgentServiceListing K)
  latency_stats : Option K
  is_online : Bool
  chain_trust : Option K
  reachable_via : Option Text
  credential_reputation : Option (CredentialReputation K)
  guardian_public_key : Option Text
  hardware_attestation : Option HardwareAttestationClaim
  hardware_attestation_aggregate : Option K

structure TaskRequirements (K : Type) where
  required_capabilities : List Text
  max_budget : Option K

/-! ## §2. Policy -/

structure RoutingWeights (K : Type) where
  trust : K
  cost : K
  latency : K
  reliability : K
  regulatory_risk : Option K

structure NormalizedScores (K : Type) where
  trust : K
  reliability : K
  costScore : K
  latencyNorm : K
  riskScore : K

abbrev CompositeFunction (K : Type) := RouteWeight K → NormalizedScores K → K

inductive PeerEdgeKind
  | evidence
  | traversed
  deriving DecidableEq

/-- `PeerEdge`; a component of the weight that is no finite number is absent. -/
structure PeerEdge (K : Type) where
  source : Text
  target : Text
  kind : PeerEdgeKind
  weight : RouteDimension → Option K
  hw_attestation : Option K

/-- `RoutingConfig`, with `maxProvPaths`; no peer edges are an empty list of them. -/
structure RoutingConfig (K : Type) where
  weights : Option (RoutingWeights K)
  compositeFunction : Option (CompositeFunction K)
  peerEdges : List (PeerEdge K)
  maxCandidates : Option K
  explorationWeight : Option K
  callerGuardianPublicKey : Option Text
  maxProvPaths : Option Nat

section

variable {K : Type} [Field K] [LinearOrder K]

/-- `DEFAULT_WEIGHTS`, the risk's apart. -/
def DEFAULT_ROUTING_WEIGHTS : RoutingWeights K := ⟨3 / 10, 2 / 10, 15 / 100, 15 / 100, none⟩

def DEFAULT_REGULATORY_RISK : K := 2 / 10

def ORGANIZATIONAL_TRUST_BASELINE : K := 35 / 100

def HARDWARE_ATTESTATION_BOOST : K := 2 / 10

def HW_ATTESTATION_HARDWARE : K := 1

/-! ## §3. What a candidate's profile is worth -/

def blendCredentialTrust (staticTrust : K) (credRep : Option (CredentialReputation K)) : K :=
  match credRep with
  | none => staticTrust
  | some rep =>
    if rep.total_weight = 0 then staticTrust
    else
      let diversityFactor := min rep.issuer_count 5 / 5
      let weightFactor := min rep.total_weight 3 / 3
      let blend := 1 / 2 * diversityFactor * weightFactor
      let credTrust := rep.success_rate * (7 / 10) + rep.trust_score * (3 / 10)
      staticTrust * (1 - blend) + credTrust * blend

def scoreAttestation : Option HardwareAttestationClaim → K
  | none => 0
  | some claim =>
    if claim.platform = .software then 1 / 10
    else if claim.key_exported then 1 / 2
    else HW_ATTESTATION_HARDWARE

def estimateCandidateCost (candidate : CandidateProfile K) : K :=
  match candidate.listing with
  | none => 0
  | some listing => listing.pricing.foldl (fun total price => total + price.unit_cost) 0

def computeReliability (candidate : CandidateProfile K) : K :=
  let slaFloor := ((candidate.listing.bind AgentServiceListing.sla).map
    Sla.availability_guarantee).getD 0
  match candidate.trust_record with
  | none => max slaFloor (1 / 2)
  | some record =>
    let s := record.successful_tasks.getD 0
    let f := record.failed_tasks.getD 0
    if s + f = 0 then max slaFloor (1 / 2)
    else
      let reliability := s / (s + f)
      if 3 ≤ record.quality_sample_count.getD 0 then
        reliability * (7 / 10 + 3 / 10 * record.avg_quality.getD 1)
      else max reliability slaFloor

def computeCapabilityMatch (candidate : Option (CandidateProfile K))
    (requirements : TaskRequirements K) : K :=
  if requirements.required_capabilities = [] then 1
  else match candidate.bind CandidateProfile.listing with
  | none => 0
  | some listing =>
    let matched := (requirements.required_capabilities.filter fun c =>
      c ∈ listing.capabilities).length
    if matched < requirements.required_capabilities.length then 0
    else matched / requirements.required_capabilities.length

def computePriceEfficiency (candidate : Option (CandidateProfile K))
    (requirements : TaskRequirements K) : K :=
  match candidate.bind CandidateProfile.listing, requirements.max_budget with
  | some listing, some budget =>
    if listing.pricing = [] then 7 / 10
    else
      let totalCost := requirements.required_capabilities.foldl (fun total cap =>
        total + ((listing.pricing.find? fun p => p.capability = cap).map
          CapabilityPrice.unit_cost).getD 0) 0
      if totalCost = 0 then 7 / 10 else max 0 (1 - totalCost / budget)
  | _, _ => 7 / 10

/-! ## §4. The routing graph -/

def CandidateProfile.blocked (candidate : CandidateProfile K) : Bool :=
  candidate.trust_record.map TrustRecord.trust_level == some .blocked

def staticTrust (candidate : CandidateProfile K) (callerGuardian : Option Text) : K :=
  let earned := candidate.chain_trust.getD
    ((candidate.trust_record.map fun r => trustLevelToScore r.trust_level).getD (1 / 10))
  match callerGuardian, candidate.guardian_public_key with
  | some caller, some own =>
    if caller ≠ [] ∧ own ≠ [] ∧ caller = own then max earned ORGANIZATIONAL_TRUST_BASELINE
    else earned
  | _, _ => earned

def legWeight (candidate : CandidateProfile K) (callerGuardian : Option Text) : RouteWeight K
  | .trust => min 1 (blendCredentialTrust (staticTrust candidate callerGuardian)
      candidate.credential_reputation)
  | .cost => estimateCandidateCost candidate
  | .latency => (candidate.latency_stats.or
      ((candidate.listing.bind AgentServiceListing.sla).map Sla.max_latency_ms)).getD 5000
  | .reliability => computeReliability candidate
  | .regulatory_risk => (candidate.listing.bind AgentServiceListing.regulatory_risk).getD 0

/-- Two ids, joined with a zero. -/
def legKey (source target : Text) : Text := source ++ toText ['\x00'] ++ target

/-- One candidate of `buildRoutingGraph`. -/
def addCandidate (selfId : Text) (callerGuardian : Option Text)
    (st : WeightedDigraph Text (RouteWeight K) × List Text) (candidate : CandidateProfile K) :
    WeightedDigraph Text (RouteWeight K) × List Text :=
  if candidate.blocked then st
  else if !candidate.is_online then st
  else
    let source := candidate.reachable_via.getD selfId
    let weight := legWeight candidate callerGuardian
    if candidate.reachable_via.any (fun via => via ≠ []) then
      ((st.1.addNode source).setEdge source candidate.motebit_id weight,
        st.2 ++ [legKey source candidate.motebit_id])
    else (st.1.setEdge source candidate.motebit_id weight, st.2)

def finiteRouteWeight (weight : RouteDimension → Option K) : RouteWeight K
  | .reliability => (weight .reliability).getD 1
  | dimension => (weight dimension).getD 0

/-- One peer edge; a leg that a candidate's profile supplies stays as it is. -/
def addPeerEdge (viaLegs : List Text) (graph : WeightedDigraph Text (RouteWeight K))
    (edge : PeerEdge K) : WeightedDigraph Text (RouteWeight K) :=
  if legKey edge.source edge.target ∈ viaLegs then graph
  else graph.setEdge edge.source edge.target (finiteRouteWeight edge.weight)

/-- The graph of the candidates alone, and the legs through a peer. -/
def candidateGraph (selfId : Text) (candidates : List (CandidateProfile K))
    (callerGuardian : Option Text) : WeightedDigraph Text (RouteWeight K) × List Text :=
  candidates.foldl (addCandidate selfId callerGuardian) (WeightedDigraph.empty.addNode selfId, [])

def buildRoutingGraph (selfId : Text) (candidates : List (CandidateProfile K))
    (peerEdges : List (PeerEdge K)) (callerGuardian : Option Text) :
    WeightedDigraph Text (RouteWeight K) :=
  let (graph, viaLegs) := candidateGraph selfId candidates callerGuardian
  peerEdges.foldl (addPeerEdge viaLegs) graph

/-! ## §5. Evidence and planned routes -/

/-- The only key of a trust graph's weights. -/
inductive TrustDimension
  | trust
  deriving DecidableEq

/-- The keys of an `ExecWeight`. -/
inductive ExecDimension
  | cost
  | latency
  | reliability
  | regulatory_risk
  | hw
  deriving DecidableEq

abbrev ExecWeight (K : Type) := ExecDimension → K

def custody : Dimension K := ⟨HW_ATTESTATION_HARDWARE, max, min⟩

def EXEC_DIMENSIONS : DimensionSemirings ExecDimension K where
  keys := [.cost, .latency, .reliability, .regulatory_risk, .hw]
  dim
    | .cost => expense
    | .latency => expense
    | .reliability => likelihood
    | .regulatory_risk => expense
    | .hw => custody

def TRUST_DIMENSIONS : DimensionSemirings TrustDimension K := ⟨[.trust], fun _ => likelihood⟩

/-- The two calls of `frontierPaths`: over the evidence, and over the planned routes with
    `maxPaths` where it is given. -/
structure FrontierSearch (K : Type) where
  evidence : WeightedDigraph Text (TrustDimension → K) → Text → JsMap Text (Frontier TrustDimension K)
  executed : WeightedDigraph Text (ExecWeight K) → Text → Option Nat →
    JsMap Text (Frontier ExecDimension K)

def FrontierSearch.pareto (localeCompare : Text → Text → Int) : FrontierSearch K where
  evidence graph source :=
    frontierPaths localeCompare TRUST_DIMENSIONS graph source DEFAULT_MAX_FRONTIER_PATHS
  executed graph source maxPaths := frontierPaths localeCompare EXEC_DIMENSIONS graph source
    (maxPaths.getD DEFAULT_MAX_FRONTIER_PATHS)

/-- The graph of the evidence: every edge, with its trust. -/
def trustGraph (graph : WeightedDigraph Text (RouteWeight K)) :
    WeightedDigraph Text (TrustDimension → K) :=
  graph.reweigh fun _ _ weight _ => weight .trust

/-- The best evidence of trust in a node. -/
structure Evidence (K : Type) where
  trust : K
  path : List Text

def trustEvidence (search : FrontierSearch K) (graph : WeightedDigraph Text (RouteWeight K))
    (selfId : Text) : JsMap Text (Evidence K) :=
  (search.evidence (trustGraph graph) selfId).foldl (fun out entry =>
    match entry.2.head? with
    | some best => out.set entry.1 ⟨best.weight .trust, best.path⟩
    | none => out) []

def custodyScore (candidate : CandidateProfile K) : K :=
  candidate.hardware_attestation_aggregate.getD (scoreAttestation candidate.hardware_attestation)

def candidateHwScores (selfId : Text) (candidates : List (CandidateProfile K)) : JsMap Text K :=
  candidates.foldl (fun out candidate => JsMap.set out
    (legKey (candidate.reachable_via.getD selfId) candidate.motebit_id)
    (custodyScore candidate)) []

def edgeHwScores (selfId : Text) (candidates : List (CandidateProfile K))
    (peerEdges : List (PeerEdge K)) : JsMap Text K :=
  peerEdges.foldl (fun out edge => JsMap.set out (legKey edge.source edge.target)
    (edge.hw_attestation.getD HW_ATTESTATION_HARDWARE)) (candidateHwScores selfId candidates)

def execWeight (hwByEdge : JsMap Text K) (source target : Text) (weight : RouteWeight K) :
    ExecWeight K
  | .cost => weight .cost
  | .latency => weight .latency
  | .reliability => weight .reliability
  | .regulatory_risk => weight .regulatory_risk
  | .hw => (hwByEdge.get (legKey source target)).getD 0

def traversed (peerEdges : List (PeerEdge K)) : List (PeerEdge K) :=
  peerEdges.filter fun e => e.kind = .traversed

def executedGraph (selfId : Text) (candidates : List (CandidateProfile K))
    (peerEdges : List (PeerEdge K)) (callerGuardian : Option Text) :
    WeightedDigraph Text (ExecWeight K) :=
  (buildRoutingGraph selfId candidates (traversed peerEdges) callerGuardian).reweigh
    (execWeight (edgeHwScores selfId candidates (traversed peerEdges)))

def executedFrontiers (search : FrontierSearch K) (selfId : Text)
    (candidates : List (CandidateProfile K)) (peerEdges : List (PeerEdge K))
    (callerGuardian : Option Text) (maxPaths : Option Nat) :
    JsMap Text (Frontier ExecDimension K) :=
  search.executed (executedGraph selfId candidates peerEdges callerGuardian) selfId maxPaths

/-! ## §6. Scores -/

structure SubScores (K : Type) where
  trust : K
  success_rate : K
  latency : K
  price_efficiency : K
  capability_match : K
  availability : K

structure RouteScore (K : Type) where
  motebit_id : Text
  composite : K
  sub_scores : SubScores K
  selected : Bool

def applyHardwareAttestationBoost (trust chainHwScore : K) : K :=
  min 1 (trust * (1 + chainHwScore * HARDWARE_ATTESTATION_BOOST))

def weightedSum (weights : RoutingWeights K) : CompositeFunction K := fun _ scores =>
  scores.trust * weights.trust + scores.costScore * weights.cost +
    scores.latencyNorm * weights.latency + scores.reliability * weights.reliability +
    scores.riskScore * weights.regulatory_risk.getD DEFAULT_REGULATORY_RISK

def scoreRoute (nodeId : Text) (route : RouteWeight K) (candidate : Option (CandidateProfile K))
    (requirements : TaskRequirements K) (weights : RoutingWeights K)
    (compositeFunction : Option (CompositeFunction K)) (chainHwScore : K) : Option (RouteScore K) :=
  let capabilityMatch := computeCapabilityMatch candidate requirements
  if capabilityMatch = 0 ∧ requirements.required_capabilities ≠ [] then none
  else
    let trust := applyHardwareAttestationBoost (route .trust) chainHwScore
    let normalized : NormalizedScores K :=
      { trust
        reliability := route .reliability
        costScore := 1 / (1 + route .cost)
        latencyNorm := 1 / (1 + route .latency / 1000)
        riskScore := 1 / (1 + route .regulatory_risk) }
    let compositeFn := compositeFunction.getD (weightedSum weights)
    some
      { motebit_id := nodeId
        composite := compositeFn route normalized
        sub_scores :=
          { trust
            success_rate := (candidate.map computeReliability).getD (route .reliability)
            latency := 1 - route .latency / (route .latency + 5000)
            price_efficiency := computePriceEfficiency candidate requirements
            capability_match := capabilityMatch
            availability := if candidate.any CandidateProfile.is_online then 1 else 0 }
        selected := false }

/-- The route a planned one is scored as: its metrics, with the trust of the evidence. -/
def withTrust (trust : K) (exec : ExecWeight K) : RouteWeight K
  | .trust => trust
  | .cost => exec .cost
  | .latency => exec .latency
  | .reliability => exec .reliability
  | .regulatory_risk => exec .regulatory_risk

def memoKey : List Text → Text
  | [] => []
  | [id] => id
  | id :: path => legKey id (memoKey path)

structure PickedRoute (K : Type) where
  score : RouteScore K
  ordered : Frontier ExecDimension K
  viable : Nat

/-- The composite of a score, `-Infinity` where there is none. -/
def compositeOf : Option (RouteScore K) → WithBot K
  | none => ⊥
  | some score => (score.composite : K)

/-- `pickRoute`: of two routes with one key the score of the first counts, and a route without
    a score is at `-Infinity`. -/
def pickRoute (localeCompare : Text → Text → Int) (frontier : Frontier ExecDimension K)
    (scoreOne : ExecWeight K → Option (RouteScore K)) : Option (PickedRoute K) :=
  let scoreOf (p : PathWeight ExecDimension K) : Option (RouteScore K) :=
    (frontier.find? fun q => memoKey q.path == memoKey p.path).bind fun q => scoreOne q.weight
  let scored := (frontier.map fun p => (p, compositeOf (scoreOf p))).insertionSort fun x y =>
    y.2 < x.2 ∨ x.2 = y.2 ∧ hopsFirst localeCompare x.1.path y.1.path
  match scored with
  | [] => none
  | best :: _ => (scoreOf best.1).map fun score =>
    ⟨score, scored.map Prod.fst, frontier.length⟩

structure RankedCandidate (K : Type) extends PickedRoute K where
  trustPath : List Text

def rankNodeRoutes (localeCompare : Text → Text → Int) (selfId : Text)
    (candidateMap : JsMap Text (CandidateProfile K)) (evidence : JsMap Text (Evidence K))
    (requirements : TaskRequirements K) (weights : RoutingWeights K)
    (compositeFn : Option (CompositeFunction K))
    (entry : Text × Frontier ExecDimension K) : Option (RankedCandidate K) :=
  if entry.1 = selfId then none
  else match evidence.get entry.1 with
  | none => none
  | some ev =>
    if ev.trust ≤ 0 then none
    else
      (pickRoute localeCompare entry.2 fun exec => scoreRoute entry.1 (withTrust ev.trust exec)
        (candidateMap.get entry.1) requirements weights compositeFn (exec .hw)).map fun picked =>
          ⟨picked, ev.path⟩

/-- The candidates by their ids. -/
def candidateMap (candidates : List (CandidateProfile K)) : JsMap Text (CandidateProfile K) :=
  candidates.foldl (fun map c => JsMap.set map c.motebit_id c) []

def rankOverExecutedRoutes (search : FrontierSearch K) (localeCompare : Text → Text → Int)
    (selfId : Text) (candidates : List (CandidateProfile K)) (requirements : TaskRequirements K)
    (config : RoutingConfig K) : JsMap Text (RankedCandidate K) :=
  let plainGraph := buildRoutingGraph selfId candidates config.peerEdges
    config.callerGuardianPublicKey
  let evidence := trustEvidence search plainGraph selfId
  let frontiers := executedFrontiers search selfId candidates config.peerEdges
    config.callerGuardianPublicKey config.maxProvPaths
  frontiers.foldl (fun out entry =>
    match rankNodeRoutes localeCompare selfId (candidateMap candidates) evidence requirements
      (config.weights.getD DEFAULT_ROUTING_WEIGHTS) config.compositeFunction entry with
    | some ranked => out.set entry.1 ranked
    | none => out) []

/-! ## §7. The rankings -/

section

variable {τ : Type} (score : τ → RouteScore K)

def modOne [FloorRing K] (x : K) : K := x - (if 0 ≤ x then ⌊x⌋ else ⌈x⌉ : Int)

/-- The two entries of the exploration trade places. -/
def exploreSwap [FloorRing K] (scores : List τ) (explorationWeight : K) : List τ :=
  match scores with
  | [] => scores
  | first :: _ =>
    let probe := modOne ((score first).composite * 1000)
    let last : Int := scores.length - 1
    let explorationIdx := min (1 + ⌊probe * (scores.length - 1)⌋) last
    match scores[1]?, scores[explorationIdx.toNat]? with
    | some second, some other =>
      if 0 < explorationWeight ∧ probe < explorationWeight ∧ 1 < explorationIdx ∧
          0 < (score other).composite then
        (scores.set 1 other).set explorationIdx.toNat second
      else scores
    | _, _ => scores

/-- The first `maxCandidates` are selected, up to one whose composite is zero. -/
def selectTop (select : τ → τ) (maxCandidates : K) : Nat → List τ → List τ
  | _, [] => []
  | selected, s :: rest =>
    if maxCandidates ≤ selected ∨ (score s).composite = 0 then s :: rest
    else select s :: selectTop select maxCandidates (selected + 1) rest

def finalizeScores [FloorRing K] (select : τ → τ) (scores : List τ)
    (maxCandidates explorationWeight : K) : List τ :=
  selectTop score select maxCandidates 0 (exploreSwap score
    (sortOn (fun s => OrderDual.toDual (score s).composite) scores) explorationWeight)

end

def RouteScore.select (score : RouteScore K) : RouteScore K := { score with selected := true }

def graphRankCandidates [FloorRing K] (search : FrontierSearch K)
    (localeCompare : Text → Text → Int) (selfId : Text) (candidates : List (CandidateProfile K))
    (requirements : TaskRequirements K) (config : RoutingConfig K) : List (RouteScore K) :=
  let ranked := rankOverExecutedRoutes search localeCompare selfId candidates requirements config
  finalizeScores id RouteScore.select (ranked.map fun r => r.2.score)
    (config.maxCandidates.getD 10) (config.explorationWeight.getD 0)

structure ExplainedRouteScore (K : Type) extends RouteScore K where
  routing_paths : List (List Text)
  alternatives_considered : Nat
  trust_evidence_path : List Text

def ExplainedRouteScore.select (score : ExplainedRouteScore K) : ExplainedRouteScore K :=
  { score with selected := true }

def RankedCandidate.explained (ranked : RankedCandidate K) : ExplainedRouteScore K :=
  ⟨ranked.score, ranked.ordered.map PathWeight.path, ranked.viable, ranked.trustPath⟩

def explainedRankCandidates [FloorRing K] (search : FrontierSearch K)
    (localeCompare : Text → Text → Int) (selfId : Text) (candidates : List (CandidateProfile K))
    (requirements : TaskRequirements K) (config : RoutingConfig K) : List (ExplainedRouteScore K) :=
  let ranked := rankOverExecutedRoutes search localeCompare selfId candidates requirements config
  finalizeScores ExplainedRouteScore.toRouteScore ExplainedRouteScore.select
    (ranked.map fun r => r.2.explained)
    (config.maxCandidates.getD 10) (config.explorationWeight.getD 0)

end

end Motebit.Market
