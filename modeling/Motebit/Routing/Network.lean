/-
  Motebit.Routing.Network — FRONTIERS OF ROUTES, and the ranking of the agents they reach.

  Translated from `packages/semiring/src/pareto.ts` and `rankReachableAgents` of
  `agent-network.ts`.  Numbers are those of an ordered field; `localeCompare` is a parameter.
-/

import Mathlib.Algebra.Field.Defs
import Motebit.Lib.Json
import Motebit.Traversal.Graph

namespace Motebit.Routing

open Motebit.Lib Motebit.Lib.Json Motebit.Traversal

variable {κ K : Type}

/-! ## §1. Frontiers -/

/-- What a frontier uses of a dimension's semiring.  Its zero, which may be `Infinity`, is not
    among it. -/
structure Dimension (K : Type) where
  one : K
  add : K → K → K
  mul : K → K → K

/-- `DimensionSemirings`: one for each key of the record. -/
structure DimensionSemirings (κ K : Type) where
  keys : List κ
  dim : κ → Dimension K

/-- `PathWeight`: a record of numbers, and the nodes after the source. -/
structure PathWeight (κ K : Type) where
  weight : κ → K
  path : List Text

abbrev Frontier (κ K : Type) := List (PathWeight κ K)

def DEFAULT_MAX_FRONTIER_PATHS : Nat := 32

def pathKey : List Text → Text
  | [] => []
  | [id] => id
  | id :: path => id ++ toText [' '] ++ pathKey path

/-- The comparators of `prune`: fewest hops, then `localeCompare` of the paths. -/
def hopsFirst (localeCompare : Text → Text → Int) (x y : List Text) : Prop :=
  x.length < y.length ∨ x.length = y.length ∧ localeCompare (pathKey x) (pathKey y) ≤ 0

instance (localeCompare : Text → Text → Int) (x y : List Text) :
    Decidable (hopsFirst localeCompare x y) :=
  inferInstanceAs (Decidable (_ ∨ _ ∧ _))

section

variable [DecidableEq K] (localeCompare : Text → Text → Int) (dims : DimensionSemirings κ K)

def dominatesOrEquals (a b : κ → K) : Bool :=
  dims.keys.all fun key => (dims.dim key).add (a key) (b key) == a key

def weightsEqual (a b : κ → K) : Bool :=
  dominatesOrEquals dims a b && dominatesOrEquals dims b a

/-- One candidate of `prune`, against those kept. -/
def keepCandidate (kept : Frontier κ K) (cand : PathWeight κ K) : Frontier κ K :=
  if kept.any fun k => weightsEqual dims k.weight cand.weight ||
      dominatesOrEquals dims k.weight cand.weight then kept
  else kept.filter (fun k => !dominatesOrEquals dims cand.weight k.weight) ++ [cand]

def prune (items : Frontier κ K) (maxPaths : Nat) : Frontier κ K :=
  let sorted := items.insertionSort fun x y => hopsFirst localeCompare x.path y.path
  let kept := sorted.foldl (keepCandidate dims) []
  (kept.insertionSort fun x y => hopsFirst localeCompare x.path y.path).take maxPaths

/-- Two entries have one key: path and numbers print alike. -/
def sameKey (p q : PathWeight κ K) : Bool :=
  pathKey p.path == pathKey q.path && dims.keys.all fun key => p.weight key == q.weight key

def paretoPathSemiring (maxPaths : Nat) : SemiringOps (Frontier κ K) where
  zero := []
  one := [⟨fun key => (dims.dim key).one, []⟩]
  add a b := prune localeCompare dims (a ++ b) maxPaths
  mul a b := prune localeCompare dims (a.flatMap fun x => b.map fun y =>
    ⟨fun key => (dims.dim key).mul (x.weight key) (y.weight key), x.path ++ y.path⟩) maxPaths
  eq a b := a.length == b.length && a.all fun p => b.any fun q => sameKey dims p q

/-- The graph that `frontierPaths` runs over: each edge a frontier of one path. -/
def liftedGraph (graph : WeightedDigraph Text (κ → K)) : WeightedDigraph Text (Frontier κ K) :=
  graph.edges.foldl (fun lifted e => lifted.setEdge e.1 e.2.1 [⟨e.2.2, [e.2.1]⟩])
    (graph.nodes.foldl WeightedDigraph.addNode .empty)

def frontierPaths (graph : WeightedDigraph Text (κ → K)) (source : Text) (maxPaths : Nat) :
    JsMap Text (Frontier κ K) :=
  optimalPaths (paretoPathSemiring localeCompare dims maxPaths) (liftedGraph graph) source

end

/-- What `chooseFromFrontier` returns. -/
structure Choice (κ K : Type) where
  chosen : PathWeight κ K
  score : K
  ordered : Frontier κ K

/-- `chooseFromFrontier`; no score of a field is `NaN`. -/
def chooseFromFrontier [LinearOrder K] (localeCompare : Text → Text → Int)
    (frontier : Frontier κ K) (score : (κ → K) → List Text → K) : Option (Choice κ K) :=
  let scored := (frontier.map fun p => (p, score p.weight p.path)).insertionSort fun x y =>
    y.2 < x.2 ∨ x.2 = y.2 ∧ hopsFirst localeCompare x.1.path y.1.path
  match scored with
  | [] => none
  | best :: _ => some ⟨best.1, best.2, scored.map Prod.fst⟩

/-! ## §2. The network -/

/-- The keys of a `RouteWeight`. -/
inductive RouteDimension
  | trust
  | cost
  | latency
  | reliability
  | regulatory_risk
  deriving DecidableEq

abbrev RouteWeight (K : Type) := RouteDimension → K

section

variable [Field K] [LinearOrder K]

/-- (max, ×): `TrustSemiring` and `ReliabilitySemiring`. -/
def likelihood : Dimension K := ⟨1, max, (· * ·)⟩

/-- (min, +): `CostSemiring`, `LatencySemiring` and `RegulatoryRiskSemiring`. -/
def expense : Dimension K := ⟨0, min, (· + ·)⟩

def ROUTE_WEIGHT_DIMENSIONS : DimensionSemirings RouteDimension K where
  keys := [.trust, .cost, .latency, .reliability, .regulatory_risk]
  dim
    | .trust => likelihood
    | .cost => expense
    | .latency => expense
    | .reliability => likelihood
    | .regulatory_risk => expense

structure RankedAgent (K : Type) where
  motebit_id : Text
  score : K
  route : RouteWeight K
  path : List Text
  alternatives : Nat

/-- `scoreOf`; no number of a field is `Infinity`. -/
def scoreOf (weights route : RouteWeight K) : K :=
  let costScore := 1 / (1 + route .cost)
  let latencyScore := 1 / (1 + route .latency / 1000)
  let riskScore := 1 / (1 + route .regulatory_risk)
  route .trust * weights .trust + costScore * weights .cost + latencyScore * weights .latency +
    route .reliability * weights .reliability + riskScore * weights .regulatory_risk

def rankNode (localeCompare : Text → Text → Int) (source : Text) (weights : RouteWeight K)
    (entry : Text × Frontier RouteDimension K) : Option (RankedAgent K) :=
  if entry.1 = source then none
  else
    let viable := entry.2.filter fun p => 0 < p.weight .trust
    (chooseFromFrontier localeCompare viable fun w _ => scoreOf weights w).map fun pick =>
      ⟨entry.1, pick.score, pick.chosen.weight, pick.chosen.path, viable.length⟩

def rankReachableAgents (localeCompare : Text → Text → Int)
    (graph : WeightedDigraph Text (RouteWeight K)) (source : Text) (weights : RouteWeight K) :
    List (RankedAgent K) :=
  let frontiers := frontierPaths localeCompare ROUTE_WEIGHT_DIMENSIONS graph source
    DEFAULT_MAX_FRONTIER_PATHS
  sortOn (fun agent => OrderDual.toDual agent.score)
    (frontiers.filterMap (rankNode localeCompare source weights))

end

end Motebit.Routing
