/-
  Motebit.Market.Hops — THE HOPS OF A ROUTING GRAPH, by the inputs it is built from.

  An eligible candidate supplies the leg that reaches it, and a peer edge the hop between its
  ends, in the place of a direct leg but not of a leg through a peer.

  Main results: `edge?_buildRoutingGraph`, `reached_iff`, `vouched_iff`.
-/

import Mathlib.Data.Rat.Floor
import Motebit.Market.GraphRouting
import Motebit.Routing.Routes

namespace Motebit.Market

open Motebit.Lib Motebit.Lib.Json Motebit.Traversal Motebit.Routing List
open Motebit.Traversal.WeightedDigraph (lastEdge get_foldl_setEdge edge?_setEdge edge?_addNode
  mem_edges_iff get_reweigh tidy_reweigh lastEdge_isSome mem_of_lastEdge)

variable {K : Type} [Field K] [LinearOrder K]

/-! ## §1. Hops -/

/-- Online and not blocked. -/
def CandidateProfile.eligible (candidate : CandidateProfile K) : Bool :=
  !candidate.blocked && candidate.is_online

def CandidateProfile.viaPeer (candidate : CandidateProfile K) : Bool :=
  candidate.reachable_via.any fun via => via ≠ []

def CandidateProfile.legSource (selfId : Text) (candidate : CandidateProfile K) : Text :=
  candidate.reachable_via.getD selfId

section

variable (selfId : Text) (candidates : List (CandidateProfile K)) (peerEdges : List (PeerEdge K))
  (callerGuardian : Option Text)

def legs : List (Text × Text × RouteWeight K) :=
  (candidates.filter CandidateProfile.eligible).map fun c =>
    (c.legSource selfId, c.motebit_id, legWeight c callerGuardian)

/-- The keys of the legs that go through a peer. -/
def viaKeys : List Text :=
  ((candidates.filter CandidateProfile.eligible).filter CandidateProfile.viaPeer).map fun c =>
    legKey (c.legSource selfId) c.motebit_id

/-- The peer edges of a hop no such leg supplies. -/
def openEdges : List (PeerEdge K) :=
  peerEdges.filter fun e => legKey e.source e.target ∉ viaKeys selfId candidates

/-- The hop between two nodes: of the last peer edge of it, else of the last candidate. -/
def hop (source target : Text) : Option (RouteWeight K) :=
  (lastEdge ((openEdges selfId candidates peerEdges).map fun e =>
    (e.source, e.target, finiteRouteWeight e.weight)) source target).or
      (lastEdge (legs selfId candidates callerGuardian) source target)

/-- The nodes that hops lead to. -/
def Reached (node : Text) : Prop :=
  Relation.ReflTransGen (fun a b => (hop selfId candidates peerEdges callerGuardian a b).isSome)
    selfId node

/-- A chain of hops vouches for a node with the product of their trust. -/
inductive Vouched : Text → K → Prop
  | start : Vouched selfId 1
  | step {node next : Text} {trust : K} {weight : RouteWeight K} : Vouched node trust →
      hop selfId candidates peerEdges callerGuardian node next = some weight →
      Vouched next (trust * weight .trust)

end

/-! ## §2. The graph has the hops -/

section

variable {selfId : Text} {candidates : List (CandidateProfile K)} {peerEdges : List (PeerEdge K)}
  {callerGuardian : Option Text}

theorem lastEdge_cons {T : Type} (e : Text × Text × T) (edges : List (Text × Text × T))
    (source target : Text) : lastEdge (e :: edges) source target = (lastEdge edges source target).or
          (if e.1 = source ∧ e.2.1 = target then some e.2.2 else none) := by
  unfold lastEdge
  by_cases he : e.1 = source ∧ e.2.1 = target
  · rw [filter_cons_of_pos (by simpa using he), if_pos he, getLast?_cons]
    cases (edges.filter fun e => e.1 = source ∧ e.2.1 = target).getLast? <;> rfl
  · rw [filter_cons_of_neg (by simpa using he), if_neg he, Option.or_none]

section

variable (st : WeightedDigraph Text (RouteWeight K) × List Text)

theorem addCandidate_eq (c : CandidateProfile K) : addCandidate selfId callerGuardian st c =
      if c.eligible then
        (if c.viaPeer then
          ((st.1.addNode (c.legSource selfId)).setEdge (c.legSource selfId) c.motebit_id
              (legWeight c callerGuardian),
            st.2 ++ [legKey (c.legSource selfId) c.motebit_id])
        else (st.1.setEdge (c.legSource selfId) c.motebit_id (legWeight c callerGuardian), st.2))
      else st := by
  unfold addCandidate CandidateProfile.eligible
  cases c.blocked with
  | true => rfl
  | false =>
    cases c.is_online with
    | false | true => rfl

theorem edge?_addCandidate (c : CandidateProfile K) (source target : Text) :
    (addCandidate selfId callerGuardian st c).1.edge? source target =
      if c.eligible ∧ c.legSource selfId = source ∧ c.motebit_id = target then
        some (legWeight c callerGuardian) else st.1.edge? source target := by
  rw [addCandidate_eq]
  by_cases he : c.eligible = true
  · rw [if_pos he]
    have hset : ∀ graph : WeightedDigraph Text (RouteWeight K),
        graph.edge? source target = st.1.edge? source target →
        (graph.setEdge (c.legSource selfId) c.motebit_id (legWeight c callerGuardian)).edge? source
            target = if c.eligible ∧ c.legSource selfId = source ∧ c.motebit_id = target then
          some (legWeight c callerGuardian) else st.1.edge? source target := by
      intro graph hgraph
      rw [edge?_setEdge, hgraph]
      simp only [he, true_and, eq_comm (a := source), eq_comm (a := target)]
    split
    · exact hset _ (edge?_addNode _ _ _)
    · exact hset _ rfl
  · rw [if_neg he, if_neg (fun h => he h.1)]

theorem snd_addCandidate (c : CandidateProfile K) : (addCandidate selfId callerGuardian st c).2 =
      st.2 ++ viaKeys selfId [c] := by
  rw [addCandidate_eq]
  unfold viaKeys
  cases he : c.eligible with
  | false => simp [he]
  | true =>
    cases hvia : c.viaPeer with
    | false | true => simp [he, hvia]

end

theorem tidy_addCandidate {st : WeightedDigraph Text (RouteWeight K) × List Text}
    (h : st.1.Tidy) (c : CandidateProfile K) : (addCandidate selfId callerGuardian st c).1.Tidy := by
  rw [addCandidate_eq]
  split
  · split
    · exact (h.addNode _).setEdge _ _ _
    · exact h.setEdge _ _ _
  · exact h

theorem viaKeys_cons (c : CandidateProfile K) (rest : List (CandidateProfile K)) :
    viaKeys selfId (c :: rest) = viaKeys selfId [c] ++ viaKeys selfId rest := by
  unfold viaKeys
  rw [← map_append, ← filter_append, ← filter_append]
  rfl

theorem candidateGraph_spec :
    (∀ source target, (candidateGraph selfId candidates callerGuardian).1.edge? source target
      = lastEdge (legs selfId candidates callerGuardian) source target) ∧
    (candidateGraph selfId candidates callerGuardian).2 = viaKeys selfId candidates ∧
    (candidateGraph selfId candidates callerGuardian).1.Tidy := by
  have hfold : ∀ st : WeightedDigraph Text (RouteWeight K) × List Text, st.1.Tidy →
      (∀ source target,
        (candidates.foldl (addCandidate selfId callerGuardian) st).1.edge? source target
          = (lastEdge (legs selfId candidates callerGuardian) source target).or
              (st.1.edge? source target)) ∧
      (candidates.foldl (addCandidate selfId callerGuardian) st).2
        = st.2 ++ viaKeys selfId candidates ∧
      (candidates.foldl (addCandidate selfId callerGuardian) st).1.Tidy := by
    induction candidates with
    | nil => exact fun st h => ⟨fun _ _ => rfl, (append_nil _).symm, h⟩
    | cons c rest ih =>
      intro st h
      obtain ⟨hedges, hkeys, htidy⟩ := ih _ (tidy_addCandidate h c)
      rw [foldl_cons]
      refine ⟨fun source target => ?_, ?_, htidy⟩
      · rw [hedges, edge?_addCandidate]
        unfold legs
        by_cases he : c.eligible = true
        · rw [filter_cons_of_pos he, map_cons, lastEdge_cons, Option.or_assoc]
          simp only [he, true_and]
          split <;> rfl
        · rw [filter_cons_of_neg he, if_neg (fun h => he h.1)]
      · rw [hkeys, snd_addCandidate, append_assoc, ← viaKeys_cons]
  obtain ⟨hedges, hkeys, htidy⟩ := hfold (WeightedDigraph.empty.addNode selfId, [])
    (WeightedDigraph.tidy_empty.addNode selfId)
  refine ⟨fun source target => ?_, hkeys, htidy⟩
  have hnone : (WeightedDigraph.empty.addNode selfId : WeightedDigraph Text (RouteWeight K)).edge?
      source target = none := by
    rw [edge?_addNode]
    rfl
  unfold candidateGraph
  rw [hedges, hnone, Option.or_none]

theorem buildRoutingGraph_eq : buildRoutingGraph selfId candidates peerEdges callerGuardian =
      ((openEdges selfId candidates peerEdges).map fun e =>
        (e.source, e.target, finiteRouteWeight e.weight)).foldl
          (fun graph e => graph.setEdge e.1 e.2.1 e.2.2)
          (candidateGraph selfId candidates callerGuardian).1 := by
  have hskip : ∀ (edges : List (PeerEdge K)) (graph : WeightedDigraph Text (RouteWeight K)),
      edges.foldl (addPeerEdge (viaKeys selfId candidates)) graph =
        ((openEdges selfId candidates edges).map fun e =>
          (e.source, e.target, finiteRouteWeight e.weight)).foldl
            (fun graph e => graph.setEdge e.1 e.2.1 e.2.2) graph := by
    intro edges
    induction edges with
    | nil => exact fun _ => rfl
    | cons e edges ih =>
      intro graph
      rw [foldl_cons, ih]
      unfold openEdges addPeerEdge
      by_cases hkey : legKey e.source e.target ∈ viaKeys selfId candidates
      · rw [if_pos hkey, filter_cons_of_neg (by simpa using hkey)]
      · rw [if_neg hkey, filter_cons_of_pos (by simpa using hkey)]
        rfl
  unfold buildRoutingGraph
  dsimp only
  rw [candidateGraph_spec.2.1, hskip]

/-- **The edges of the routing graph are the hops.** -/
theorem edge?_buildRoutingGraph (source target : Text) :
    (buildRoutingGraph selfId candidates peerEdges callerGuardian).edge? source target
      = hop selfId candidates peerEdges callerGuardian source target := by
  rw [buildRoutingGraph_eq, get_foldl_setEdge, candidateGraph_spec.1]
  rfl

theorem tidy_buildRoutingGraph :
    (buildRoutingGraph selfId candidates peerEdges callerGuardian).Tidy := by
  rw [buildRoutingGraph_eq]
  exact candidateGraph_spec.2.2.foldl_setEdge _

/-! ## §3. Planned routes and evidence -/

variable {source target : Text}

theorem mem_edges_reweigh {T : Type} {f : Text → Text → RouteWeight K → T}
    {weight : T} : (source, target, weight) ∈
      ((buildRoutingGraph selfId candidates peerEdges callerGuardian).reweigh f).edges ↔
        ∃ w, hop selfId candidates peerEdges callerGuardian source target = some w ∧
          f source target w = weight := by
  rw [mem_edges_iff (tidy_reweigh f _), get_reweigh f tidy_buildRoutingGraph,
    edge?_buildRoutingGraph, Option.map_eq_some_iff]

theorem reached_iff {node : Text} : (∃ weight path, IsRoute EXEC_DIMENSIONS
      (executedGraph selfId candidates peerEdges callerGuardian) selfId node weight path) ↔
      Reached selfId candidates (traversed peerEdges) callerGuardian node := by
  constructor
  · rintro ⟨weight, path, hroute⟩
    induction hroute with
    | start => exact .refl
    | step _ hedge ih =>
      obtain ⟨w, hw, -⟩ := mem_edges_reweigh.mp hedge
      exact ih.tail (by rw [hw]; rfl)
  · intro hreached
    induction hreached with
    | refl => exact ⟨_, _, .start⟩
    | tail _ hhop ih =>
      obtain ⟨weight, path, hroute⟩ := ih
      obtain ⟨w, hw⟩ := Option.isSome_iff_exists.mp hhop
      exact ⟨_, _, hroute.step (mem_edges_reweigh.mpr ⟨w, hw, rfl⟩)⟩

theorem vouched_iff {node : Text} {trust : K} : (∃ weight path, IsRoute TRUST_DIMENSIONS
      (trustGraph (buildRoutingGraph selfId candidates peerEdges callerGuardian)) selfId node weight
        path ∧ weight .trust = trust) ↔
      Vouched selfId candidates peerEdges callerGuardian node trust := by
  constructor
  · rintro ⟨weight, path, hroute, rfl⟩
    induction hroute with
    | start => exact .start
    | step _ hedge ih =>
      obtain ⟨w, hw, rfl⟩ := mem_edges_reweigh.mp hedge
      exact ih.step hw
  · intro hvouched
    induction hvouched with
    | start => exact ⟨_, _, .start, rfl⟩
    | step _ hhop ih =>
      obtain ⟨weight, path, hroute, rfl⟩ := ih
      exact ⟨_, _, hroute.step (mem_edges_reweigh.mpr ⟨_, hhop, rfl⟩), rfl⟩

theorem hop_isSome :
    (hop selfId candidates peerEdges callerGuardian source target).isSome ↔
      (∃ e ∈ openEdges selfId candidates peerEdges, e.source = source ∧ e.target = target) ∨
        ∃ c ∈ candidates, c.eligible = true ∧ c.legSource selfId = source ∧
          c.motebit_id = target := by
  unfold hop
  rw [Option.isSome_or, Bool.or_eq_true]
  apply or_congr
  · constructor
    · intro h
      obtain ⟨weight, hweight⟩ := Option.isSome_iff_exists.mp h
      obtain ⟨e, he, heq⟩ := mem_map.mp (mem_of_lastEdge hweight)
      cases heq
      exact ⟨e, he, rfl, rfl⟩
    · rintro ⟨e, he, rfl, rfl⟩
      exact lastEdge_isSome (mem_map.mpr ⟨e, he, rfl⟩)
  · constructor
    · intro h
      obtain ⟨weight, hweight⟩ := Option.isSome_iff_exists.mp h
      obtain ⟨c, hc, heq⟩ := mem_map.mp (mem_of_lastEdge hweight)
      cases heq
      obtain ⟨hmem, heligible⟩ := mem_filter.mp hc
      exact ⟨c, hmem, heligible, rfl, rfl⟩
    · rintro ⟨c, hc, heligible, rfl, rfl⟩
      exact lastEdge_isSome (mem_map.mpr ⟨c, mem_filter.mpr ⟨hc, heligible⟩, rfl⟩)

end

end Motebit.Market
