/-
  Motebit.Routing.Routes — A FRONTIER HOLDS ROUTES of the graph it is searched in.

  Pruning only leaves entries out, and an edge relaxed extends entries by it.  So each entry a
  search returns for a node is a route to it, with the weights its edges compose to.

  Main results: `frontierPaths_isRoute`.
-/

import Motebit.Routing.Network
import Motebit.Traversal.Edges

namespace Motebit.Routing

open Motebit.Lib Motebit.Lib.Json Motebit.Traversal List

variable {κ K : Type}

/-- A route: the nodes after the source, with the weights its edges compose to. -/
inductive IsRoute (dims : DimensionSemirings κ K) (graph : WeightedDigraph Text (κ → K))
    (source : Text) : Text → (κ → K) → List Text → Prop
  | start : IsRoute dims graph source source (fun key => (dims.dim key).one) []
  | step {node next : Text} {weight edge : κ → K} {path : List Text} :
      IsRoute dims graph source node weight path → (node, next, edge) ∈ graph.edges →
      IsRoute dims graph source next (fun key => (dims.dim key).mul (weight key) (edge key))
        (path ++ [next])

/-- The entries of a map of frontiers are routes. -/
def HoldsRoutes (dims : DimensionSemirings κ K) (graph : WeightedDigraph Text (κ → K))
    (source : Text) (frontiers : JsMap Text (Frontier κ K)) : Prop :=
  ∀ entry ∈ frontiers, ∀ p ∈ entry.2, IsRoute dims graph source entry.1 p.weight p.path

section

variable [DecidableEq K] {localeCompare : Text → Text → Int} {dims : DimensionSemirings κ K}
  {graph : WeightedDigraph Text (κ → K)} {source : Text} {maxPaths : Nat} {p : PathWeight κ K}

theorem mem_of_prune {items : Frontier κ K}
    (h : p ∈ prune localeCompare dims items maxPaths) : p ∈ items := by
  have hkeep : ∀ (l kept : Frontier κ K), p ∈ l.foldl (keepCandidate dims) kept →
      p ∈ l ∨ p ∈ kept := by
    intro l
    induction l with
    | nil => exact fun kept hp => .inr hp
    | cons cand l ih =>
      intro kept hp
      rw [foldl_cons] at hp
      rcases ih _ hp with hin | hin
      · exact .inl (mem_cons_of_mem cand hin)
      · unfold keepCandidate at hin
        split at hin
        · exact .inr hin
        · rcases mem_append.mp hin with hkept | hnew
          · exact .inr (mem_filter.mp hkept).1
          · rw [mem_singleton.mp hnew]
            exact .inl mem_cons_self
  have hsorted := (perm_insertionSort _ _).mem_iff.mp (mem_of_mem_take h)
  rcases hkeep _ _ hsorted with hin | hin
  · exact (perm_insertionSort _ _).mem_iff.mp hin
  · cases hin

variable {node : Text} {dist : JsMap Text (Frontier κ K)} {edge : Text × Frontier κ K}

theorem neighbor_liftedGraph (h : edge ∈ (liftedGraph graph).neighbors node) :
    ∃ weight, (node, edge.1, weight) ∈ graph.edges ∧ edge.2 = [⟨weight, [edge.1]⟩] := by
  have hlifted : liftedGraph graph = graph.reweigh fun _ target weight => [⟨weight, [target]⟩] :=
    rfl
  rw [hlifted] at h
  have htidy := WeightedDigraph.tidy_reweigh
    (fun _ target weight => ([⟨weight, [target]⟩] : Frontier κ K)) graph
  exact WeightedDigraph.mem_edges_of_reweigh ((JsMap.get_eq_some (htidy.edges node)).mpr h)

omit [DecidableEq K] in
theorem HoldsRoutes.get (h : HoldsRoutes dims graph source dist)
    (hp : p ∈ (dist.get node).getD []) : IsRoute dims graph source node p.weight p.path := by
  cases hget : dist.get node with rw [hget] at hp
  | none => cases hp
  | some frontier => exact h (node, frontier) (JsMap.mem_of_get hget) p hp

omit [DecidableEq K] in
theorem HoldsRoutes.set (h : HoldsRoutes dims graph source dist) {frontier : Frontier κ K}
    (hnew : ∀ p ∈ frontier, IsRoute dims graph source node p.weight p.path) :
    HoldsRoutes dims graph source (dist.set node frontier) := by
  intro entry hentry p hp
  rcases JsMap.mem_set.mp hentry with rfl | ⟨hold, -⟩
  · exact hnew p hp
  · exact h entry hold p hp

theorem HoldsRoutes.relaxEdge {dNode : Frontier κ K}
    (hnode : ∀ p ∈ dNode, IsRoute dims graph source node p.weight p.path)
    {st : JsMap Text (Frontier κ K) × Bool} (h : HoldsRoutes dims graph source st.1)
    (hedge : edge ∈ (liftedGraph graph).neighbors node) : HoldsRoutes dims graph source
      (Traversal.relaxEdge (paretoPathSemiring localeCompare dims maxPaths) dNode st edge).1 := by
  obtain ⟨weight, hmem, hfrontier⟩ := neighbor_liftedGraph hedge
  unfold Traversal.relaxEdge
  dsimp only
  split
  · exact h
  · apply h.set
    intro p hp
    rcases mem_append.mp (mem_of_prune hp) with hold | hnew
    · exact h.get hold
    · -- an extension of a route to the node by the edge
      have hprod := mem_of_prune hnew
      rw [hfrontier] at hprod
      obtain ⟨x, hx, hy⟩ := mem_flatMap.mp hprod
      obtain ⟨y, hy, rfl⟩ := mem_map.mp hy
      rw [mem_singleton.mp hy]
      exact (hnode x hx).step hmem

theorem HoldsRoutes.relaxAll {dist : JsMap Text (Frontier κ K)}
    (h : HoldsRoutes dims graph source dist) : HoldsRoutes dims graph source
      (Traversal.relaxAll (paretoPathSemiring localeCompare dims maxPaths) (liftedGraph graph)
        dist).1 := by
  have hedges : ∀ (node : Text) (dNode : Frontier κ K),
      (∀ p ∈ dNode, IsRoute dims graph source node p.weight p.path) →
      ∀ (edges : List (Text × Frontier κ K)), edges ⊆ (liftedGraph graph).neighbors node →
      ∀ st : JsMap Text (Frontier κ K) × Bool, HoldsRoutes dims graph source st.1 →
        HoldsRoutes dims graph source (edges.foldl (Traversal.relaxEdge
          (paretoPathSemiring localeCompare dims maxPaths) dNode) st).1 := by
    intro node dNode hnode edges
    induction edges with
    | nil => exact fun _ _ hst => hst
    | cons edge edges ih =>
      intro hsub st hst
      rw [cons_subset] at hsub
      exact ih hsub.2 _ (hst.relaxEdge hnode hsub.1)
  have hnodes : ∀ (nodes : List Text) (st : JsMap Text (Frontier κ K) × Bool),
      HoldsRoutes dims graph source st.1 → HoldsRoutes dims graph source (nodes.foldl
        (relaxNode (paretoPathSemiring localeCompare dims maxPaths) (liftedGraph graph)) st).1 := by
    intro nodes
    induction nodes with
    | nil => exact fun _ hst => hst
    | cons node nodes ih =>
      intro st hst
      apply ih
      unfold relaxNode
      dsimp only
      split
      · exact hst
      · exact hedges node _ (fun p hp => hst.get hp) _ (fun _ he => he) st hst
  exact hnodes _ (dist, false) h

theorem HoldsRoutes.relaxRounds (rounds : Nat) (h : HoldsRoutes dims graph source dist) :
    HoldsRoutes dims graph source
      (Traversal.relaxRounds (paretoPathSemiring localeCompare dims maxPaths) (liftedGraph graph)
        rounds dist) := by
  induction rounds generalizing dist with
  | zero => exact h
  | succ rounds ih =>
    have hround := @HoldsRoutes.relaxAll _ _ _ localeCompare dims graph source maxPaths dist h
    unfold Traversal.relaxRounds
    dsimp only
    split
    · exact ih hround
    · exact hround

/-- **What `frontierPaths` returns are routes** of the graph. -/
theorem frontierPaths_isRoute (localeCompare : Text → Text → Int)
    (dims : DimensionSemirings κ K) (graph : WeightedDigraph Text (κ → K)) (source : Text)
    (maxPaths : Nat) :
    HoldsRoutes dims graph source (frontierPaths localeCompare dims graph source maxPaths) := by
  apply HoldsRoutes.relaxRounds
  have hzero : ∀ (nodes : List Text) (dist : JsMap Text (Frontier κ K)),
      HoldsRoutes dims graph source dist → HoldsRoutes dims graph source
        (nodes.foldl (fun (dist : JsMap Text (Frontier κ K)) node => dist.set node []) dist) := by
    intro nodes
    induction nodes with
    | nil => exact fun _ h => h
    | cons node nodes ih =>
      intro dist h
      exact ih _ (h.set nofun)
  apply HoldsRoutes.set
  · exact hzero _ [] fun entry hentry => by cases hentry
  · intro p hp
    rw [mem_singleton.mp hp]
    exact .start

end

end Motebit.Routing
