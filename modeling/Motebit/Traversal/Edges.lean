/-
  Motebit.Traversal.Edges — THE EDGES OF A GRAPH that is set up edge by edge.

  Of the weights set for two nodes the last one stands.  A graph whose rows have distinct keys
  lists each of its edges once.

  Main results: `get_foldl_setEdge`, `mem_edges_iff`, `get_reweigh`.
-/

import Motebit.Traversal.Graph

namespace Motebit.Traversal

open Motebit.Lib List

variable {ν S T : Type} [DecidableEq ν]

namespace WeightedDigraph

variable {graph : WeightedDigraph ν T}

/-! ## §1. Edges found -/

/-- The weight from a node to another. -/
def edge? (graph : WeightedDigraph ν T) (source target : ν) : Option T :=
  (graph.neighbors source).get target

@[simp] theorem edge?_addNode (id source target : ν) :
    (graph.addNode id).edge? source target = graph.edge? source target := by
  unfold edge?
  rw [neighbors_addNode]

@[simp] theorem edge?_setEdge (source target a b : ν) (weight : T) :
    (graph.setEdge source target weight).edge? a b
      = if a = source ∧ b = target then some weight else graph.edge? a b := by
  have hrow := @neighbors_set _ _ _ source ((graph.addNode source).addNode target).nodes
    ((graph.addNode source).addNode target).adj
    ((((graph.addNode source).addNode target).neighbors source).set target weight) a
  unfold edge? setEdge
  rw [hrow]
  by_cases ha : a = source
  · rw [if_pos ha, JsMap.get_set, neighbors_addNode, neighbors_addNode]
    by_cases hb : b = target
    · rw [if_pos hb, if_pos ⟨ha, hb⟩]
    · rw [if_neg hb, if_neg (fun h => hb h.2), ha]
  · rw [if_neg ha, if_neg (fun h => ha h.1)]
    show (((graph.addNode source).addNode target).neighbors a).get b = _
    rw [neighbors_addNode, neighbors_addNode]

@[simp] theorem edge?_addEdge (sr : SemiringOps T) (source target a b : ν) (weight : T) :
    (graph.addEdge sr source target weight).edge? a b
      = if a = source ∧ b = target then
          some (match graph.edge? source target with
            | some existing => sr.add existing weight
            | none => weight)
        else graph.edge? a b := by
  have hset : graph.addEdge sr source target weight = graph.setEdge source target
      (match graph.edge? source target with
        | some existing => sr.add existing weight
        | none => weight) := by
    unfold addEdge setEdge edge?
    cases hget : (graph.neighbors source).get target <;> simp only [neighbors_addNode, hget]
  rw [hset, edge?_setEdge]

theorem edge?_foldl_addNode (ids : List ν) (source target : ν) :
    (ids.foldl addNode graph).edge? source target = graph.edge? source target := by
  induction ids generalizing graph with
  | nil => rfl
  | cons id ids ih => rw [foldl_cons, ih, edge?_addNode]

def lastEdge (edges : List (ν × ν × T)) (source target : ν) : Option T :=
  (edges.filter fun e => e.1 = source ∧ e.2.1 = target).getLast?.map fun e => e.2.2

theorem get_foldl_setEdge (edges : List (ν × ν × T)) (source target : ν) :
    (edges.foldl (fun graph e => graph.setEdge e.1 e.2.1 e.2.2) graph).edge? source target
      = (lastEdge edges source target).or (graph.edge? source target) := by
  unfold lastEdge
  induction edges generalizing graph with
  | nil => rfl
  | cons e edges ih =>
    rw [foldl_cons, ih, edge?_setEdge]
    by_cases he : e.1 = source ∧ e.2.1 = target
    · rw [filter_cons_of_pos (by simpa using he), if_pos ⟨he.1.symm, he.2.symm⟩, getLast?_cons]
      cases (edges.filter fun e => e.1 = source ∧ e.2.1 = target).getLast? <;> rfl
    · rw [filter_cons_of_neg (by simpa using he), if_neg (fun h => he ⟨h.1.symm, h.2.symm⟩)]

variable {source target : ν} {edges : List (ν × ν × T)} {weight : T}

theorem mem_of_lastEdge
    (h : lastEdge edges source target = some weight) : (source, target, weight) ∈ edges := by
  unfold lastEdge at h
  obtain ⟨e, he, rfl⟩ := Option.map_eq_some_iff.mp h
  obtain ⟨hmem, hends⟩ := mem_filter.mp (mem_of_getLast? he)
  obtain ⟨h1, h2⟩ := of_decide_eq_true hends
  rw [← h1, ← h2]
  exact hmem

theorem lastEdge_isSome
    (h : (source, target, weight) ∈ edges) : (lastEdge edges source target).isSome := by
  unfold lastEdge
  rw [Option.isSome_map, getLast?_isSome, ne_eq, filter_eq_nil_iff]
  intro hnone
  exact hnone _ h (by simp)

/-! ## §2. Edges listed -/

/-- Rows and their edges have distinct keys. -/
structure Tidy (graph : WeightedDigraph ν T) : Prop where
  rows : graph.adj.keys.Nodup
  edges : ∀ id, (graph.neighbors id).keys.Nodup

theorem tidy_empty : (empty : WeightedDigraph ν T).Tidy := ⟨nodup_nil, fun _ => nodup_nil⟩

theorem Tidy.addNode (h : graph.Tidy) (id : ν) : (graph.addNode id).Tidy where
  rows := by
    unfold WeightedDigraph.addNode
    dsimp only
    split
    · exact h.rows
    · exact JsMap.keys_set_nodup h.rows _ _
  edges node := by
    rw [neighbors_addNode]
    exact h.edges node

theorem Tidy.setEdge (h : graph.Tidy) (source target : ν) (weight : T) :
    (graph.setEdge source target weight).Tidy where
  rows := JsMap.keys_set_nodup ((h.addNode source).addNode target).rows _ _
  edges node := by
    unfold WeightedDigraph.setEdge
    rw [neighbors_set]
    split
    · exact JsMap.keys_set_nodup (((h.addNode source).addNode target).edges source) _ _
    · exact ((h.addNode source).addNode target).edges node

theorem Tidy.foldl_addNode (h : graph.Tidy) (ids : List ν) :
    (ids.foldl WeightedDigraph.addNode graph).Tidy := by
  induction ids generalizing graph with
  | nil => exact h
  | cons id ids ih => exact ih (h.addNode id)

theorem Tidy.foldl_setEdge (h : graph.Tidy) (edges : List (ν × ν × T)) :
    (edges.foldl (fun graph e => graph.setEdge e.1 e.2.1 e.2.2) graph).Tidy := by
  induction edges generalizing graph with
  | nil => exact h
  | cons e edges ih => exact ih (h.setEdge _ _ _)

theorem mem_edges_of_neighbor {node : ν} {edge : ν × T} (h : edge ∈ graph.neighbors node) :
    (node, edge.1, edge.2) ∈ graph.edges := by
  unfold neighbors at h
  cases hrow : graph.adj.get node with rw [hrow] at h
  | none => cases h
  | some row =>
    exact mem_flatMap.mpr ⟨(node, row), JsMap.mem_of_get hrow, mem_map.mpr ⟨edge, h, rfl⟩⟩

theorem mem_edges_iff (h : graph.Tidy) :
    (source, target, weight) ∈ graph.edges ↔ graph.edge? source target = some weight := by
  constructor
  · intro hmem
    obtain ⟨row, hrow, hedge⟩ := mem_flatMap.mp hmem
    obtain ⟨e, he, heq⟩ := mem_map.mp hedge
    cases heq
    have hget : graph.adj.get row.1 = some row.2 := (JsMap.get_eq_some h.rows).mpr hrow
    have hrows := h.edges row.1
    unfold edge?
    unfold neighbors at hrows ⊢
    rw [hget] at hrows ⊢
    exact (JsMap.get_eq_some hrows).mpr he
  · intro hget
    exact mem_edges_of_neighbor (JsMap.mem_of_get hget)

/-! ## §3. Other weights -/

/-- A graph with each edge's weight by its end points and its weight. -/
def reweigh (f : ν → ν → S → T) (graph : WeightedDigraph ν S) : WeightedDigraph ν T :=
  graph.edges.foldl (fun lifted e => lifted.setEdge e.1 e.2.1 (f e.1 e.2.1 e.2.2))
    (graph.nodes.foldl addNode empty)

theorem reweigh_eq (f : ν → ν → S → T) (graph : WeightedDigraph ν S) :
    graph.reweigh f = (graph.edges.map fun e => (e.1, e.2.1, f e.1 e.2.1 e.2.2)).foldl
      (fun graph e => graph.setEdge e.1 e.2.1 e.2.2) (graph.nodes.foldl addNode empty) := by
  unfold reweigh
  rw [foldl_map]

theorem tidy_reweigh (f : ν → ν → S → T) (graph : WeightedDigraph ν S) :
    (graph.reweigh f).Tidy := by
  rw [reweigh_eq]
  exact (tidy_empty.foldl_addNode _).foldl_setEdge _

theorem mem_edges_of_reweigh {f : ν → ν → S → T} {graph : WeightedDigraph ν S}
    (h : (graph.reweigh f).edge? source target = some weight) :
    ∃ w, (source, target, w) ∈ graph.edges ∧ weight = f source target w := by
  rw [reweigh_eq, get_foldl_setEdge, edge?_foldl_addNode] at h
  have hnone : (empty : WeightedDigraph ν T).edge? source target = none := rfl
  rw [hnone, Option.or_none] at h
  obtain ⟨e, he, heq⟩ := mem_map.mp (mem_of_lastEdge h)
  cases heq
  exact ⟨e.2.2, he, rfl⟩

theorem get_reweigh (f : ν → ν → S → T) {graph : WeightedDigraph ν S} (h : graph.Tidy)
    (source target : ν) : (graph.reweigh f).edge? source target
      = (graph.edge? source target).map (f source target) := by
  cases hedge : graph.edge? source target with
  | none =>
    cases hget : (graph.reweigh f).edge? source target with
    | none => rfl
    | some =>
      obtain ⟨w, hw, -⟩ := mem_edges_of_reweigh hget
      rw [mem_edges_iff h, hedge] at hw
      cases hw
  | some w =>
    have hmem : (source, target, f source target w) ∈
        graph.edges.map fun e => (e.1, e.2.1, f e.1 e.2.1 e.2.2) :=
      mem_map.mpr ⟨(source, target, w), (mem_edges_iff h).mpr hedge, rfl⟩
    obtain ⟨weight, hlast⟩ := Option.isSome_iff_exists.mp (lastEdge_isSome hmem)
    have hget : (graph.reweigh f).edge? source target = some weight := by
      rw [reweigh_eq, get_foldl_setEdge, hlast]
      rfl
    obtain ⟨w', hw', rfl⟩ := mem_edges_of_reweigh hget
    rw [mem_edges_iff h, hedge] at hw'
    cases hw'
    exact hget

end WeightedDigraph

end Motebit.Traversal
