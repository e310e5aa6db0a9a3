/-
  Motebit.Traversal.Graph — SEMIRINGS, WEIGHTED DIGRAPHS, and the two traversals.

  Translated from `packages/protocol/src/semiring.ts`, `graph.ts` and `traversal.ts`.  A node id
  is a key of any type.

  Main results: `Built.wf`.
-/

import Motebit.Lib.JsMap

namespace Motebit.Traversal

open Motebit.Lib List Function

/-! ## §1. Semirings -/

/-- `Semiring`; `eq` is the comparison of the traversals, the field or `===` where it is absent. -/
structure SemiringOps (T : Type) where
  zero : T
  one : T
  add : T → T → T
  mul : T → T → T
  eq : T → T → Bool

/-- The documented laws.  `eq` need not see that two values are equal, as `===` does not on
    objects. -/
structure SemiringOps.Lawful {T : Type} (sr : SemiringOps T) : Prop where
  add_comm : ∀ a b, sr.add a b = sr.add b a
  add_assoc : ∀ a b c, sr.add (sr.add a b) c = sr.add a (sr.add b c)
  zero_add : ∀ a, sr.add sr.zero a = a
  mul_assoc : ∀ a b c, sr.mul (sr.mul a b) c = sr.mul a (sr.mul b c)
  one_mul : ∀ a, sr.mul sr.one a = a
  mul_one : ∀ a, sr.mul a sr.one = a
  mul_add : ∀ a b c, sr.mul a (sr.add b c) = sr.add (sr.mul a b) (sr.mul a c)
  add_mul : ∀ a b c, sr.mul (sr.add a b) c = sr.add (sr.mul a c) (sr.mul b c)
  zero_mul : ∀ a, sr.mul sr.zero a = sr.zero
  mul_zero : ∀ a, sr.mul a sr.zero = sr.zero
  eq_sound : ∀ a b, sr.eq a b = true → a = b

theorem SemiringOps.Lawful.add_zero {T : Type} {sr : SemiringOps T} (h : sr.Lawful) (a : T) :
    sr.add a sr.zero = a := by
  rw [h.add_comm, h.zero_add]

/-! ## §2. Graphs -/

/-- `WeightedDigraph`: the set of nodes in insertion order, and each node's outgoing edges. -/
structure WeightedDigraph (ν T : Type) where
  nodes : List ν
  adj : JsMap ν (JsMap ν T)

namespace WeightedDigraph

variable {ν T : Type} [DecidableEq ν]

def empty : WeightedDigraph ν T := ⟨[], []⟩

def neighbors (graph : WeightedDigraph ν T) (id : ν) : JsMap ν T := (graph.adj.get id).getD []

/-- All edges, with source and target. -/
def edges (graph : WeightedDigraph ν T) : List (ν × ν × T) :=
  graph.adj.flatMap fun row => row.2.map fun e => (row.1, e.1, e.2)

def addNode (graph : WeightedDigraph ν T) (id : ν) : WeightedDigraph ν T :=
  ⟨if id ∈ graph.nodes then graph.nodes else graph.nodes ++ [id],
    if (graph.adj.get id).isSome then graph.adj else graph.adj.set id []⟩

def setEdge (graph : WeightedDigraph ν T) (source target : ν) (weight : T) : WeightedDigraph ν T :=
  let graph := (graph.addNode source).addNode target
  { graph with adj := graph.adj.set source ((graph.neighbors source).set target weight) }

/-- Set an edge, combined with the weight it has. -/
def addEdge (sr : SemiringOps T) (graph : WeightedDigraph ν T) (source target : ν) (weight : T) :
    WeightedDigraph ν T :=
  let graph := (graph.addNode source).addNode target
  let neighbors := graph.neighbors source
  let combined := match neighbors.get target with
    | some existing => sr.add existing weight
    | none => weight
  { graph with adj := graph.adj.set source (neighbors.set target combined) }

def removeEdge (graph : WeightedDigraph ν T) (source target : ν) : WeightedDigraph ν T :=
  match graph.adj.get source with
  | some neighbors => { graph with adj := graph.adj.set source (neighbors.delete target) }
  | none => graph

def removeNode (graph : WeightedDigraph ν T) (id : ν) : WeightedDigraph ν T :=
  ⟨graph.nodes.filter fun node => node != id,
    (graph.adj.delete id).map fun e => (e.1, e.2.delete id)⟩

def mapWeights {S : Type} (f : S → T) (graph : WeightedDigraph ν S) : WeightedDigraph ν T :=
  ⟨graph.nodes, graph.adj.map fun e => (e.1, e.2.map fun n => (n.1, f n.2))⟩

end WeightedDigraph

section

variable {ν T : Type} [DecidableEq ν]

inductive Built (sr : SemiringOps T) : WeightedDigraph ν T → Prop
  | empty : Built sr .empty
  | addNode {graph} (id : ν) : Built sr graph → Built sr (graph.addNode id)
  | addEdge {graph} (source target : ν) (weight : T) :
      Built sr graph → Built sr (graph.addEdge sr source target weight)
  | setEdge {graph} (source target : ν) (weight : T) :
      Built sr graph → Built sr (graph.setEdge source target weight)
  | removeEdge {graph} (source target : ν) : Built sr graph → Built sr (graph.removeEdge source target)
  | removeNode {graph} (id : ν) : Built sr graph → Built sr (graph.removeNode id)

/-- Nodes are distinct, and each edge is one of two of them. -/
structure WeightedDigraph.Wf (graph : WeightedDigraph ν T) : Prop where
  nodes : graph.nodes.Nodup
  keys : ∀ id, (graph.neighbors id).keys.Nodup
  sources : ∀ id, graph.neighbors id ≠ [] → id ∈ graph.nodes
  targets : ∀ id, ∀ target ∈ (graph.neighbors id).keys, target ∈ graph.nodes

namespace WeightedDigraph

variable {graph : WeightedDigraph ν T} {id source target : ν}

theorem neighbors_addNode (graph : WeightedDigraph ν T) (id node : ν) :
    (graph.addNode id).neighbors node = graph.neighbors node := by
  unfold neighbors addNode
  dsimp only
  split
  · rfl
  next hnone =>
  rw [JsMap.get_set]
  split
  · next heq =>
    rw [heq]
    rw [Bool.not_eq_true, Option.isSome_eq_false_iff, Option.isNone_iff_eq_none] at hnone
    rw [hnone]
    rfl
  · rfl

theorem mem_nodes_addNode {node : ν} :
    node ∈ (graph.addNode id).nodes ↔ node = id ∨ node ∈ graph.nodes := by
  unfold addNode
  split
  · next hmem =>
    constructor
    · exact .inr
    · rintro (rfl | hnode)
      · exact hmem
      · exact hnode
  · rw [mem_append, mem_singleton]
    exact or_comm

theorem Wf.addNode (h : graph.Wf) (id : ν) : (graph.addNode id).Wf where
  nodes := by
    unfold WeightedDigraph.addNode
    split
    · exact h.nodes
    next hnew =>
    rw [nodup_append]
    refine ⟨h.nodes, nodup_singleton id, fun a ha b hb hab => hnew ?_⟩
    rw [← mem_singleton.mp hb, ← hab]
    exact ha
  keys node := by
    rw [neighbors_addNode]
    exact h.keys node
  sources node hnode := by
    rw [neighbors_addNode] at hnode
    exact mem_nodes_addNode.mpr (.inr (h.sources node hnode))
  targets node target htarget := by
    rw [neighbors_addNode] at htarget
    exact mem_nodes_addNode.mpr (.inr (h.targets node target htarget))

theorem neighbors_set (nodes : List ν) (adj : JsMap ν (JsMap ν T)) (row : JsMap ν T) (node : ν) :
    (⟨nodes, adj.set source row⟩ : WeightedDigraph ν T).neighbors node
      = if node = source then row else (⟨nodes, adj⟩ : WeightedDigraph ν T).neighbors node := by
  unfold neighbors
  rw [JsMap.get_set]
  split <;> rfl

theorem Wf.setRow (h : graph.Wf) {row : JsMap ν T} (hsource : source ∈ graph.nodes)
    (hkeys : row.keys.Nodup) (htargets : ∀ target ∈ row.keys, target ∈ graph.nodes) :
    Wf { graph with adj := graph.adj.set source row } where
  nodes := h.nodes
  keys node := by
    rw [neighbors_set]
    split
    · exact hkeys
    · exact h.keys node
  sources node hnode := by
    rw [neighbors_set] at hnode
    split at hnode
    · next heq =>
      rw [heq]
      exact hsource
    · exact h.sources node hnode
  targets node target htarget := by
    rw [neighbors_set] at htarget
    split at htarget
    · exact htargets target htarget
    · exact h.targets node target htarget

theorem Wf.setTo (h : graph.Wf) (source target : ν) (weight : T) :
    let graph := (graph.addNode source).addNode target
    Wf { graph with adj := graph.adj.set source ((graph.neighbors source).set target weight) } := by
  have hgrown := (h.addNode source).addNode target
  refine hgrown.setRow (mem_nodes_addNode.mpr (.inr (mem_nodes_addNode.mpr (.inl rfl))))
    (JsMap.keys_set_nodup (hgrown.keys source) _ _) fun other hother => ?_
  rcases JsMap.mem_keys_set.mp hother with rfl | hother
  · exact mem_nodes_addNode.mpr (.inl rfl)
  · exact hgrown.targets source other hother

theorem Wf.removeEdge (h : graph.Wf) (source target : ν) : (graph.removeEdge source target).Wf := by
  unfold WeightedDigraph.removeEdge
  split
  · next neighbors hrow =>
    have hsame : graph.neighbors source = neighbors := by
      unfold WeightedDigraph.neighbors
      rw [hrow]
      rfl
    by_cases hempty : neighbors = []
    · subst hempty
      have hdeleted : (JsMap.delete ([] : JsMap ν T) target) = [] := rfl
      refine ⟨h.nodes, fun node => ?_, fun node hnode => ?_, fun node other hother => ?_⟩
      · rw [neighbors_set, hdeleted]
        split
        · exact nodup_nil
        · exact h.keys node
      · rw [neighbors_set, hdeleted] at hnode
        split at hnode
        · exact absurd rfl hnode
        · exact h.sources node hnode
      · rw [neighbors_set, hdeleted] at hother
        split at hother
        · cases hother
        · exact h.targets node other hother
    · have hkeys := h.keys source
      have htargets := h.targets source
      have hsource := h.sources source
      rw [hsame] at hkeys htargets hsource
      refine h.setRow (hsource hempty) (JsMap.keys_delete_nodup hkeys target) fun other hother => ?_
      exact htargets other (List.Sublist.subset (filter_sublist.map _) hother)
  · exact h

theorem neighbors_removeNode (graph : WeightedDigraph ν T) (id node : ν) :
    (graph.removeNode id).neighbors node
      = if node = id then [] else (graph.neighbors node).delete id := by
  have hrows := JsMap.get_map (graph.adj.delete id) (fun row => JsMap.delete row id) node
  unfold neighbors removeNode
  rw [hrows, JsMap.get_delete]
  split
  · rfl
  · cases graph.adj.get node <;> rfl

theorem Wf.removeNode (h : graph.Wf) (id : ν) : (graph.removeNode id).Wf where
  nodes := h.nodes.filter _
  keys node := by
    rw [neighbors_removeNode]
    split
    · exact nodup_nil
    · exact JsMap.keys_delete_nodup (h.keys node) id
  sources node hnode := by
    rw [neighbors_removeNode] at hnode
    split at hnode
    · exact absurd rfl hnode
    next hne =>
    have hold : graph.neighbors node ≠ [] := by
      intro hnil
      rw [hnil] at hnode
      exact hnode rfl
    exact mem_filter.mpr ⟨h.sources node hold, by simpa using hne⟩
  targets node target htarget := by
    rw [neighbors_removeNode] at htarget
    split at htarget
    · cases htarget
    have hkept : target ∈ (graph.neighbors node).keys ∧ target ≠ id := by
      obtain ⟨e, he, rfl⟩ := mem_map.mp htarget
      obtain ⟨he, hne⟩ := mem_filter.mp he
      exact ⟨mem_map_of_mem he, by simpa using hne⟩
    exact mem_filter.mpr ⟨h.targets node target hkept.1, by simpa using hkept.2⟩

end WeightedDigraph

/-- **What the operations build** has each edge between two of its nodes. -/
theorem Built.wf {sr : SemiringOps T} {graph : WeightedDigraph ν T} (h : Built sr graph) :
    graph.Wf := by
  induction h with
  | empty => exact ⟨nodup_nil, fun _ => nodup_nil, fun _ hne => absurd rfl hne,
      nofun⟩
  | addNode id _ ih => exact ih.addNode id
  | addEdge source target weight _ ih => exact ih.setTo source target _
  | setEdge source target weight _ ih => exact ih.setTo source target weight
  | removeEdge source target _ ih => exact ih.removeEdge source target
  | removeNode id _ ih => exact ih.removeNode id

/-! ## §3. Bellman-Ford -/

variable (sr : SemiringOps T) (graph : WeightedDigraph ν T)

/-- One edge of the inner loop, from a node at distance `dNode`. -/
def relaxEdge (dNode : T) (st : JsMap ν T × Bool) (edge : ν × T) : JsMap ν T × Bool :=
  let candidate := sr.mul dNode edge.2
  let current := (st.1.get edge.1).getD sr.zero
  let combined := sr.add current candidate
  if sr.eq combined current then st else (st.1.set edge.1 combined, true)

/-- One node of the loop; a node at zero is skipped. -/
def relaxNode (st : JsMap ν T × Bool) (node : ν) : JsMap ν T × Bool :=
  let dNode := (st.1.get node).getD sr.zero
  if sr.eq dNode sr.zero then st else (graph.neighbors node).foldl (relaxEdge sr dNode) st

/-- One round, and whether it changed anything. -/
def relaxAll (dist : JsMap ν T) : JsMap ν T × Bool :=
  graph.nodes.foldl (relaxNode sr graph) (dist, false)

/-- The rounds, to the first that changes nothing. -/
def relaxRounds : Nat → JsMap ν T → JsMap ν T
  | 0, dist => dist
  | rounds + 1, dist =>
    let (dist, changed) := relaxAll sr graph dist
    if changed then relaxRounds rounds dist else dist

/-- The source at one, every other node at zero. -/
def initialDist (source : ν) : JsMap ν T :=
  (graph.nodes.foldl (fun (dist : JsMap ν T) node => dist.set node sr.zero) []).set source sr.one

def optimalPaths (source : ν) : JsMap ν T :=
  relaxRounds sr graph (graph.nodes.length - 1) (initialDist sr graph source)

/-! ## §4. Floyd-Warshall -/

/-- A matrix, by row and column. -/
abbrev Matrix (T : Type) := Nat → Nat → T

def Matrix.set (dist : Matrix T) (i j : Nat) (x : T) : Matrix T :=
  update dist i (update (dist i) j x)

/-- An entry with one more weight. -/
def Matrix.combine (dist : Matrix T) (i j : Nat) (x : T) : Matrix T :=
  dist.set i j (sr.add (dist i j) x)

/-- The edges of one node loaded. -/
def loadNode (dist : Matrix T) (node : ν) : Matrix T :=
  (graph.neighbors node).foldl (fun dist edge =>
    dist.combine sr (graph.nodes.idxOf node) (graph.nodes.idxOf edge.1) edge.2) dist

def loadEdges : Matrix T :=
  graph.nodes.foldl (loadNode sr graph) fun i j => if i = j then sr.one else sr.zero

def through (k i : Nat) (dist : Matrix T) (j : Nat) : Matrix T :=
  dist.combine sr i j (sr.mul (dist i k) (dist k j))

def stage (n : Nat) (dist : Matrix T) (k : Nat) : Matrix T :=
  (List.range n).foldl (fun dist i => (List.range n).foldl (through sr k i) dist) dist

def transitiveClosure : JsMap ν (JsMap ν T) :=
  let n := graph.nodes.length
  let dist := (List.range n).foldl (stage sr n) (loadEdges sr graph)
  let nodes := graph.nodes
  nodes.foldl (fun result a => JsMap.set result a
    (nodes.foldl (fun row b => JsMap.set row b (dist (nodes.idxOf a) (nodes.idxOf b))) [])) []

end

end Motebit.Traversal
