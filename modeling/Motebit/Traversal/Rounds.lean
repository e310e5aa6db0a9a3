/-
  Motebit.Traversal.Rounds — BELLMAN-FORD WITHOUT ITS SHORTCUTS.

  A node at zero has nothing to give, an edge that changes nothing may be left, and a round that
  changes nothing is the last that could.  So the result is that of plain rounds, one for each
  node but one.  The same holds of what a map of the semiring into another one shows of it, if
  what `eq` takes as equal is shown as equal.

  Main results: `get_optimalPaths`, `optimalPaths_shown`.
-/

import Motebit.Traversal.Graph

namespace Motebit.Traversal

open Motebit.Lib List Function

variable {ν S T : Type} [DecidableEq ν]

/-! ## §1. Plain rounds -/

/-- The edges of a node at distance `d` relaxed, each of them. -/
def push (sr : SemiringOps T) (d : T) (edges : List (ν × T)) (dist : ν → T) : ν → T :=
  edges.foldl (fun dist edge =>
    update dist edge.1 (sr.add (dist edge.1) (sr.mul d edge.2))) dist

def plainNode (sr : SemiringOps T) (graph : WeightedDigraph ν T) (dist : ν → T) (node : ν) : ν → T :=
  push sr (dist node) (graph.neighbors node) dist

def plainRound (sr : SemiringOps T) (graph : WeightedDigraph ν T) (dist : ν → T) : ν → T :=
  graph.nodes.foldl (plainNode sr graph) dist

/-- The source at one, all else at zero. -/
def plainStart (sr : SemiringOps T) (source : ν) : ν → T :=
  update (fun _ => sr.zero) source sr.one

/-! ## §2. What is shown of a run -/

/-- A map of the operations that takes what `eq` sees as equal to the same. -/
structure Shows (sr : SemiringOps S) (sr' : SemiringOps T) (show' : S → T) : Prop where
  zero : show' sr.zero = sr'.zero
  one : show' sr.one = sr'.one
  add : ∀ a b, show' (sr.add a b) = sr'.add (show' a) (show' b)
  mul : ∀ a b, show' (sr.mul a b) = sr'.mul (show' a) (show' b)
  eq : ∀ a b, sr.eq a b = true → show' a = show' b

variable {sr : SemiringOps S} {sr' : SemiringOps T} {π : S → T} {graph : WeightedDigraph ν S}

/-- The distances shown, zero where there is none. -/
def shown (sr : SemiringOps S) (π : S → T) (dist : JsMap ν S) (node : ν) : T :=
  π ((dist.get node).getD sr.zero)

theorem shown_set (dist : JsMap ν S) (node : ν) (x : S) :
    shown sr π (dist.set node x) = update (shown sr π dist) node (π x) := by
  funext other
  unfold shown
  rw [JsMap.get_set, update_apply]
  split <;> rfl

theorem push_cons (d : T) (edge : ν × T) (edges : List (ν × T)) (dist : ν → T) :
    push sr' d (edge :: edges) dist = push sr' d edges
      (update dist edge.1 (sr'.add (dist edge.1) (sr'.mul d edge.2))) := rfl

theorem push_zero (hlaws : sr'.Lawful) (edges : List (ν × T)) (dist : ν → T) :
    push sr' sr'.zero edges dist = dist := by
  induction edges generalizing dist with
  | nil => rfl
  | cons edge edges ih => rw [push_cons, hlaws.zero_mul, hlaws.add_zero, update_eq_self, ih]

theorem shown_relaxEdge (hπ : Shows sr sr' π) (d : S) (st : JsMap ν S × Bool) (edge : ν × S) :
    shown sr π (relaxEdge sr d st edge).1 = update (shown sr π st.1) edge.1
          (sr'.add (shown sr π st.1 edge.1) (sr'.mul (π d) (π edge.2))) := by
  have hcombined : π (sr.add ((st.1.get edge.1).getD sr.zero) (sr.mul d edge.2))
      = sr'.add (shown sr π st.1 edge.1) (sr'.mul (π d) (π edge.2)) := by
    rw [hπ.add, hπ.mul]
    rfl
  unfold relaxEdge
  dsimp only
  split
  · next heq =>
    -- what is left as it is would be shown the same
    rw [← hcombined, hπ.eq _ _ heq]
    exact (update_eq_self edge.1 (shown sr π st.1)).symm
  · rw [shown_set, hcombined]

theorem shown_edges (hπ : Shows sr sr' π) (d : S) (edges : List (ν × S))
    (st : JsMap ν S × Bool) : shown sr π (edges.foldl (relaxEdge sr d) st).1
      = push sr' (π d) (edges.map fun e => (e.1, π e.2)) (shown sr π st.1) := by
  induction edges generalizing st with
  | nil => rfl
  | cons edge edges ih => rw [foldl_cons, ih, shown_relaxEdge hπ, map_cons, push_cons]

theorem neighbors_mapWeights (graph : WeightedDigraph ν S) (node : ν) :
    (graph.mapWeights π).neighbors node = (graph.neighbors node).map fun e => (e.1, π e.2) := by
  have hrows := JsMap.get_map graph.adj (fun row => row.map fun e => (e.1, π e.2)) node
  unfold WeightedDigraph.neighbors WeightedDigraph.mapWeights
  rw [hrows]
  cases graph.adj.get node <;> rfl

theorem shown_relaxNode (hπ : Shows sr sr' π) (hlaws : sr'.Lawful) (st : JsMap ν S × Bool)
    (node : ν) : shown sr π (relaxNode sr graph st node).1
      = plainNode sr' (graph.mapWeights π) (shown sr π st.1) node := by
  unfold relaxNode plainNode
  dsimp only
  rw [neighbors_mapWeights]
  split
  · next heq =>
    have hzero : shown sr π st.1 node = sr'.zero := by
      rw [← hπ.zero]
      exact hπ.eq _ _ heq
    rw [hzero, push_zero hlaws]
  · exact shown_edges hπ _ _ st

theorem shown_relaxAll (hπ : Shows sr sr' π) (hlaws : sr'.Lawful) (dist : JsMap ν S) :
    shown sr π (relaxAll sr graph dist).1
      = plainRound sr' (graph.mapWeights π) (shown sr π dist) := by
  have hnodes : ∀ (nodes : List ν) (st : JsMap ν S × Bool),
      shown sr π (nodes.foldl (relaxNode sr graph) st).1
        = nodes.foldl (plainNode sr' (graph.mapWeights π)) (shown sr π st.1) := by
    intro nodes
    induction nodes with
    | nil => exact fun _ => rfl
    | cons node nodes ih =>
      intro st
      rw [foldl_cons, foldl_cons, ih, shown_relaxNode hπ hlaws]
  exact hnodes graph.nodes (dist, false)

theorem relaxAll_unchanged {dist : JsMap ν S} (h : (relaxAll sr graph dist).2 = false) :
    (relaxAll sr graph dist).1 = dist := by
  -- once a change is reported it stays reported
  have hedges : ∀ (d : S) (edges : List (ν × S)) (st : JsMap ν S × Bool),
      (edges.foldl (relaxEdge sr d) st).2 = false → edges.foldl (relaxEdge sr d) st = st := by
    intro d edges
    induction edges with
    | nil => exact fun _ _ => rfl
    | cons edge edges ih =>
      intro st hfalse
      rw [foldl_cons] at hfalse ⊢
      have hrest := ih _ hfalse
      rw [hrest] at hfalse ⊢
      unfold relaxEdge at hfalse ⊢
      dsimp only at hfalse ⊢
      split
      · rfl
      · next hne =>
        rw [if_neg hne] at hfalse
        cases hfalse
  have hnodes : ∀ (nodes : List ν) (st : JsMap ν S × Bool),
      (nodes.foldl (relaxNode sr graph) st).2 = false →
        nodes.foldl (relaxNode sr graph) st = st := by
    intro nodes
    induction nodes with
    | nil => exact fun _ _ => rfl
    | cons node nodes ih =>
      intro st hfalse
      rw [foldl_cons] at hfalse ⊢
      have hrest := ih _ hfalse
      rw [hrest] at hfalse ⊢
      unfold relaxNode at hfalse ⊢
      dsimp only at hfalse ⊢
      split
      · rfl
      · next hne =>
        rw [if_neg hne] at hfalse
        exact hedges _ _ _ hfalse
  exact congrArg Prod.fst (hnodes graph.nodes (dist, false) h)

/-- **Rounds that stop early**: what is shown is the result of all the rounds. -/
theorem shown_relaxRounds (hπ : Shows sr sr' π) (hlaws : sr'.Lawful) (rounds : Nat)
    (dist : JsMap ν S) : shown sr π (relaxRounds sr graph rounds dist)
      = (plainRound sr' (graph.mapWeights π))^[rounds] (shown sr π dist) := by
  induction rounds generalizing dist with
  | zero => rfl
  | succ rounds ih =>
    have hround := @shown_relaxAll _ _ _ _ _ _ _ graph hπ hlaws dist
    rw [iterate_succ_apply, ← hround]
    unfold relaxRounds
    dsimp only
    cases hchanged : (relaxAll sr graph dist).2 with
    | true =>
      exact ih _
    | false =>
      rw [if_neg Bool.false_ne_true]
      -- the distances are a fixed point of the round
      have hsame := relaxAll_unchanged hchanged
      rw [hsame] at hround ⊢
      rw [iterate_fixed hround.symm]

theorem shown_initialDist (hπ : Shows sr sr' π) (source : ν) :
    shown sr π (initialDist sr graph source) = plainStart sr' source := by
  unfold initialDist plainStart
  have hzeros : ∀ (nodes : List ν) (dist : JsMap ν S), shown sr π dist = (fun _ => sr'.zero) →
      shown sr π (nodes.foldl (fun (dist : JsMap ν S) node => dist.set node sr.zero) dist)
        = fun _ => sr'.zero := by
    intro nodes
    induction nodes with
    | nil => exact fun _ h => h
    | cons node nodes ih =>
      intro dist h
      apply ih
      rw [shown_set, h, hπ.zero]
      exact update_eq_self node _
  rw [shown_set, hzeros graph.nodes [] (by funext node; exact hπ.zero), hπ.one]

/-! ## §3. The result -/

theorem isSome_relaxEdge {d : S} {st : JsMap ν S × Bool} {edge : ν × S}
    (h : (st.1.get edge.1).isSome = true) (node : ν) :
    ((relaxEdge sr d st edge).1.get node).isSome = (st.1.get node).isSome := by
  unfold relaxEdge
  dsimp only
  split
  · rfl
  · rw [JsMap.get_set]
    split
    · next heq =>
      rw [heq, h]
      rfl
    · rfl

theorem isSome_relaxRounds (rounds : Nat) {dist : JsMap ν S}
    (htargets : ∀ id, ∀ target ∈ (graph.neighbors id).keys, (dist.get target).isSome = true)
    (node : ν) : ((relaxRounds sr graph rounds dist).get node).isSome = (dist.get node).isSome := by
  have hedges : ∀ (d : S) (edges : List (ν × S)) (st : JsMap ν S × Bool),
      (∀ e ∈ edges, (st.1.get e.1).isSome = true) → ∀ node,
        ((edges.foldl (relaxEdge sr d) st).1.get node).isSome = (st.1.get node).isSome := by
    intro d edges
    induction edges with
    | nil => exact fun _ _ _ => rfl
    | cons edge edges ih =>
      intro st hst node
      have hone := @isSome_relaxEdge ν S _ sr d st edge (hst edge mem_cons_self)
      rw [foldl_cons, ih _ fun e he => by
        rw [hone]
        exact hst e (mem_cons_of_mem _ he)]
      exact hone node
  have hnodes : ∀ (nodes : List ν) (st : JsMap ν S × Bool),
      (∀ id, ∀ target ∈ (graph.neighbors id).keys, (st.1.get target).isSome = true) → ∀ node,
        ((nodes.foldl (relaxNode sr graph) st).1.get node).isSome = (st.1.get node).isSome := by
    intro nodes
    induction nodes with
    | nil => exact fun _ _ _ => rfl
    | cons id nodes ih =>
      intro st hst node
      have hone : ∀ node, ((relaxNode sr graph st id).1.get node).isSome
          = (st.1.get node).isSome := by
        intro node
        unfold relaxNode
        dsimp only
        split
        · rfl
        · exact hedges _ _ _ (fun e he => hst id e.1 (mem_map_of_mem he)) node
      rw [foldl_cons, ih _ fun id' target htarget => by
        rw [hone]
        exact hst id' target htarget]
      exact hone node
  induction rounds generalizing dist with
  | zero => rfl
  | succ rounds ih =>
    have hround := hnodes graph.nodes (dist, false) htargets
    unfold relaxRounds
    dsimp only
    split
    · rw [ih fun id target htarget => by
        show ((graph.nodes.foldl (relaxNode sr graph) (dist, false)).1.get target).isSome = true
        rw [hround]
        exact htargets id target htarget]
      exact hround node
    · exact hround node

theorem isSome_initialDist (source node : ν) :
    ((initialDist sr graph source).get node).isSome = true ↔ node = source ∨ node ∈ graph.nodes := by
  have hnodes : ∀ (nodes : List ν) (dist : JsMap ν S),
      ((nodes.foldl (fun (dist : JsMap ν S) node => dist.set node sr.zero) dist).get node).isSome
        = true ↔ node ∈ nodes ∨ (dist.get node).isSome = true := by
    intro nodes
    induction nodes with
    | nil => exact fun _ => by simp
    | cons id nodes ih =>
      intro dist
      rw [foldl_cons, ih, JsMap.get_set, mem_cons]
      split
      · next heq => simp [heq]
      · next hne => simp [hne]
  unfold initialDist
  rw [JsMap.get_set]
  split
  · next heq => simp [heq]
  · next hne => simp [hne, hnodes]

theorem keys_optimalPaths_nodup (sr : SemiringOps S) (graph : WeightedDigraph ν S) (source : ν) :
    (optimalPaths sr graph source).keys.Nodup := by
  have hround : ∀ dist : JsMap ν S, dist.keys.Nodup → (relaxAll sr graph dist).1.keys.Nodup := by
    intro dist hdist
    refine List.foldlRecOn graph.nodes (relaxNode sr graph)
      (motive := fun st : JsMap ν S × Bool => st.1.keys.Nodup) hdist ?_
    intro st hst node _
    unfold relaxNode
    dsimp only
    split
    · exact hst
    · refine List.foldlRecOn _ _ (motive := fun st : JsMap ν S × Bool => st.1.keys.Nodup) hst ?_
      intro st hst edge _
      unfold relaxEdge
      dsimp only
      split
      · exact hst
      · exact JsMap.keys_set_nodup hst _ _
  have hrounds : ∀ (rounds : Nat) (dist : JsMap ν S), dist.keys.Nodup →
      (relaxRounds sr graph rounds dist).keys.Nodup := by
    intro rounds
    induction rounds with
    | zero => exact fun _ h => h
    | succ rounds ih =>
      intro dist hdist
      unfold relaxRounds
      dsimp only
      split
      · exact ih _ (hround dist hdist)
      · exact hround dist hdist
  apply hrounds
  apply JsMap.keys_set_nodup
  refine List.foldlRecOn graph.nodes _ (motive := fun dist : JsMap ν S => dist.keys.Nodup)
    nodup_nil ?_
  intro dist hdist node _
  exact JsMap.keys_set_nodup hdist node sr.zero

/-- **What is shown of the result is the result of plain rounds**, at each node and the source. -/
theorem get_optimalPaths (hπ : Shows sr sr' π) (hlaws : sr'.Lawful) (hwf : graph.Wf)
    (source node : ν) : ((optimalPaths sr graph source).get node).map π
      = if node = source ∨ node ∈ graph.nodes then
          some ((plainRound sr' (graph.mapWeights π))^[graph.nodes.length - 1]
            (plainStart sr' source) node)
        else none := by
  have hsome := @isSome_relaxRounds ν S _ sr graph (graph.nodes.length - 1)
    (initialDist sr graph source) (fun id target htarget =>
      (isSome_initialDist source target).mpr (.inr (hwf.targets id target htarget))) node
  have hvalue := congrFun (@shown_relaxRounds ν S T _ sr sr' π graph hπ hlaws
    (graph.nodes.length - 1) (initialDist sr graph source)) node
  rw [shown_initialDist hπ] at hvalue
  rw [← hvalue]
  unfold shown
  show Option.map π ((relaxRounds sr graph (graph.nodes.length - 1)
    (initialDist sr graph source)).get node) = _
  split
  · next hnode =>
    rw [(isSome_initialDist source node).mpr hnode] at hsome
    obtain ⟨x, hx⟩ := Option.isSome_iff_exists.mp hsome
    rw [hx]
    rfl
  · next hnode =>
    have hnone : ((initialDist sr graph source).get node).isSome = false := by
      rw [← Bool.not_eq_true, isSome_initialDist]
      exact hnode
    rw [hnone, Option.isSome_eq_false_iff, Option.isNone_iff_eq_none] at hsome
    rw [hsome]
    rfl

theorem SemiringOps.Lawful.shows {sr : SemiringOps T} (h : sr.Lawful) : Shows sr sr id :=
  ⟨rfl, rfl, fun _ _ => rfl, fun _ _ => rfl, h.eq_sound⟩

omit [DecidableEq ν] in
theorem mapWeights_id (graph : WeightedDigraph ν T) : graph.mapWeights id = graph := by
  unfold WeightedDigraph.mapWeights
  simp

theorem WeightedDigraph.Wf.mapWeights (h : graph.Wf) (f : S → T) : (graph.mapWeights f).Wf where
  nodes := h.nodes
  keys id := by
    rw [neighbors_mapWeights]
    unfold JsMap.keys
    rw [map_map]
    exact h.keys id
  sources id hne := by
    rw [neighbors_mapWeights] at hne
    exact h.sources id fun hnil => hne (by rw [hnil]; rfl)
  targets id target htarget := by
    rw [neighbors_mapWeights] at htarget
    unfold JsMap.keys at htarget
    rw [map_map] at htarget
    exact h.targets id target htarget

/-- **A shown run is a run**: what a map of the semiring shows of the result is the result over
    the shown weights. -/
theorem optimalPaths_shown (hπ : Shows sr sr' π) (hlaws : sr'.Lawful) (hwf : graph.Wf)
    (source node : ν) : ((optimalPaths sr graph source).get node).map π
      = (optimalPaths sr' (graph.mapWeights π) source).get node := by
  have hplain := @get_optimalPaths ν T T _ sr' sr' id (graph.mapWeights π) hlaws.shows hlaws
    (hwf.mapWeights π) source node
  rw [mapWeights_id, Option.map_id, id] at hplain
  rw [hplain, get_optimalPaths hπ hlaws hwf]
  rfl

end Motebit.Traversal
