/-
  Motebit.Traversal.Derivations — HOW OFTEN A DERIVATION IS LISTED.

  Translated from `packages/semiring/src/provenance.ts` (`ProvenanceSemiring`).

  Values are to be sets of derivations, but the sum appends.  Each round relaxes every edge again,
  so from the second one on the derivations of the first are listed twice.  As bags the values are
  those of plain rounds.

  Main results: `optimalPaths_derivations`, `listed_once_iff`.
-/

import Mathlib.Data.Multiset.Bind
import Motebit.Traversal.Provenance
import Motebit.Traversal.Trace

namespace Motebit.Traversal

open Motebit.Lib List Function

/-! ## §1. Provenance without a bound -/

/-- A value as `===` sees it: the constant zero, or an array of its own. -/
inductive Ref (L : Type) where
  | zero
  | made (paths : Provenance L)

def Ref.paths {L : Type} : Ref L → Provenance L
  | .zero => []
  | .made paths => paths

def ProvenanceSemiring (L : Type) : SemiringOps (Ref L) where
  zero := .zero
  one := .made [[]]
  add a b := .made (a.paths ++ b.paths)
  mul a b :=
    if a.paths.length = 0 ∨ b.paths.length = 0 then .made []
    else .made (a.paths.flatMap fun pa => b.paths.map fun pb => pa ++ pb)
  eq
    | .zero, .zero => true
    | _, _ => false

/-! ## §2. Bags of derivations -/

def derivations (L : Type) : SemiringOps (Multiset (List L)) where
  zero := 0
  one := {[]}
  add a b := a + b
  mul a b := a.bind fun pa => b.map fun pb => pa ++ pb
  eq _ _ := false

variable {ν L : Type} [DecidableEq ν]

theorem derivations_lawful : (derivations L).Lawful where
  add_comm a b := add_comm a b
  add_assoc a b c := add_assoc a b c
  zero_add a := zero_add a
  mul_assoc a b c := by simp [derivations, Multiset.bind_assoc, Multiset.bind_map,
    Multiset.map_bind, append_assoc]
  one_mul a := by simp [derivations]
  mul_one a := by simpa [derivations] using Multiset.bind_singleton a id
  mul_add a b c := by simp [derivations, Multiset.bind_add]
  add_mul a b c := Multiset.add_bind a b _
  zero_mul _ := rfl
  mul_zero a := by simp [derivations]
  eq_sound _ _ h := by cases h

theorem provenanceSemiring_shows :
    Shows (ProvenanceSemiring L) (derivations L) fun r => (r.paths : Multiset (List L)) where
  zero := rfl
  one := rfl
  add _ _ := rfl
  mul a b := by
    have hmul : ((ProvenanceSemiring L).mul a b).paths =
        a.paths.flatMap fun pa => b.paths.map fun pb => pa ++ pb := by
      unfold ProvenanceSemiring
      dsimp only
      split
      · next hempty =>
        rcases hempty with ha | hb
        · rw [length_eq_zero_iff.mp ha]
          rfl
        · rw [length_eq_zero_iff.mp hb]
          simp [Ref.paths]
      · rfl
    rw [hmul]
    exact (Multiset.coe_bind a.paths _).symm
  eq a b h := by
    cases a <;> cases b <;> first | rfl | cases h

/-- The edges of a graph are labelled, no two alike. -/
structure Labelled (graph : WeightedDigraph ν (Ref L)) (label : ν → ν → L) : Prop where
  weights : ∀ u, ∀ e ∈ graph.neighbors u, e.2 = .made [[label u e.1]]
  distinct : ∀ u v u' v', v ∈ (graph.neighbors u).keys → v' ∈ (graph.neighbors u').keys →
    label u v = label u' v' → u = u' ∧ v = v'

/-- One node's edges relaxed. -/
def spread (graph : WeightedDigraph ν (Ref L)) (label : ν → ν → L) (dist : ν → Multiset (List L))
    (u v : ν) : Multiset (List L) :=
  if v ∈ (graph.neighbors u).keys then dist v + (dist u).map (· ++ [label u v]) else dist v

def spreadAll (graph : WeightedDigraph ν (Ref L)) (label : ν → ν → L)
    (dist : ν → Multiset (List L)) : ν → Multiset (List L) :=
  graph.nodes.foldl (spread graph label) dist

variable {graph : WeightedDigraph ν (Ref L)} {label : ν → ν → L} {source : ν}
  {dist : ν → Multiset (List L)}

theorem push_labels (f : ν → L) (d : Multiset (List L)) {targets : List ν} (h : targets.Nodup)
    (dist : ν → Multiset (List L)) (v : ν) :
    push (derivations L) d (targets.map fun t => (t, {[f t]})) dist v =
      if v ∈ targets then dist v + d.map (· ++ [f v]) else dist v := by
  induction targets generalizing dist with
  | nil => rfl
  | cons t targets ih =>
    obtain ⟨hnew, hrest⟩ := nodup_cons.mp h
    rw [map_cons, push_cons, ih hrest]
    by_cases hv : v = t
    · subst hv
      simp [hnew, derivations, Multiset.bind_singleton]
    · simp [hv]

theorem plainNode_eq (hwf : graph.Wf) (h : Labelled graph label) (dist : ν → Multiset (List L))
    (u : ν) : plainNode (derivations L)
      (graph.mapWeights fun r => (r.paths : Multiset (List L))) dist u = spread graph label dist u := by
  have hedges : ((graph.neighbors u).map fun e => (e.1, (e.2.paths : Multiset (List L)))) =
      (graph.neighbors u).keys.map fun t => (t, {[label u t]}) := by
    unfold JsMap.keys
    rw [map_map]
    refine map_congr_left fun e he => ?_
    rw [h.weights u e he]
    rfl
  funext v
  unfold plainNode
  rw [neighbors_mapWeights, hedges, push_labels _ _ (hwf.keys u)]
  rfl

/-- **What a traversal lists**, as a bag, is the result of plain rounds. -/
theorem optimalPaths_derivations (hwf : graph.Wf) (h : Labelled graph label) (source t : ν) :
    ((optimalPaths (ProvenanceSemiring L) graph source).get t).map
        (fun r => (r.paths : Multiset (List L))) =
      if t = source ∨ t ∈ graph.nodes then some ((spreadAll graph label)^[graph.nodes.length - 1]
          (plainStart (derivations L) source) t)
      else none := by
  have hround : plainRound (derivations L) (graph.mapWeights fun r =>
      (r.paths : Multiset (List L))) = spreadAll graph label := by
    funext dist
    have hnode : plainNode (derivations L) (graph.mapWeights fun r =>
        (r.paths : Multiset (List L))) = spread graph label := by
      funext dist u
      exact plainNode_eq hwf h dist u
    unfold plainRound spreadAll
    rw [hnode]
    rfl
  rw [← hround]
  exact get_optimalPaths provenanceSemiring_shows derivations_lawful hwf source t

/-! ## §3. Listed paths spell walks -/

/-- The labels along a walk. -/
def spelling (label : ν → ν → L) : ν → List ν → List L
  | _, [] => []
  | u, v :: walk => label u v :: spelling label v walk

def Spelt (graph : WeightedDigraph ν (Ref L)) (label : ν → ν → L) (source : ν)
    (dist : ν → Multiset (List L)) : Prop :=
  ∀ v, ∀ p ∈ dist v, ∃ walk, IsWalk graph source walk v ∧ spelling label source walk = p

theorem spelling_append {u v : ν} {walk : List ν} (h : IsWalk graph source walk u) :
    spelling label source (walk ++ [v]) = spelling label source walk ++ [label u v] := by
  induction walk generalizing source with
  | nil =>
    have hsu : source = u := h
    rw [hsu]
    rfl
  | cons next walk ih => exact congrArg (label source next :: ·) (ih h.2)

theorem Spelt.spread (h : Spelt graph label source dist) (u : ν) :
    Spelt graph label source (spread graph label dist u) := by
  intro v p hp
  unfold Traversal.spread at hp
  split at hp
  · next hedge =>
    rcases Multiset.mem_add.mp hp with hold | hnew
    · exact h v p hold
    · obtain ⟨q, hq, rfl⟩ := Multiset.mem_map.mp hnew
      obtain ⟨walk, hwalk, rfl⟩ := h u q hq
      exact ⟨walk ++ [v], isWalk_append hwalk hedge, spelling_append hwalk⟩
  · exact h v p hp

variable {v : ν}

theorem mem_plainStart {p : List L} :
    p ∈ plainStart (derivations L) source v ↔ v = source ∧ p = [] := by
  unfold plainStart
  rw [update_apply]
  split
  · next heq => simp [heq, derivations]
  · next hne => simp [hne, derivations]

theorem spelt_rounds (rounds : Nat) : Spelt graph label source
    ((spreadAll graph label)^[rounds] (plainStart (derivations L) source)) := by
  induction rounds with
  | zero =>
    intro v p hp
    obtain ⟨rfl, rfl⟩ := mem_plainStart.mp hp
    exact ⟨[], rfl, rfl⟩
  | succ rounds ih =>
    rw [iterate_succ_apply']
    exact List.foldlRecOn graph.nodes _ (motive := Spelt graph label source) ih
      fun dist h u _ => h.spread u

/-! ## §4. One round lists each derivation once -/

/-- No list repeats a path, and each path ends in an edge of a node done. -/
structure Fresh (graph : WeightedDigraph ν (Ref L)) (label : ν → ν → L) (done : List ν)
    (dist : ν → Multiset (List L)) : Prop where
  nodup : ∀ v, (dist v).Nodup
  ends : ∀ v, ∀ p ∈ dist v, p = [] ∨
    ∃ u ∈ done, v ∈ (graph.neighbors u).keys ∧ ∃ q, p = q ++ [label u v]

theorem Fresh.spread (hlabel : Labelled graph label) {done : List ν}
    (h : Fresh graph label done dist) {u : ν} (hu : u ∉ done) :
    Fresh graph label (done ++ [u]) (spread graph label dist u) := by
  refine ⟨fun v => ?_, fun v p hp => ?_⟩ <;> unfold Traversal.spread at *
  · split
    · next hedge =>
      refine (Multiset.nodup_add).mpr ⟨h.nodup v, (h.nodup u).map (append_left_injective _), ?_⟩
      rw [Multiset.disjoint_left]
      intro p hold hnew
      obtain ⟨q, -, rfl⟩ := Multiset.mem_map.mp hnew
      rcases h.ends v _ hold with hnil | ⟨w, hw, hwv, q', heq⟩
      · simp at hnil
      · -- the label tells the edge, and its node is not done
        have hsame : label u v = label w v := by simpa using (append_inj' heq rfl).2
        obtain ⟨rfl, -⟩ := hlabel.distinct _ _ _ _ hedge hwv hsame
        exact hu hw
    · exact h.nodup v
  · have hold : p ∈ dist v → p = [] ∨ ∃ w ∈ done ++ [u], v ∈ (graph.neighbors w).keys ∧
        ∃ q, p = q ++ [label w v] := by
      intro hp
      rcases h.ends v p hp with hnil | ⟨w, hw, hrest⟩
      · exact .inl hnil
      · exact .inr ⟨w, mem_append_left _ hw, hrest⟩
    split at hp
    · next hedge =>
      rcases Multiset.mem_add.mp hp with hp | hnew
      · exact hold hp
      · obtain ⟨q, -, rfl⟩ := Multiset.mem_map.mp hnew
        exact .inr ⟨u, by simp, hedge, q, rfl⟩
    · exact hold hp

theorem fresh_start : Fresh graph label [] (plainStart (derivations L) source) where
  nodup v := by
    unfold plainStart
    rw [update_apply]
    split
    · exact Multiset.nodup_singleton []
    · exact Multiset.nodup_zero
  ends v p hp := .inl (mem_plainStart.mp hp).2

theorem nodup_round (hwf : graph.Wf) (hlabel : Labelled graph label) (v : ν) :
    (spreadAll graph label (plainStart (derivations L) source) v).Nodup := by
  have hnodes : ∀ (nodes done : List ν) (dist : ν → Multiset (List L)),
      (done ++ nodes).Nodup → Fresh graph label done dist →
        Fresh graph label (done ++ nodes) (nodes.foldl (spread graph label) dist) := by
    intro nodes
    induction nodes with
    | nil => intro done dist _ h; rwa [append_nil]
    | cons u nodes ih =>
      intro done dist hnodup h
      have hu : u ∉ done := fun hin => (nodup_append.mp hnodup).2.2 u hin u mem_cons_self rfl
      have hstep := ih (done ++ [u]) _ (by simpa using hnodup) (h.spread hlabel hu)
      rwa [append_assoc] at hstep
  exact (hnodes graph.nodes [] _ hwf.nodes fresh_start).nodup v

theorem round_idle (h : graph.neighbors source = []) :
    spreadAll graph label (plainStart (derivations L) source) =
      plainStart (derivations L) source := by
  refine List.foldlRecOn graph.nodes _
    (motive := fun dist => dist = plainStart (derivations L) source) rfl ?_
  rintro dist rfl u -
  funext v
  unfold spread
  split
  · next hedge =>
    have hu : u ≠ source := by
      rintro rfl
      rw [h] at hedge
      cases hedge
    have hzero : plainStart (derivations L) source u = 0 := update_of_ne hu _ _
    rw [hzero, Multiset.map_zero, add_zero]
  · rfl

/-! ## §5. Each further round lists the source's edges once more -/

/-- The source's edge to `v` is listed `k` times there. -/
def Piled (label : ν → ν → L) (source v : ν) (k : Nat) (dist : ν → Multiset (List L)) : Prop :=
  [] ∈ dist source ∧ Multiset.replicate k [label source v] ≤ dist v

theorem le_spread (u v : ν) : dist v ≤ spread graph label dist u v := by
  unfold spread
  split
  · exact Multiset.le_add_right _ _
  · exact le_refl _

theorem Piled.spread {k : Nat} (h : Piled label source v k dist) (u : ν) :
    Piled label source v k (spread graph label dist u) :=
  ⟨Multiset.mem_of_le (le_spread u source) h.1, h.2.trans (le_spread u v)⟩

theorem Piled.round {k : Nat} (h : Piled label source v k dist)
    (hsource : source ∈ graph.nodes) (hedge : v ∈ (graph.neighbors source).keys) :
    Piled label source v (k + 1) (spreadAll graph label dist) := by
  have hkeep : ∀ (k : Nat) (nodes : List ν) (dist : ν → Multiset (List L)),
      Piled label source v k dist →
        Piled label source v k (nodes.foldl (Traversal.spread graph label) dist) := by
    intro k nodes dist hdist
    exact List.foldlRecOn nodes _ (motive := Piled label source v k) hdist fun _ h u _ => h.spread u
  obtain ⟨before, after, hnodes⟩ := append_of_mem hsource
  unfold spreadAll
  rw [hnodes, foldl_append, foldl_cons]
  obtain ⟨hone, hpile⟩ := hkeep k before dist h
  refine hkeep (k + 1) after _ ⟨Multiset.mem_of_le (le_spread source source) hone, ?_⟩
  unfold Traversal.spread
  rw [if_pos hedge, Multiset.replicate_add]
  refine add_le_add hpile ?_
  rw [Multiset.replicate_one, Multiset.singleton_le]
  exact Multiset.mem_map.mpr ⟨[], hone, rfl⟩

theorem piled_rounds (hsource : source ∈ graph.nodes)
    (hedge : v ∈ (graph.neighbors source).keys) (rounds : Nat) : Piled label source v rounds
      ((spreadAll graph label)^[rounds] (plainStart (derivations L) source)) := by
  induction rounds with
  | zero => exact ⟨mem_plainStart.mpr ⟨rfl, rfl⟩, Multiset.zero_le _⟩
  | succ rounds ih =>
    rw [iterate_succ_apply']
    exact ih.round hsource hedge

/-- **Each derivation once**: the lists are sets of derivations exactly where at most one round is
    made, or none finds an edge to follow from the source. -/
theorem listed_once_iff (hbuilt : Built (ProvenanceSemiring L) graph) (h : Labelled graph label)
    (source : ν) :
    (∀ t r, (optimalPaths (ProvenanceSemiring L) graph source).get t = some r →
      r.paths.Nodup ∧ ∀ p ∈ r.paths, ∃ walk, IsWalk graph source walk t ∧
        spelling label source walk = p) ↔
      graph.neighbors source = [] ∨ graph.nodes.length ≤ 2 := by
  have hget := optimalPaths_derivations hbuilt.wf h source
  constructor
  · intro hsets
    by_contra hcond
    obtain ⟨hout, hmany⟩ := not_or.mp hcond
    obtain ⟨e, he⟩ := exists_mem_of_ne_nil _ hout
    have hedge : e.1 ∈ (graph.neighbors source).keys := mem_map_of_mem he
    have htwice := (@piled_rounds _ _ _ _ label _ _ (hbuilt.wf.sources source hout) hedge
      (graph.nodes.length - 1)).2
    have ht := hget e.1
    rw [if_pos (.inr (hbuilt.wf.targets source e.1 hedge)), Option.map_eq_some_iff] at ht
    obtain ⟨r, hr, heq⟩ := ht
    rw [← heq] at htwice
    have hnodup : (r.paths : Multiset (List L)).Nodup := (hsets e.1 r hr).1
    refine Multiset.nodup_iff_le.mp hnodup [label source e.1] (le_trans ?_ htwice)
    exact Multiset.replicate_mono _ (show 2 ≤ graph.nodes.length - 1 by omega)
  · intro hcond t r hr
    have ht := hget t
    rw [hr, Option.map_some] at ht
    split at ht
    · have heq := Option.some.inj ht
      refine ⟨?_, fun p hp => ?_⟩
      · have hstart := (@fresh_start _ _ _ graph label source).nodup t
        rw [← Multiset.coe_nodup, heq]
        rcases hcond with hidle | hfew
        · rw [iterate_fixed (round_idle hidle)]
          exact hstart
        · rcases Nat.le_one_iff_eq_zero_or_eq_one.mp (show graph.nodes.length - 1 ≤ 1 by omega)
            with hnone | hone
          · rw [hnone]
            exact hstart
          · rw [hone]
            exact nodup_round hbuilt.wf h t
      · refine spelt_rounds (graph.nodes.length - 1) t p ?_
        rw [← heq]
        exact hp
    · cases ht

/-- An edge and a third node. -/
def spareNode : WeightedDigraph Nat (Ref Char) :=
  (WeightedDigraph.empty.setEdge 0 1 (.made [['a']])).addNode 2

theorem spareNode_labelled : Built (ProvenanceSemiring Char) spareNode ∧
    Labelled spareNode fun _ _ => 'a' := by
  have hneighbors : ∀ u, spareNode.neighbors u = if u = 0 then [(1, .made [['a']])] else [] := by
    intro u
    match u with
    | 0 | 1 | 2 | u + 3 => rfl
  have hkeys : ∀ u v, v ∈ (spareNode.neighbors u).keys → u = 0 ∧ v = 1 := by
    intro u v hv
    rw [hneighbors] at hv
    split at hv
    · next hu => exact ⟨hu, mem_singleton.mp hv⟩
    · cases hv
  refine ⟨.addNode 2 (.setEdge 0 1 _ .empty), ⟨fun u e he => ?_, fun u v u' v' hv hv' _ => ?_⟩⟩
  · rw [hneighbors] at he
    split at he
    · rw [mem_singleton.mp he]
    · cases he
  · obtain ⟨rfl, rfl⟩ := hkeys u v hv
    obtain ⟨rfl, rfl⟩ := hkeys u' v' hv'
    exact ⟨rfl, rfl⟩

/-- **Listed twice**: the one derivation of the edge's target. -/
theorem listed_twice : Built (ProvenanceSemiring Char) spareNode ∧
    Labelled spareNode (fun _ _ => 'a') ∧
    ∃ r, (optimalPaths (ProvenanceSemiring Char) spareNode 0).get 1 = some r ∧ ¬ r.paths.Nodup :=
  ⟨spareNode_labelled.1, spareNode_labelled.2, _, rfl, by decide⟩

theorem listed_once_iff_spareNode :
    ¬ (∀ t r, (optimalPaths (ProvenanceSemiring Char) spareNode 0).get t = some r →
      r.paths.Nodup ∧ ∀ p ∈ r.paths, ∃ walk, IsWalk spareNode 0 walk t ∧
        spelling (fun _ _ => 'a') 0 walk = p) := by
  rw [listed_once_iff spareNode_labelled.1 spareNode_labelled.2 0]
  decide

end Motebit.Traversal
