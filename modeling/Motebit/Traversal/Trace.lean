/-
  Motebit.Traversal.Trace — THE PATH BEHIND AN OPTIMUM.

  `optimalPathTrace` relaxes as `optimalPaths` does and notes who improved whom.  Where `+`
  selects one of its arguments, an improvement is strict and its weight at most one, so the one
  who improves is never below the one improved: the notes are a forest.  At the end each noted
  edge is tight, so the way up from a node is a walk with its value.

  Main results: `noted_traceRounds`, `optimalPathTrace_spec`, `optimalPathTrace_route`.
-/

import Motebit.Lib.Forest
import Motebit.Traversal.Agreement

namespace Motebit.Traversal

open Motebit.Lib List Function

variable {ν T : Type} [DecidableEq ν]

/-! ## §1. The trace -/

/-- `dist`, `pred` and `changed`. -/
structure TraceState (ν T : Type) where
  dist : JsMap ν T
  pred : JsMap ν (Option ν)
  changed : Bool

section

variable (sr : SemiringOps T) (graph : WeightedDigraph ν T)

/-- One edge of the inner loop, from a node at distance `dNode`. -/
def traceEdge (node : ν) (dNode : T) (st : TraceState ν T) (edge : ν × T) : TraceState ν T :=
  let candidate := sr.mul dNode edge.2
  let current := (st.dist.get edge.1).getD sr.zero
  let combined := sr.add current candidate
  if sr.eq combined current then st
  else ⟨st.dist.set edge.1 combined, st.pred.set edge.1 (some node), true⟩

/-- One node of the loop; a node at zero is skipped. -/
def traceNode (st : TraceState ν T) (node : ν) : TraceState ν T :=
  let dNode := (st.dist.get node).getD sr.zero
  if sr.eq dNode sr.zero then st else (graph.neighbors node).foldl (traceEdge sr node dNode) st

/-- The rounds, to the first that changes nothing. -/
def traceRounds : Nat → TraceState ν T → TraceState ν T
  | 0, st => st
  | rounds + 1, st =>
    let st := graph.nodes.foldl (traceNode sr graph) { st with changed := false }
    if st.changed then traceRounds rounds st else st

/-- Before the rounds. -/
def traceStart (source : ν) : TraceState ν T :=
  ⟨initialDist sr graph source,
    graph.nodes.foldl (fun (pred : JsMap ν (Option ν)) node => pred.set node none) [], false⟩

/-- The reconstruction of the path: up to a node without a note, or one visited. -/
def traceBack (pred : ν → Option ν) : Nat → Option ν → List ν → List ν
  | 0, _, path => path
  | _ + 1, none, path => path
  | fuel + 1, some current, path =>
    if current ∈ path then path else traceBack pred fuel (pred current) (current :: path)

/-- Who improved a node last. -/
def TraceState.parent (st : TraceState ν T) (node : ν) : Option ν := (st.pred.get node).join

def optimalPathTrace [DecidableEq T] (source target : ν) : Option (T × List ν) :=
  let st := traceRounds sr graph (graph.nodes.length - 1) (traceStart sr graph source)
  let value := (st.dist.get target).getD sr.zero
  if value = sr.zero ∧ source ≠ target then none
  else
    -- a visited node ends the walk, so one step for each node and one more are enough
    let path := traceBack st.parent (graph.nodes.length + 2) (some target) []
    if path.head? = some source then some (value, path) else none

end

variable {sr : SemiringOps T} {graph : WeightedDigraph ν T}

/-! ## §2. The distances are those of `optimalPaths` -/

theorem dist_traceEdges (node : ν) (d : T) (edges : List (ν × T)) (st : TraceState ν T) :
    ((edges.foldl (traceEdge sr node d) st).dist, (edges.foldl (traceEdge sr node d) st).changed)
      = edges.foldl (relaxEdge sr d) (st.dist, st.changed) := by
  induction edges generalizing st with
  | nil => rfl
  | cons edge edges ih =>
    rw [foldl_cons, foldl_cons, ih]
    unfold traceEdge relaxEdge
    dsimp only
    split <;> rfl

theorem dist_traceNodes (nodes : List ν) (st : TraceState ν T) :
    ((nodes.foldl (traceNode sr graph) st).dist, (nodes.foldl (traceNode sr graph) st).changed)
      = nodes.foldl (relaxNode sr graph) (st.dist, st.changed) := by
  induction nodes generalizing st with
  | nil => rfl
  | cons node nodes ih =>
    rw [foldl_cons, foldl_cons, ih]
    unfold traceNode relaxNode
    dsimp only
    split
    · rfl
    · rw [dist_traceEdges]

theorem dist_traceRounds (rounds : Nat) (st : TraceState ν T) :
    (traceRounds sr graph rounds st).dist = relaxRounds sr graph rounds st.dist := by
  induction rounds generalizing st with
  | zero => rfl
  | succ rounds ih =>
    have hround := @dist_traceNodes _ _ _ sr graph graph.nodes { st with changed := false }
    unfold traceRounds relaxRounds relaxAll
    rw [← hround]
    dsimp only
    split
    · exact ih _
    · rfl

/-! ## §3. The notes are a forest -/

/-- The semirings whose `+` selects: `a ≤ b` is `a + b = b`, and nothing is above one. -/
structure SemiringOps.Selective (sr : SemiringOps T) : Prop extends sr.Lawful where
  one_add : ∀ a, sr.add sr.one a = sr.one
  selects : ∀ a b, sr.add a b = a ∨ sr.add a b = b
  eq_complete : ∀ a, sr.eq a a = true

def SemiringOps.Le (sr : SemiringOps T) (a b : T) : Prop := sr.add a b = b

namespace SemiringOps.Selective

section

variable (h : sr.Selective)
include h

theorem le_refl (a : T) : sr.Le a a := (h.selects a a).elim id id

theorem le_trans {a b c : T} (hab : sr.Le a b) (hbc : sr.Le b c) : sr.Le a c := by
  unfold SemiringOps.Le at hab hbc ⊢
  rw [← hbc, ← h.add_assoc, hab]

theorem le_antisymm {a b : T} (hab : sr.Le a b) (hba : sr.Le b a) : a = b := by
  rw [← hba, h.add_comm, hab]

theorem le_add_right (a b : T) : sr.Le a (sr.add a b) := by
  unfold SemiringOps.Le
  rw [← h.add_assoc, h.le_refl a]

theorem mul_le_mul {a b : T} (hab : sr.Le a b) (c : T) : sr.Le (sr.mul a c) (sr.mul b c) := by
  unfold SemiringOps.Le at hab ⊢
  rw [← h.add_mul, hab]

theorem mul_le_left (a b : T) : sr.Le (sr.mul a b) a := by
  have hone : sr.add b sr.one = sr.one := by rw [h.add_comm, h.one_add]
  calc sr.add (sr.mul a b) a = sr.add (sr.mul a b) (sr.mul a sr.one) := by rw [h.mul_one]
    _ = sr.mul a (sr.add b sr.one) := (h.mul_add a b sr.one).symm
    _ = a := by rw [hone, h.mul_one]

end

end SemiringOps.Selective

/-- The distance of a node, zero where there is none. -/
def TraceState.at (sr : SemiringOps T) (st : TraceState ν T) (node : ν) : T :=
  (st.dist.get node).getD sr.zero

/-- What the rounds keep: the source stands at one, who improved a node still gives it as much,
and the notes are a forest. -/
structure Noted (sr : SemiringOps T) (graph : WeightedDigraph ν T) (source : ν)
    (st : TraceState ν T) : Prop where
  source_one : st.at sr source = sr.one
  source_none : st.parent source = none
  noted : ∀ u v, st.parent v = some u →
    ∃ w, (v, w) ∈ graph.neighbors u ∧ sr.Le (st.at sr v) (sr.mul (st.at sr u) w)
  unnoted : ∀ v, st.parent v = none → v ≠ source → st.at sr v = sr.zero
  forest : Forest st.parent

variable {source : ν} {st : TraceState ν T}

section

variable (hsr : sr.Selective)
include hsr

theorem Noted.le_above (h : Noted sr graph source st) {a b : ν}
    (hab : Relation.ReflTransGen (ParentOf st.parent) a b) : sr.Le (st.at sr b) (st.at sr a) := by
  induction hab with
  | refl => exact hsr.le_refl _
  | tail _ hparent ih =>
    obtain ⟨w, -, hle⟩ := h.noted _ _ hparent
    exact hsr.le_trans hle (hsr.le_trans (hsr.mul_le_left _ w) ih)

theorem traceEdge_cases (node : ν) (d : T) (st : TraceState ν T)
    (edge : ν × T) : traceEdge sr node d st edge = st ∨
      (sr.add (st.at sr edge.1) (sr.mul d edge.2) ≠ st.at sr edge.1 ∧
        (∀ v, (traceEdge sr node d st edge).at sr v =
          if v = edge.1 then sr.add (st.at sr edge.1) (sr.mul d edge.2) else st.at sr v) ∧
        (traceEdge sr node d st edge).parent = Function.update st.parent edge.1 (some node)) := by
  unfold traceEdge
  dsimp only
  split
  · exact .inl rfl
  next hne =>
  refine .inr ⟨?_, ?_, ?_⟩
  · intro heq
    unfold TraceState.at at heq
    rw [heq] at hne
    exact hne (hsr.eq_complete _)
  · intro v
    unfold TraceState.at
    rw [JsMap.get_set]
    split <;> rfl
  · funext v
    unfold TraceState.parent
    rw [JsMap.get_set, update_apply]
    split <;> rfl

theorem Noted.traceEdge (h : Noted sr graph source st) {node : ν} {d : T}
    (hd : sr.Le d (st.at sr node)) {edge : ν × T} (hedge : edge ∈ graph.neighbors node) :
    Noted sr graph source (traceEdge sr node d st edge) ∧
      sr.Le d ((Traversal.traceEdge sr node d st edge).at sr node) := by
  rcases traceEdge_cases hsr node d st edge with hsame | ⟨hchanged, hat, hparent⟩
  · rw [hsame]
    exact ⟨h, hd⟩
  generalize Traversal.traceEdge sr node d st edge = st' at hat hparent
  have hcandidate : sr.add (st.at sr edge.1) (sr.mul d edge.2) = sr.mul d edge.2 :=
    (hsr.selects _ _).resolve_left hchanged
  -- who improves is not below the improved, for it is above in distance
  have hnot : ¬ Relation.ReflTransGen (ParentOf st.parent) edge.1 node := by
    intro habove
    apply hchanged
    rw [hsr.add_comm]
    exact hsr.le_trans (hsr.mul_le_left d edge.2) (hsr.le_trans hd (h.le_above hsr habove))
  have hnotSource : source ≠ edge.1 := by
    intro heq
    apply hchanged
    rw [← heq, h.source_one, hsr.one_add]
  have hgrows : ∀ v, sr.Le (st.at sr v) (st'.at sr v) := by
    intro v
    rw [hat]
    split
    · next hv =>
      rw [hv]
      exact hsr.le_add_right _ _
    · exact hsr.le_refl _
  refine ⟨⟨?_, ?_, ?_, ?_, ?_⟩, hsr.le_trans hd (hgrows node)⟩
  · rw [hat, if_neg hnotSource, h.source_one]
  · rw [hparent, update_of_ne hnotSource, h.source_none]
  · intro u v huv
    rw [hparent] at huv
    by_cases hv : v = edge.1
    · rw [hv, update_self] at huv
      cases huv
      refine ⟨edge.2, by rw [hv]; exact hedge, ?_⟩
      rw [hat, if_pos hv, hcandidate]
      exact hsr.mul_le_mul (hsr.le_trans hd (hgrows node)) edge.2
    · rw [update_of_ne hv] at huv
      obtain ⟨w, hw, hle⟩ := h.noted u v huv
      rw [hat v, if_neg hv]
      exact ⟨w, hw, hsr.le_trans hle (hsr.mul_le_mul (hgrows u) w)⟩
  · intro v hv hne
    rw [hparent] at hv
    have hvne : v ≠ edge.1 := by
      intro heq
      rw [heq, update_self] at hv
      cases hv
    rw [update_of_ne hvne] at hv
    rw [hat, if_neg hvne, h.unnoted v hv hne]
  · rw [hparent]
    exact h.forest.update hnot

theorem Noted.traceNode (h : Noted sr graph source st) (node : ν) :
    Noted sr graph source (traceNode sr graph st node) := by
  have hedges : ∀ (edges : List (ν × T)) (d : T), edges ⊆ graph.neighbors node →
      ∀ st : TraceState ν T, Noted sr graph source st → sr.Le d (st.at sr node) →
        Noted sr graph source (edges.foldl (Traversal.traceEdge sr node d) st) := by
    intro edges d
    induction edges with
    | nil => exact fun _ _ hst _ => hst
    | cons edge edges ih =>
      intro hsub st hst hd
      rw [cons_subset] at hsub
      obtain ⟨hnext, hle⟩ := hst.traceEdge hsr hd hsub.1
      exact ih hsub.2 _ hnext hle
  unfold Traversal.traceNode
  dsimp only
  split
  · exact h
  · exact hedges _ _ (fun _ he => he) st h (hsr.le_refl _)

/-- **What the rounds keep** of the notes. -/
theorem noted_traceRounds (h : Noted sr graph source st) (rounds : Nat) :
    Noted sr graph source (traceRounds sr graph rounds st) := by
  induction rounds generalizing st with
  | zero => exact h
  | succ rounds ih =>
    have hnodes : ∀ (nodes : List ν) (st : TraceState ν T), Noted sr graph source st →
        Noted sr graph source (nodes.foldl (Traversal.traceNode sr graph) st) := by
      intro nodes
      induction nodes with
      | nil => exact fun _ hst => hst
      | cons node nodes ih => exact fun st hst => ih _ (hst.traceNode hsr node)
    have hround := hnodes graph.nodes { st with changed := false }
      { h with }
    unfold traceRounds
    dsimp only
    split
    · exact ih hround
    · exact hround

end

theorem noted_traceStart (hsr : sr.Selective) (source : ν) :
    Noted sr graph source (traceStart sr graph source) := by
  have hnone : (traceStart sr graph source).parent = fun _ => none := by
    funext v
    unfold TraceState.parent traceStart
    rw [JsMap.get_foldl_set]
    split <;> rfl
  have hat : ∀ v, (traceStart sr graph source).at sr v =
      Function.update (fun _ => sr.zero) source sr.one v := by
    intro v
    have hinit := congrFun (@shown_initialDist ν T T _ sr sr id graph hsr.toLawful.shows source) v
    exact hinit
  refine ⟨?_, ?_, ?_, ?_, ?_⟩
  · rw [hat, update_self]
  · rw [hnone]
  · intro u v huv
    rw [hnone] at huv
    cases huv
  · intro v _ hne
    rw [hat, update_of_ne hne]
  · rw [hnone]
    exact forest_none

/-! ## §4. At the end each noted edge is tight -/

variable {walk : List ν}

theorem walkProduct_append (hlaws : sr.Lawful) {s u v : ν}
    (h : IsWalk graph s walk u) : walkProduct sr graph s (walk ++ [v]) =
      sr.mul (walkProduct sr graph s walk) (graph.getEdge sr u v) := by
  induction walk generalizing s with
  | nil =>
    have hsu : s = u := h
    rw [hsu]
    exact (hlaws.mul_one _).trans (hlaws.one_mul _).symm
  | cons next rest ih =>
    show sr.mul _ (walkProduct sr graph next (rest ++ [v])) = sr.mul (sr.mul _ _) _
    rw [ih h.2, hlaws.mul_assoc]

theorem isWalk_append {s u v : ν} (h : IsWalk graph s walk u)
    (hv : v ∈ (graph.neighbors u).keys) : IsWalk graph s (walk ++ [v]) v := by
  induction walk generalizing s with
  | nil =>
    have hsu : s = u := h
    rw [hsu]
    exact ⟨hv, rfl⟩
  | cons next rest ih => exact ⟨h.1, ih h.2⟩

theorem mem_nodes_of_isWalk (hwf : graph.Wf) {s t : ν} (h : IsWalk graph s walk t) :
    ∀ v ∈ walk, v ∈ graph.nodes := by
  induction walk generalizing s with
  | nil => exact fun v hv => by cases hv
  | cons next rest ih =>
    intro v hv
    rcases mem_cons.mp hv with rfl | hin
    · exact hwf.targets s v h.1
    · exact ih h.2 v hin

section

variable (hsr : sr.Selective) (hbuilt : Built sr graph) (hsource : source ∈ graph.nodes)

def optimum (sr : SemiringOps T) (graph : WeightedDigraph ν T) (source node : ν) : T :=
  ((optimalPaths sr graph source).get node).getD sr.zero

include hsr hbuilt hsource

theorem walkProduct_le {t : ν} (ht : t ∈ graph.nodes) (h : IsWalk graph source walk t) :
    sr.Le (walkProduct sr graph source walk) (optimum sr graph source t) := by
  obtain ⟨-, hsums, -⟩ := traversals_agree hsr.toLawful hsr.one_add hbuilt hsource t
  obtain ⟨x, hx, enough, henough, hall⟩ := hsums ht
  have hmore := hall (walk :: enough) (subset_cons_self _ _) (by
    rw [forall_mem_cons]
    exact ⟨h, henough⟩)
  have hless := hall enough (List.Subset.refl _) henough
  unfold optimum SemiringOps.Le
  rw [hx, Option.getD_some, ← hless]
  rwa [← hless] at hmore

theorem exists_walk_of_optimum (t : ν) : optimum sr graph source t = sr.zero ∨
    t ∈ graph.nodes ∧ ∃ walk, IsWalk graph source walk t ∧
      walkProduct sr graph source walk = optimum sr graph source t := by
  obtain ⟨-, hsums, hnone⟩ := traversals_agree hsr.toLawful hsr.one_add hbuilt hsource t
  by_cases ht : t ∈ graph.nodes
  · obtain ⟨x, hx, enough, henough, hall⟩ := hsums ht
    have hsum := hall enough (List.Subset.refl _) henough
    have hselect : ∀ walks : List (List ν), sumOver sr graph source walks = sr.zero ∨
        ∃ walk ∈ walks, walkProduct sr graph source walk = sumOver sr graph source walks := by
      intro walks
      induction walks with
      | nil => exact .inl rfl
      | cons walk walks ih =>
        have hcons : sumOver sr graph source (walk :: walks) =
            sr.add (walkProduct sr graph source walk) (sumOver sr graph source walks) := rfl
        rcases hsr.selects (walkProduct sr graph source walk) (sumOver sr graph source walks)
          with hleft | hright
        · rw [hcons, hleft]
          exact .inr ⟨walk, mem_cons_self, rfl⟩
        · rw [hcons, hright]
          rcases ih with hzero | ⟨w, hw, heq⟩
          · exact .inl hzero
          · exact .inr ⟨w, mem_cons_of_mem walk hw, heq⟩
    unfold optimum
    rw [hx, Option.getD_some, ← hsum]
    rcases hselect enough with hzero | ⟨walk, hwalk, heq⟩
    · exact .inl hzero
    · exact .inr ⟨ht, walk, henough walk hwalk, heq⟩
  · unfold optimum
    rw [hnone ht]
    exact .inl rfl

theorem optimum_edge {u v : ν} {w : T} (h : (v, w) ∈ graph.neighbors u) :
    sr.Le (sr.mul (optimum sr graph source u) w) (optimum sr graph source v) := by
  have hv : v ∈ (graph.neighbors u).keys := mem_map_of_mem h
  rcases exists_walk_of_optimum hsr hbuilt hsource u with hzero | ⟨-, walk, hwalk, heq⟩
  · unfold SemiringOps.Le
    rw [hzero, hsr.zero_mul, hsr.zero_add]
  · have hle := walkProduct_le hsr hbuilt hsource (hbuilt.wf.targets u v hv) (isWalk_append hwalk hv)
    rwa [walkProduct_append hsr.toLawful hwalk, heq, getEdge_of_mem hbuilt.wf h] at hle

omit hsr hbuilt hsource in
theorem at_traceRounds (v : ν) : (traceRounds sr graph (graph.nodes.length - 1)
    (traceStart sr graph source)).at sr v = optimum sr graph source v := by
  unfold TraceState.at optimum optimalPaths
  rw [dist_traceRounds]
  rfl

theorem walk_of_trail {v : ν} {p : List ν} (h : Trail (traceRounds sr graph (graph.nodes.length - 1)
      (traceStart sr graph source)).parent v p)
    (hv : optimum sr graph source v ≠ sr.zero ∨ v = source) :
    ∃ walk, p = source :: walk ∧ IsWalk graph source walk v ∧
      walkProduct sr graph source walk = optimum sr graph source v := by
  have hnoted := noted_traceRounds hsr (@noted_traceStart _ _ _ _ graph hsr source)
    (graph.nodes.length - 1)
  have hat := @at_traceRounds _ _ _ sr graph source
  generalize traceRounds sr graph (graph.nodes.length - 1) (traceStart sr graph source) = st
    at h hnoted hat
  induction h with
  | @root v hroot =>
    have hvs : v = source := by
      by_contra hne
      have hzero := hnoted.unnoted v hroot hne
      rw [hat] at hzero
      exact hv.elim (fun h => h hzero) hne
    rw [hvs]
    exact ⟨[], rfl, rfl, by rw [← hat, hnoted.source_one]; rfl⟩
  | @step u v p hparent _ ih =>
    obtain ⟨w, hw, hle⟩ := hnoted.noted u v hparent
    rw [hat, hat] at hle
    have hvs : v ≠ source := by
      rintro rfl
      rw [hnoted.source_none] at hparent
      cases hparent
    have htight : optimum sr graph source v = sr.mul (optimum sr graph source u) w :=
      hsr.le_antisymm hle (optimum_edge hsr hbuilt hsource hw)
    have hu : optimum sr graph source u ≠ sr.zero := by
      intro hzero
      rw [hzero, hsr.zero_mul] at htight
      exact hv.elim (fun h => h htight) hvs
    obtain ⟨walk, rfl, hwalk, heq⟩ := ih (.inl hu)
    refine ⟨walk ++ [v], rfl, isWalk_append hwalk (mem_map_of_mem hw), ?_⟩
    rw [walkProduct_append hsr.toLawful hwalk, heq, getEdge_of_mem hbuilt.wf hw, htight]

omit [DecidableEq ν] hsr hbuilt hsource in
theorem traceBack_eq [DecidableEq ν] {parent : ν → Option ν} (hforest : Forest parent) {v : ν}
    {p : List ν} (h : Trail parent v p) {fuel : Nat} (hfuel : p.length < fuel) {path : List ν}
    (hpath : ∀ x ∈ p, x ∉ path) : traceBack parent fuel (some v) path = p ++ path := by
  induction h generalizing fuel path with
  | root hroot =>
    rw [length_singleton] at hfuel
    obtain ⟨fuel, rfl⟩ : ∃ n, fuel = n + 2 := ⟨fuel - 2, by omega⟩
    rw [traceBack, if_neg (hpath _ mem_cons_self), hroot]
    rfl
  | @step u v p hparent hup ih =>
    have hnodup := (Trail.step hparent hup).nodup hforest
    rw [length_append, length_singleton] at hfuel
    obtain ⟨fuel, rfl⟩ : ∃ n, fuel = n + 1 := ⟨fuel - 1, by omega⟩
    rw [traceBack, if_neg (hpath v (by simp)), hparent, ih (by omega), append_assoc]
    · rfl
    · intro x hx hin
      rcases mem_cons.mp hin with rfl | hin
      · rw [nodup_append] at hnodup
        exact hnodup.2.2 x hx x (mem_singleton_self x) rfl
      · exact hpath x (mem_append_left _ hx) hin

/-- **The trace**: there is none exactly where there is no value, and it is a walk of the
optimum's weight that repeats no node. -/
theorem optimalPathTrace_spec [DecidableEq T] (target : ν) :
    (optimalPathTrace sr graph source target = none ↔
      optimum sr graph source target = sr.zero ∧ source ≠ target) ∧
    ∀ value path, optimalPathTrace sr graph source target = some (value, path) →
      value = optimum sr graph source target ∧ path.Nodup ∧
        ∃ walk, path = source :: walk ∧ IsWalk graph source walk target ∧
          walkProduct sr graph source walk = value := by
  have hnoted := noted_traceRounds hsr (@noted_traceStart _ _ _ _ graph hsr source)
    (graph.nodes.length - 1)
  obtain ⟨p, htrail⟩ := hnoted.forest.trail target
  have hvalue := @at_traceRounds _ _ _ sr graph source target
  unfold TraceState.at at hvalue
  unfold optimalPathTrace
  dsimp only
  rw [hvalue]
  by_cases hzero : optimum sr graph source target = sr.zero ∧ source ≠ target
  · rw [if_pos hzero]
    exact ⟨⟨fun _ => hzero, fun _ => rfl⟩, nofun⟩
  · have hlive : optimum sr graph source target ≠ sr.zero ∨ target = source := by
      by_contra hnot
      rw [not_or, not_not] at hnot
      exact hzero ⟨hnot.1, fun h => hnot.2 h.symm⟩
    obtain ⟨walk, rfl, hwalk, hproduct⟩ := walk_of_trail hsr hbuilt hsource htrail hlive
    have hnodup := htrail.nodup hnoted.forest
    have hlength : (source :: walk).length ≤ graph.nodes.length := by
      apply hnodup.length_le_of_subset
      rw [cons_subset]
      exact ⟨hsource, mem_nodes_of_isWalk hbuilt.wf hwalk⟩
    rw [if_neg hzero, traceBack_eq hnoted.forest htrail (by omega) (fun _ _ => not_mem_nil),
      append_nil, head?_cons, if_pos rfl]
    refine ⟨⟨fun h => (nomatch h), fun h => absurd h hzero⟩, ?_⟩
    intro value path h
    cases h
    exact ⟨rfl, hnodup, walk, rfl, hwalk, hproduct⟩

end

/-! ## §5. The route -/

def optimalPath (sr : SemiringOps T) (graph : WeightedDigraph ν T) (source target : ν) : T :=
  ((optimalPaths sr graph source).get target).getD sr.zero

theorem IsWalk.getLast? {s t : ν} (h : IsWalk graph s walk t) : (s :: walk).getLast? = some t := by
  induction walk generalizing s with
  | nil => exact congrArg some h
  | cons next rest ih =>
    exact ih h.2

/-- **The trace is a real optimal route.** -/
theorem optimalPathTrace_route [DecidableEq T] (hsr : sr.Selective) (hbuilt : Built sr graph)
    (hsource : source ∈ graph.nodes) (target : ν) :
    (optimalPathTrace sr graph source target = none ↔
      target ≠ source ∧ optimalPath sr graph source target = sr.zero) ∧
    ∀ value path, optimalPathTrace sr graph source target = some (value, path) →
      value = optimalPath sr graph source target ∧ path.head? = some source ∧
        path.getLast? = some target ∧ path.Nodup ∧
        ∃ walk, path = source :: walk ∧ IsWalk graph source walk target ∧
          walkProduct sr graph source walk = value := by
  obtain ⟨hnone, hspec⟩ := optimalPathTrace_spec hsr hbuilt hsource target
  refine ⟨hnone.trans ?_, fun value path hsome => ?_⟩
  · rw [and_comm, ne_comm]
    rfl
  · obtain ⟨hvalue, hnodup, walk, rfl, hwalk, hproduct⟩ := hspec value path hsome
    exact ⟨hvalue, rfl, hwalk.getLast?, hnodup, walk, rfl, hwalk, hproduct⟩

theorem costSemiring_selective : CostSemiring.Selective where
  toLawful := costSemiring_lawful
  one_add := costSemiring_one_add
  selects a b := by
    cases a <;> cases b <;> simp [CostSemiring, Nat.le_total]
  eq_complete _ := beq_self_eq_true _

theorem optimalPathTrace_route_triangle :
    optimalPathTrace CostSemiring triangle 0 2 = some (some 3, [0, 1, 2]) ∧
      optimalPath CostSemiring triangle 0 2 = some 3 := by
  have hbuilt : Built CostSemiring triangle :=
    .addEdge _ _ _ (.addEdge _ _ _ (.addEdge _ _ _ (.addEdge _ _ _ (.addEdge _ _ _ .empty))))
  have htrace : optimalPathTrace CostSemiring triangle 0 2 = some (some 3, [0, 1, 2]) := by decide
  obtain ⟨-, hroute⟩ :=
    optimalPathTrace_route costSemiring_selective hbuilt (by decide : 0 ∈ triangle.nodes) 2
  exact ⟨htrace, (hroute _ _ htrace).1.symm⟩

end Motebit.Traversal
