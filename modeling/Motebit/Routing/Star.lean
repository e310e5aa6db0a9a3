/-
  Motebit.Routing.Star — RANKING OVER A STAR.

  From the centre of a star each other node is reached by its own edge and no other way.  So the
  frontier of a node is that edge, and which agents are ranked, with which scores, is read off
  the row of the centre.

  Main results: `get_optimalPaths_fan`, `mem_rankReachableAgents_star`.
-/

import Motebit.Routing.Selection
import Motebit.Traversal.Rounds

namespace Motebit.Routing

open Motebit.Lib Motebit.Lib.Json Motebit.Traversal List WeightedDigraph

/-! ## §1. Stars -/

section

variable {ν T : Type} [DecidableEq ν]

def fan (root : ν) (ids : List ν) (row : JsMap ν T) : WeightedDigraph ν T :=
  ⟨root :: ids, (root, row) :: ids.map fun id => (id, [])⟩

variable {root id : ν} {ids : List ν} {row : JsMap ν T}

theorem get_fan_adj (id : ν) : (fan root ids row).adj.get id
    = if id = root then some row else if id ∈ ids then some [] else none := by
  have hothers : ∀ ids : List ν, JsMap.get (ids.map fun id => (id, ([] : JsMap ν T))) id
      = if id ∈ ids then some [] else none := by
    intro ids
    induction ids with
    | nil => rfl
    | cons a ids ih =>
      unfold JsMap.get at ih ⊢
      rw [map_cons, find?_cons]
      by_cases ha : a = id
      · subst ha
        simp
      · have hbeq : (a == id) = false := by simpa using ha
        rw [hbeq]
        rw [ih]
        simp [Ne.symm ha]
  unfold fan JsMap.get
  rw [find?_cons]
  by_cases hroot : id = root
  · subst hroot
    simp
  · have hbeq : (root == id) = false := by simpa using Ne.symm hroot
    rw [hbeq, if_neg hroot]
    exact hothers ids

theorem neighbors_fan_root : (fan root ids row).neighbors root = row := by
  unfold neighbors
  rw [get_fan_adj, if_pos rfl]
  rfl

theorem neighbors_fan (h : id ≠ root) : (fan root ids row).neighbors id = [] := by
  unfold neighbors
  rw [get_fan_adj, if_neg h]
  split <;> rfl

theorem addNode_fan (h : id ≠ root) : (fan root ids row).addNode id
    = fan root (if id ∈ ids then ids else ids ++ [id]) row := by
  have hget := @get_fan_adj ν T _ root ids row id
  rw [if_neg h] at hget
  unfold addNode
  rw [hget]
  by_cases hmem : id ∈ ids
  · have hnodes : id ∈ (fan root ids row).nodes := mem_cons_of_mem _ hmem
    rw [if_pos hmem, if_pos hmem, if_pos hnodes]
    rfl
  · have hnodes : id ∉ (fan root ids row).nodes := by
      intro hin
      rcases mem_cons.mp hin with hroot | hin
      · exact h hroot
      · exact hmem hin
    have hset : (fan root ids row).adj.set id [] = (fan root ids row).adj ++ [(id, [])] := by
      apply upsertBy_of_fresh
      intro e he
      rcases mem_cons.mp he with rfl | he
      · exact Ne.symm h
      · obtain ⟨a, ha, rfl⟩ := mem_map.mp he
        rintro rfl
        exact hmem ha
    rw [if_neg hmem, if_neg hmem, if_neg hnodes, if_neg (by simp), hset]
    unfold fan
    simp

theorem addNode_fan_root : (fan root ids row).addNode root = fan root ids row := by
  have hnodes : root ∈ (fan root ids row).nodes := mem_cons_self
  unfold addNode
  rw [get_fan_adj, if_pos rfl, if_pos hnodes]
  rfl

theorem setEdge_fan (h : id ≠ root) (hroot : root ∉ ids) (weight : T) :
    (fan root ids row).setEdge root id weight
      = fan root (if id ∈ ids then ids else ids ++ [id]) (row.set id weight) := by
  have hrow : ∀ (ids : List ν) (row' : JsMap ν T), root ∉ ids →
      (fan root ids row).adj.set root row' = (fan root ids row').adj := by
    intro ids row' hroot
    have hrest : updateWhere (fun e : ν × JsMap ν T => e.1 == root) (fun _ => (root, row'))
        (ids.map fun id => (id, [])) = ids.map fun id => (id, []) := by
      apply updateWhere_of_none
      intro e he
      obtain ⟨a, ha, rfl⟩ := mem_map.mp he
      have hne : a ≠ root := by
        rintro rfl
        exact hroot ha
      simpa using hne
    unfold JsMap.set upsertBy fan
    rw [if_pos (by simp), updateWhere_cons, hrest]
    simp
  unfold setEdge
  rw [addNode_fan_root, addNode_fan h]
  have hnew : root ∉ (if id ∈ ids then ids else ids ++ [id]) := by
    split
    · exact hroot
    · rw [mem_append, mem_singleton]
      rintro (hin | heq)
      · exact hroot hin
      · exact h heq.symm
  dsimp only
  rw [neighbors_fan_root, hrow _ _ hnew]
  rfl

/-! ## §2. One round settles a star -/

variable {sr : SemiringOps T}

/-- The value of a node of a star: its edge, from the centre. -/
def throughEdge (sr : SemiringOps T) (weight : T) : T :=
  sr.add sr.zero (sr.mul sr.one weight)

/-- What a star's weights need of the comparison: a value is seen to be new at first, and not
    again. -/
structure Settles (sr : SemiringOps T) (row : JsMap ν T) : Prop where
  one : sr.eq sr.one sr.zero = false
  fresh : ∀ e ∈ row, sr.eq (throughEdge sr e.2) sr.zero = false
  again : ∀ e ∈ row, sr.eq (sr.add (throughEdge sr e.2) (sr.mul sr.one e.2))
    (throughEdge sr e.2) = true

/-- Distances before a round: the centre at one, each other node untouched or settled. -/
structure Unsettled (sr : SemiringOps T) (root : ν) (row : JsMap ν T) (dist : JsMap ν T) : Prop where
  root : dist.get root = some sr.one
  others : ∀ e ∈ row, dist.get e.1 = some sr.zero ∨ dist.get e.1 = some (throughEdge sr e.2)

variable {st : JsMap ν T × Bool}

theorem get_relaxEdge (h : Settles sr row) {e : ν × T} (he : e ∈ row)
    (hst : st.1.get e.1 = some sr.zero ∨ st.1.get e.1 = some (throughEdge sr e.2)) (id : ν) :
    (relaxEdge sr sr.one st e).1.get id
      = if id = e.1 then some (throughEdge sr e.2) else st.1.get id := by
  unfold relaxEdge
  dsimp only
  rcases hst with hzero | hsettled
  · rw [hzero, Option.getD_some]
    have hfresh := h.fresh e he
    unfold throughEdge at hfresh
    rw [hfresh, if_neg Bool.false_ne_true, JsMap.get_set]
    rfl
  · rw [hsettled, Option.getD_some, h.again e he, if_pos rfl]
    split
    · next heq => rw [heq, hsettled]
    · rfl

theorem get_relaxEdges (h : Settles sr row) {edges : List (ν × T)} (hsub : edges ⊆ row)
    (hkeys : JsMap.keys edges |>.Nodup)
    (hst : ∀ e ∈ edges, st.1.get e.1 = some sr.zero ∨ st.1.get e.1 = some (throughEdge sr e.2))
    (id : ν) : (edges.foldl (relaxEdge sr sr.one) st).1.get id
      = ((JsMap.get edges id).map (throughEdge sr)).or (st.1.get id) := by
  induction edges generalizing st with
  | nil => rfl
  | cons e edges ih =>
    have hstep := get_relaxEdge h (hsub mem_cons_self) (hst e mem_cons_self)
    obtain ⟨hnotin, hkeys⟩ := nodup_cons.mp hkeys
    rw [foldl_cons, ih (fun a ha => hsub (mem_cons_of_mem _ ha)) hkeys ?_, hstep]
    · unfold JsMap.get
      rw [find?_cons]
      by_cases heq : id = e.1
      · have hnone : edges.find? (fun a => a.1 == id) = none := by
          rw [find?_eq_none]
          intro a ha hkey
          rw [← eq_of_beq hkey] at heq
          exact hnotin (heq ▸ mem_map_of_mem ha)
        rw [hnone, if_pos heq, beq_iff_eq.mpr heq.symm]
        rfl
      · have hbeq : (e.1 == id) = false := by simpa using Ne.symm heq
        rw [if_neg heq, hbeq]
    · intro a ha
      have hne : a.1 ≠ e.1 := by
        intro heq
        exact hnotin (heq ▸ mem_map_of_mem ha)
      rw [hstep, if_neg hne]
      exact hst a (mem_cons_of_mem _ ha)

variable {dist : JsMap ν T}

theorem relaxAll_fan (hroot : root ∉ ids) (h : Settles sr row)
    (hdist : dist.get root = some sr.one) :
    relaxAll sr (fan root ids row) dist = row.foldl (relaxEdge sr sr.one) (dist, false) := by
  have hothers : ∀ (others : List ν) (st : JsMap ν T × Bool), root ∉ others →
      others.foldl (relaxNode sr (fan root ids row)) st = st := by
    intro others
    induction others with
    | nil => exact fun _ _ => rfl
    | cons id others ih =>
      intro st hnotin
      obtain ⟨hne, hnotin⟩ := not_or.mp (mem_cons.not.mp hnotin)
      have hone : relaxNode sr (fan root ids row) st id = st := by
        unfold relaxNode
        rw [neighbors_fan (Ne.symm hne)]
        dsimp only
        split <;> rfl
      rw [foldl_cons, hone]
      exact ih st hnotin
  show (root :: ids).foldl (relaxNode sr (fan root ids row)) (dist, false) = _
  rw [foldl_cons, hothers ids _ hroot]
  unfold relaxNode
  dsimp only
  rw [hdist, Option.getD_some, h.one, if_neg Bool.false_ne_true, neighbors_fan_root]

theorem get_relaxRounds_fan (hroot : root ∉ ids) (hrow : root ∉ row.keys) (hkeys : row.keys.Nodup)
    (h : Settles sr row) (rounds : Nat) (hdist : Unsettled sr root row dist)
    (id : ν) : (relaxRounds sr (fan root ids row) (rounds + 1) dist).get id
      = ((row.get id).map (throughEdge sr)).or (dist.get id) := by
  have hround : ∀ {dist : JsMap ν T}, Unsettled sr root row dist → ∀ id,
      (relaxAll sr (fan root ids row) dist).1.get id
        = ((row.get id).map (throughEdge sr)).or (dist.get id) := by
    intro dist hdist id
    rw [relaxAll_fan hroot h hdist.root]
    exact get_relaxEdges h (List.Subset.refl row) hkeys hdist.others id
  have hafter : ∀ {dist : JsMap ν T}, Unsettled sr root row dist →
      Unsettled sr root row (relaxAll sr (fan root ids row) dist).1 := by
    intro dist hdist
    constructor
    · have hnone : row.get root = none := by
        rw [← Option.isNone_iff_eq_none, ← Option.isSome_eq_false_iff, ← Bool.not_eq_true,
          JsMap.get_isSome]
        exact hrow
      rw [hround hdist, hnone]
      exact hdist.root
    · intro e he
      rw [hround hdist, (JsMap.get_eq_some hkeys).mpr he]
      exact .inr rfl
  induction rounds generalizing dist with
  | zero =>
    show (relaxRounds sr (fan root ids row) 1 dist).get id = _
    unfold relaxRounds
    dsimp only
    split <;> exact hround hdist id
  | succ rounds ih =>
    unfold relaxRounds
    dsimp only
    split
    · rw [ih (hafter hdist), hround hdist]
      cases row.get id <;> rfl
    · exact hround hdist id

/-- **One round settles a star**: each node has the value of its edge. -/
theorem get_optimalPaths_fan (hroot : root ∉ ids) (hids : ∀ id, id ∈ ids ↔ id ∈ row.keys)
    (hkeys : row.keys.Nodup) (h : Settles sr row) (hid : id ≠ root) :
    (optimalPaths sr (fan root ids row) root).get id = (row.get id).map (throughEdge sr) := by
  have hrow : root ∉ row.keys := fun hin => hroot ((hids root).mpr hin)
  have hinitial : ∀ id, (initialDist sr (fan root ids row) root).get id
      = if id = root then some sr.one else if id ∈ ids then some sr.zero else none := by
    intro id
    unfold initialDist
    rw [JsMap.get_set]
    split
    · rfl
    next hne =>
    rw [JsMap.get_foldl_set _ (fun _ => sr.zero)]
    show (if id ∈ root :: ids then some sr.zero else none) = _
    simp [hne]
  have hunsettled : Unsettled sr root row (initialDist sr (fan root ids row) root) := by
    refine ⟨by rw [hinitial, if_pos rfl], fun e he => ?_⟩
    have hin : e.1 ∈ ids := (hids e.1).mpr (mem_map_of_mem he)
    have hne : e.1 ≠ root := by
      intro heq
      exact hroot (heq ▸ hin)
    rw [hinitial, if_neg hne, if_pos hin]
    exact .inl rfl
  have hnone : id ∉ ids → row.get id = none := by
    intro hmem
    rw [← Option.isNone_iff_eq_none, ← Option.isSome_eq_false_iff, ← Bool.not_eq_true,
      JsMap.get_isSome, ← hids]
    exact hmem
  have hlength : (fan root ids row).nodes.length - 1 = ids.length := rfl
  unfold optimalPaths
  rw [hlength]
  cases ids with
  | nil =>
    show (initialDist sr (fan root [] row) root).get id = _
    rw [hinitial, if_neg hid, if_neg not_mem_nil, hnone not_mem_nil]
    rfl
  | cons a ids =>
    rw [length_cons, get_relaxRounds_fan hroot hrow hkeys h _ hunsettled, hinitial, if_neg hid]
    by_cases hmem : id ∈ a :: ids
    · obtain ⟨weight, hweight⟩ :=
        Option.isSome_iff_exists.mp (JsMap.get_isSome.mpr ((hids id).mp hmem))
      rw [hweight]
      rfl
    · rw [hnone hmem, if_neg hmem]
      rfl

end

/-! ## §3. Frontiers of a star -/

section

variable {κ K : Type} {dims : DimensionSemirings κ K} {localeCompare : Text → Text → Int}
  {root : Text} {ids : List Text} {row : JsMap Text (κ → K)}

/-- What a frontier of one path asks of the dimensions. -/
structure DimensionSemirings.Lawful (dims : DimensionSemirings κ K) : Prop where
  one_mul : ∀ key a, (dims.dim key).mul (dims.dim key).one a = a
  add_self : ∀ key a, (dims.dim key).add a a = a

def liftedRow (row : JsMap Text (κ → K)) : JsMap Text (Frontier κ K) :=
  row.map fun e => (e.1, [⟨e.2, [e.1]⟩])

theorem liftedGraph_fan (hroot : root ∉ ids) (hids : ids.Nodup)
    (hrow : ∀ id ∈ row.keys, id ∈ ids) (hkeys : row.keys.Nodup) :
    liftedGraph (fan root ids row) = fan root ids (liftedRow row) := by
  have hedges : (fan root ids row).edges = row.map fun e => (root, e.1, e.2) := by
    unfold edges fan
    simp
  have hnodes : ∀ (later sooner : List Text), root ∉ later → (sooner ++ later).Nodup →
      later.foldl addNode (fan root sooner ([] : JsMap Text (Frontier κ K)))
        = fan root (sooner ++ later) [] := by
    intro later
    induction later with
    | nil => intro sooner _ _; simp
    | cons id later ih =>
      intro sooner hnotin hnodup
      have hne : id ≠ root := fun heq => hnotin (heq ▸ mem_cons_self)
      have hnew : id ∉ sooner := by
        intro hin
        exact (nodup_append.mp hnodup).2.2 id hin id mem_cons_self rfl
      rw [foldl_cons, addNode_fan hne, if_neg hnew, ih (sooner ++ [id])
        (fun hin => hnotin (mem_cons_of_mem _ hin)) (by simpa using hnodup)]
      simp
  have hset : ∀ (edges row' : JsMap Text (Frontier κ K)), (∀ e ∈ edges, e.1 ∈ ids) →
      edges.foldl (fun lifted e => lifted.setEdge root e.1 e.2) (fan root ids row')
        = fan root ids (edges.foldl (fun (map : JsMap Text (Frontier κ K)) e => map.set e.1 e.2)
            row') := by
    intro edges
    induction edges with
    | nil => exact fun _ _ => rfl
    | cons e edges ih =>
      intro row' hin
      have he : e.1 ∈ ids := hin e mem_cons_self
      have hne : e.1 ≠ root := fun heq => hroot (heq ▸ he)
      rw [foldl_cons, setEdge_fan hne hroot, if_pos he,
        ih _ fun a ha => hin a (mem_cons_of_mem _ ha)]
      rfl
  have hkeys' : (liftedRow row).keys.Nodup := by
    unfold liftedRow JsMap.keys
    rw [map_map]
    exact hkeys
  unfold liftedGraph
  rw [hedges]
  have hbegin : (fan root ids row).nodes.foldl addNode .empty
      = fan root ids ([] : JsMap Text (Frontier κ K)) := hnodes ids [] hroot hids
  rw [hbegin, foldl_map]
  have hlifted := hset (liftedRow row) [] fun e he => by
    obtain ⟨a, ha, rfl⟩ := mem_map.mp he
    exact hrow a.1 (mem_map_of_mem ha)
  rw [JsMap.foldl_set_eq hkeys'] at hlifted
  unfold liftedRow at hlifted ⊢
  rwa [foldl_map] at hlifted

variable [DecidableEq K]

theorem prune_one {maxPaths : Nat} (h : 0 < maxPaths) (x : PathWeight κ K) :
    prune localeCompare dims [x] maxPaths = [x] := by
  show (List.insertionSort _ [x]).take maxPaths = [x]
  rw [insertionSort_cons, insertionSort_nil, orderedInsert_nil, take_of_length_le h]

theorem prune_two (hdims : dims.Lawful) {maxPaths : Nat} (h : 0 < maxPaths) (x : PathWeight κ K) :
    prune localeCompare dims [x, x] maxPaths = [x] := by
  have hself : dominatesOrEquals dims x.weight x.weight = true := by
    unfold dominatesOrEquals
    rw [all_eq_true]
    intro key _
    rw [hdims.add_self]
    exact beq_self_eq_true _
  have hsorted : [x, x].insertionSort (fun x y => hopsFirst localeCompare x.path y.path) = [x, x] := by
    rw [insertionSort_cons, insertionSort_cons, insertionSort_nil,
      orderedInsert_nil, orderedInsert_cons]
    split <;> rfl
  have hkept : [x, x].foldl (keepCandidate dims) [] = [x] := by
    show keepCandidate dims [x] x = [x]
    unfold keepCandidate
    rw [any_cons, hself, Bool.or_true, Bool.true_or, if_pos rfl]
  unfold prune
  dsimp only
  rw [hsorted, hkept, insertionSort_cons, insertionSort_nil, orderedInsert_nil, take_of_length_le h]

variable {maxPaths : Nat}

theorem one_mul_single (hdims : dims.Lawful) (h : 0 < maxPaths) (weight : κ → K) (id : Text) :
    (paretoPathSemiring localeCompare dims maxPaths).mul
      (paretoPathSemiring localeCompare dims maxPaths).one [⟨weight, [id]⟩] = [⟨weight, [id]⟩] := by
  have hweight : (fun key => (dims.dim key).mul (dims.dim key).one (weight key)) = weight :=
    funext fun key => hdims.one_mul key (weight key)
  show prune localeCompare dims [⟨fun key => (dims.dim key).mul (dims.dim key).one (weight key),
    [id]⟩] maxPaths = _
  rw [hweight, prune_one h]

theorem throughEdge_single (hdims : dims.Lawful) (h : 0 < maxPaths) (weight : κ → K) (id : Text) :
    throughEdge (paretoPathSemiring localeCompare dims maxPaths) [⟨weight, [id]⟩]
      = [⟨weight, [id]⟩] := by
  unfold throughEdge
  rw [one_mul_single hdims h]
  exact prune_one h _

theorem settles_liftedRow (hdims : dims.Lawful) (h : 0 < maxPaths) :
    Settles (paretoPathSemiring localeCompare dims maxPaths) (liftedRow row) := by
  constructor
  · rfl
  · intro e he
    obtain ⟨a, -, rfl⟩ := mem_map.mp he
    rw [throughEdge_single hdims h]
    rfl
  · intro e he
    obtain ⟨a, -, rfl⟩ := mem_map.mp he
    rw [throughEdge_single hdims h, one_mul_single hdims h]
    have hadd : (paretoPathSemiring localeCompare dims maxPaths).add [⟨a.2, [a.1]⟩] [⟨a.2, [a.1]⟩]
        = [⟨a.2, [a.1]⟩] := prune_two hdims h _
    rw [hadd]
    simp [paretoPathSemiring, sameKey]

/-- **The frontier of a node of a star** is its edge. -/
theorem get_frontierPaths_fan (hdims : dims.Lawful) (h : 0 < maxPaths) (hroot : root ∉ ids)
    (hids : ids.Nodup) (hrow : ∀ id, id ∈ ids ↔ id ∈ row.keys) (hkeys : row.keys.Nodup) {id : Text}
    (hid : id ≠ root) : (frontierPaths localeCompare dims (fan root ids row) root maxPaths).get id
      = (row.get id).map fun weight => [⟨weight, [id]⟩] := by
  have hsame : (liftedRow row).keys = row.keys := by
    unfold liftedRow JsMap.keys
    rw [map_map]
    rfl
  have hget : (liftedRow row).get id = (row.get id).map fun weight => [⟨weight, [id]⟩] :=
    JsMap.get_mapKeyed row (fun id weight => [(⟨weight, [id]⟩ : PathWeight κ K)]) id
  unfold frontierPaths
  rw [liftedGraph_fan hroot hids (fun id hin => (hrow id).mpr hin) hkeys,
    get_optimalPaths_fan hroot (by rw [hsame]; exact hrow) (by rw [hsame]; exact hkeys)
      (settles_liftedRow hdims h) hid, hget, Option.map_map]
  congr 1
  funext weight
  exact throughEdge_single hdims h weight id

end

/-! ## §4. The agents ranked over a star -/

section

variable {K : Type} [Field K] [LinearOrder K] {localeCompare : Text → Text → Int} {root : Text}

theorem routeWeightDimensions_lawful :
    (ROUTE_WEIGHT_DIMENSIONS : DimensionSemirings RouteDimension K).Lawful where
  one_mul key a := by
    cases key with
    | trust => exact one_mul a
    | cost | latency => exact zero_add a
    | reliability => exact one_mul a
    | regulatory_risk => exact zero_add a
  add_self key a := by
    cases key with
    | trust => exact max_self a
    | cost | latency => exact min_self a
    | reliability => exact max_self a
    | regulatory_risk => exact min_self a

def starRow (edges : List (Text × RouteWeight K)) : JsMap Text (RouteWeight K) :=
  edges.foldl (fun row edge => JsMap.set row edge.1 edge.2) []

theorem keys_starRow_nodup (edges : List (Text × RouteWeight K)) : (starRow edges).keys.Nodup := by
  refine List.foldlRecOn edges _ (motive := fun row : JsMap Text (RouteWeight K) => row.keys.Nodup)
    nodup_nil ?_
  intro row hrow edge _
  exact JsMap.keys_set_nodup hrow edge.1 edge.2

variable {edges : List (Text × RouteWeight K)}

theorem starGraph_eq (h : ∀ e ∈ edges, e.1 ≠ root) :
    ∃ ids : List Text, starGraph root edges = fan root ids (starRow edges) ∧ ids.Nodup ∧
      root ∉ ids ∧ ∀ id, id ∈ ids ↔ id ∈ (starRow edges).keys := by
  refine List.reverseRecOn edges (motive := fun edges => (∀ e ∈ edges, e.1 ≠ root) →
    ∃ ids : List Text, edges.foldl (fun graph edge => graph.setEdge root edge.1 edge.2)
        (fan root [] []) = fan root ids (edges.foldl (fun row edge => JsMap.set row edge.1 edge.2) [])
      ∧ ids.Nodup ∧ root ∉ ids ∧ ∀ id, id ∈ ids ↔ id ∈ JsMap.keys (edges.foldl (fun row edge =>
          JsMap.set row edge.1 edge.2) [])) ?_ ?_ h
  · intro _
    exact ⟨[], rfl, nodup_nil, not_mem_nil, fun _ => Iff.rfl⟩
  · intro edges edge ih h
    obtain ⟨ids, hfan, hnodup, hroot, hids⟩ := ih fun e he => h e (mem_append_left _ he)
    have hne : edge.1 ≠ root := h edge (by simp)
    rw [foldl_append, foldl_append, hfan]
    refine ⟨_, setEdge_fan hne hroot edge.2, ?_, ?_, ?_⟩
    · split
      · exact hnodup
      · next hnew =>
        rw [nodup_append]
        refine ⟨hnodup, nodup_singleton _, ?_⟩
        rintro a ha b hb rfl
        exact hnew (mem_singleton.mp hb ▸ ha)
    · split
      · exact hroot
      · rw [mem_append, mem_singleton]
        rintro (hin | heq)
        · exact hroot hin
        · exact hne heq.symm
    · intro id
      rw [foldl_cons, foldl_nil, JsMap.mem_keys_set, ← hids]
      split
      · next hin =>
        constructor
        · exact .inr
        · rintro (rfl | hid)
          · exact hin
          · exact hid
      · rw [mem_append, mem_singleton]
        exact or_comm

def starAgent (weights : RouteWeight K) (id : Text) (route : RouteWeight K) : RankedAgent K :=
  ⟨id, scoreOf weights route, route, [id], 1⟩

theorem rankNode_single (weights route : RouteWeight K) {id : Text} (h : id ≠ root) :
    rankNode localeCompare root weights (id, [⟨route, [id]⟩])
      = if 0 < route .trust then some (starAgent weights id route) else none := by
  unfold rankNode
  rw [if_neg h]
  by_cases htrust : 0 < route .trust
  · rw [filter_cons_of_pos (by simpa using htrust), if_pos htrust, filter_nil]
    rfl
  · rw [filter_cons_of_neg (by simpa using htrust), if_neg htrust, filter_nil]
    rfl

/-- **The agents ranked over a star**: those whose edge carries trust, each by its edge. -/
theorem mem_rankReachableAgents_star
    (h : ∀ e ∈ edges, e.1 ≠ root) {weights : RouteWeight K} {agent : RankedAgent K} :
    agent ∈ rankReachableAgents localeCompare (starGraph root edges) root weights
      ↔ ∃ id route, (starRow edges).get id = some route ∧ 0 < route .trust ∧
        agent = starAgent weights id route := by
  obtain ⟨ids, hfan, hnodup, hroot, hids⟩ := starGraph_eq h
  have hkeys := keys_starRow_nodup edges
  have hget : ∀ {id}, id ≠ root → (frontierPaths localeCompare ROUTE_WEIGHT_DIMENSIONS
      (starGraph root edges) root DEFAULT_MAX_FRONTIER_PATHS).get id
        = ((starRow edges).get id).map fun route => [⟨route, [id]⟩] := by
    intro id hid
    rw [hfan]
    exact get_frontierPaths_fan routeWeightDimensions_lawful (by decide) hroot hnodup hids hkeys hid
  have hfrontiers := keys_optimalPaths_nodup
    (paretoPathSemiring localeCompare (ROUTE_WEIGHT_DIMENSIONS : DimensionSemirings _ K)
      DEFAULT_MAX_FRONTIER_PATHS) (liftedGraph (starGraph root edges)) root
  unfold rankReachableAgents
  rw [mem_sortOn, mem_filterMap]
  constructor
  · rintro ⟨⟨id, frontier⟩, hentry, hranked⟩
    have hid : id ≠ root := by
      intro heq
      unfold rankNode at hranked
      rw [if_pos heq] at hranked
      cases hranked
    have hfrontier := (JsMap.get_eq_some hfrontiers).mpr hentry
    obtain ⟨route, hroute, rfl⟩ := Option.map_eq_some_iff.mp ((hget hid).symm.trans hfrontier)
    rw [rankNode_single weights route hid] at hranked
    split at hranked
    · next htrust =>
      cases hranked
      exact ⟨id, route, hroute, htrust, rfl⟩
    · cases hranked
  · rintro ⟨id, route, hroute, htrust, rfl⟩
    have hid : id ≠ root := by
      rintro rfl
      have hin := JsMap.get_isSome.mp (by rw [hroute]; rfl)
      exact hroot ((hids _).mpr hin)
    refine ⟨(id, [⟨route, [id]⟩]), (JsMap.get_eq_some hfrontiers).mp ?_, ?_⟩
    · have hfrontier := hget hid
      rwa [hroute] at hfrontier
    · rw [rankNode_single weights route hid, if_pos htrust]

theorem ids_rankReachableAgents_nodup (graph : WeightedDigraph Text (RouteWeight K))
    (weights : RouteWeight K) :
    ((rankReachableAgents localeCompare graph root weights).map RankedAgent.motebit_id).Nodup := by
  have hsub : ∀ frontiers : JsMap Text (Frontier RouteDimension K),
      List.Sublist ((frontiers.filterMap (rankNode localeCompare root weights)).map
        RankedAgent.motebit_id) frontiers.keys := by
    intro frontiers
    induction frontiers with
    | nil => exact List.Sublist.refl _
    | cons entry frontiers ih =>
      rw [filterMap_cons]
      split
      · exact ih.cons _
      next agent hranked =>
      have hid : agent.motebit_id = entry.1 := by
        unfold rankNode at hranked
        split at hranked
        · cases hranked
        · obtain ⟨pick, -, rfl⟩ := Option.map_eq_some_iff.mp hranked
          rfl
      rw [map_cons, hid]
      exact ih.cons_cons _
  have hperm := (sortOn_perm (fun agent : RankedAgent K => OrderDual.toDual agent.score)
    ((frontierPaths localeCompare ROUTE_WEIGHT_DIMENSIONS graph root
      DEFAULT_MAX_FRONTIER_PATHS).filterMap (rankNode localeCompare root weights))).map
        RankedAgent.motebit_id
  exact hperm.nodup_iff.mpr ((keys_optimalPaths_nodup _ _ _).sublist (hsub _))

/-- **Stars with one row rank alike**, whatever their centres. -/
theorem bestFirst_star_eq {root' : Text} {edges edges' : List (Text × RouteWeight K)}
    (h : ∀ e ∈ edges, e.1 ≠ root) (h' : ∀ e ∈ edges', e.1 ≠ root')
    (hrow : ∀ id, (starRow edges).get id = (starRow edges').get id) (weights : RouteWeight K) :
    bestFirst (rankReachableAgents localeCompare (starGraph root edges) root weights)
      = bestFirst (rankReachableAgents localeCompare (starGraph root' edges') root' weights) := by
  have hdistinct : ∀ {agents : List (RankedAgent K)}, (agents.map RankedAgent.motebit_id).Nodup →
      (agents.map fun agent => toLex (OrderDual.toDual agent.score, agent.motebit_id)).Nodup := by
    intro agents hids
    apply List.Nodup.of_map fun key => (ofLex key).2
    rw [map_map]
    exact hids
  apply sortOn_eq
  · exact hdistinct (ids_rankReachableAgents_nodup _ _)
  · exact hdistinct (ids_rankReachableAgents_nodup _ _)
  · intro agent
    rw [mem_rankReachableAgents_star h, mem_rankReachableAgents_star h']
    simp only [hrow]

end

end Motebit.Routing
