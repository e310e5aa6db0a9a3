/-
  Motebit.Traversal.Agreement — BOTH TRAVERSALS SUM OVER ALL WALKS.

  Both only ever add to a distance, and what they add is the weight of walks.  So a distance is a
  finite sum of walks, and it remains that it is above each of them: rounds reach the walks of one
  more edge each, in whatever order a round relaxes its edges, and stages reach the walks through
  one more node each.

  Main results: `isWalkSum_rounds`, `isWalkSum_stages`, `traversals_agree`.
-/

import Motebit.Lib.WalkSum
import Motebit.Traversal.Rounds

namespace Motebit.Traversal

open Motebit.Lib List Function WeightedDigraph

variable {ν T : Type} [DecidableEq ν]

/-! ## §1. The walks of a graph -/

section

variable (sr : SemiringOps T) (graph : WeightedDigraph ν T)

def WeightedDigraph.getEdge (source target : ν) : T :=
  ((graph.neighbors source).get target).getD sr.zero

/-- The listed nodes are those that a walk along the edges goes through after its source, and the
    last is its target. -/
def IsWalk : ν → List ν → ν → Prop
  | source, [], target => source = target
  | source, next :: rest, target =>
    next ∈ (graph.neighbors source).keys ∧ IsWalk next rest target

/-- The product of the weights of a walk's edges. -/
def walkProduct : ν → List ν → T
  | _, [] => sr.one
  | source, next :: rest => sr.mul (graph.getEdge sr source next) (walkProduct next rest)

def sumOver (source : ν) (walks : List (List ν)) : T :=
  (walks.map (walkProduct sr graph source)).foldr sr.add sr.zero

/-- The sum over all walks between two nodes: some of them are enough, and every finite sum that
    has them all is the same. -/
def SumsAllWalks (source target : ν) (x : T) : Prop :=
  ∃ enough : List (List ν), (∀ walk ∈ enough, IsWalk graph source walk target) ∧
    ∀ walks : List (List ν), enough ⊆ walks →
      (∀ walk ∈ walks, IsWalk graph source walk target) → sumOver sr graph source walks = x

end

/-! ## §2. The semiring of the library -/

/-- Lawful operations are a semiring, and `1 + a = 1` makes it idempotent. -/
@[reducible] def SemiringOps.Lawful.idem {sr : SemiringOps T} (h : sr.Lawful)
    (hone : ∀ a, sr.add sr.one a = sr.one) : IdemSemiring T :=
  letI : Semiring T :=
    { add := sr.add
      mul := sr.mul
      zero := sr.zero
      one := sr.one
      add_assoc := h.add_assoc
      zero_add := h.zero_add
      add_zero := h.add_zero
      add_comm := h.add_comm
      nsmul := @nsmulRec T ⟨sr.zero⟩ ⟨sr.add⟩
      left_distrib := h.mul_add
      right_distrib := h.add_mul
      zero_mul := h.zero_mul
      mul_zero := h.mul_zero
      mul_assoc := h.mul_assoc
      one_mul := h.one_mul
      mul_one := h.mul_one }
  IdemSemiring.ofSemiring fun a => by
    show sr.add a a = a
    calc sr.add a a = sr.add (sr.mul a sr.one) (sr.mul a sr.one) := by rw [h.mul_one]
      _ = sr.mul a (sr.add sr.one sr.one) := (h.mul_add a sr.one sr.one).symm
      _ = a := by rw [hone, h.mul_one]

/-- The operations are those of the library's semiring. -/
structure SemiringOps.Reads [IdemSemiring T] (sr : SemiringOps T) : Prop where
  zero : sr.zero = 0
  one : sr.one = 1
  add : ∀ a b, sr.add a b = a + b
  mul : ∀ a b, sr.mul a b = a * b

/-! ## §3. Rounds -/

section

variable [IdemSemiring T] {sr : SemiringOps T} {graph : WeightedDigraph ν T} {source : ν}

omit [IdemSemiring T] in
theorem getEdge_of_mem (hwf : graph.Wf) {node : ν} {edge : ν × T}
    (hedge : edge ∈ graph.neighbors node) : graph.getEdge sr node edge.1 = edge.2 := by
  unfold getEdge
  rw [(JsMap.get_eq_some (hwf.keys node)).mpr hedge]
  rfl

section

variable (hsr : sr.Reads)
include hsr

theorem getEdge_eq_zero (hwf : graph.Wf) (node : ν) {target : ν}
    (h : target ∉ graph.nodes) : graph.getEdge sr node target = 0 := by
  unfold getEdge
  cases hget : (graph.neighbors node).get target with
  | none => exact hsr.zero
  | some =>
    have hkey : target ∈ (graph.neighbors node).keys := by
      rw [← JsMap.get_isSome, hget]
      rfl
    exact absurd (hwf.targets node target hkey) h

theorem le_relaxed (d : T) (dist : ν → T) (edge : ν × T) :
    dist ≤ update dist edge.1 (sr.add (dist edge.1) (sr.mul d edge.2)) := by
  rw [le_update_self_iff, hsr.add]
  exact le_self_add

theorem le_plainNode (dist : ν → T) (node : ν) : dist ≤ plainNode sr graph dist node :=
  le_foldl (le_relaxed hsr (dist node)) _ dist

theorem plainNode_reaches (dist : ν → T) (node target : ν) :
    dist node * graph.getEdge sr node target ≤ plainNode sr graph dist node target := by
  unfold getEdge
  cases hget : (graph.neighbors node).get target with
  | none =>
    show dist node * sr.zero ≤ _
    rw [hsr.zero, mul_zero]
    exact zero_le
  | some =>
    obtain ⟨y, -, hreached⟩ := foldl_reaches (le_relaxed hsr (dist node))
      (JsMap.mem_of_get hget) dist
    have hentry := hreached target
    rw [update_self, hsr.add, hsr.mul] at hentry
    exact le_add_self.trans hentry

/-- **A round relaxes every edge**: in whatever order, from no less than it began with. -/
theorem plainRound_reaches (hwf : graph.Wf) (dist : ν → T) (node target : ν) :
    dist node * graph.getEdge sr node target ≤ plainRound sr graph dist target := by
  by_cases hnode : node ∈ graph.nodes
  · obtain ⟨y, hy, hreached⟩ := foldl_reaches (le_plainNode hsr) hnode dist
    have hless : dist node * graph.getEdge sr node target ≤ y node * graph.getEdge sr node target :=
      mul_le_mul_left (hy node) _
    exact (hless.trans (plainNode_reaches hsr y node target)).trans (hreached target)
  · have hnone : graph.neighbors node = [] := by
      by_contra hne
      exact hnode (hwf.sources node hne)
    have hzero : graph.getEdge sr node target = 0 := by
      unfold getEdge
      rw [hnone]
      exact hsr.zero
    rw [hzero, mul_zero]
    exact zero_le

theorem attained_plainRound (hwf : graph.Wf) {dist : ν → T}
    (h : ∀ t, Attained (graph.getEdge sr) source t (dist t)) (t : ν) :
    Attained (graph.getEdge sr) source t (plainRound sr graph dist t) := by
  revert t
  refine List.foldlRecOn graph.nodes (plainNode sr graph)
    (motive := fun dist : ν → T => ∀ t, Attained (graph.getEdge sr) source t (dist t)) h ?_
  intro dist hdist node _
  refine List.foldlRecOn (graph.neighbors node) _
    (motive := fun dist : ν → T => ∀ t, Attained (graph.getEdge sr) source t (dist t)) hdist ?_
  intro dist' hdist' edge hedge t
  rw [update_apply]
  split
  · next heq =>
    have hgiven := (hdist node).mul (Attained.edge node edge.1)
    rw [getEdge_of_mem hwf hedge] at hgiven
    rw [heq, hsr.add, hsr.mul]
    exact (hdist' edge.1).add hgiven
  · exact hdist' t

end

/-- **The rounds sum over all walks.** -/
theorem isWalkSum_rounds (hone : ∀ a : T, a ≤ 1) (hsr : sr.Reads) (hwf : graph.Wf)
    (hsource : source ∈ graph.nodes) (t : ν) : IsWalkSum (graph.getEdge sr) source t
      ((plainRound sr graph)^[graph.nodes.length - 1] (plainStart sr source) t) := by
  have hstart : plainStart sr source source = 1 := by
    unfold plainStart
    rw [update_self, hsr.one]
  have hrounds : ∀ n,
      Covers (graph.getEdge sr) source n ((plainRound sr graph)^[n] (plainStart sr source)) ∧
        ∀ t, Attained (graph.getEdge sr) source t
          ((plainRound sr graph)^[n] (plainStart sr source) t) := by
    intro n
    induction n with
    | zero =>
      refine ⟨Covers.start hstart, fun t => ?_⟩
      show Attained (graph.getEdge sr) source t (plainStart sr source t)
      by_cases ht : t = source
      · rw [ht, hstart]
        exact .one source
      · unfold plainStart
        rw [update_of_ne ht, hsr.zero]
        exact .zero source t
    | succ n ih =>
      rw [iterate_succ_apply']
      constructor
      · exact ih.1.round (le_foldl (le_plainNode hsr) graph.nodes _) (plainRound_reaches hsr hwf _)
      · exact attained_plainRound hsr hwf ih.2
  obtain ⟨hcovers, hattained⟩ := hrounds (graph.nodes.length - 1)
  refine ⟨fun p hp => ?_, hattained t⟩
  rw [← hp]
  exact hcovers.complete hone (fun u v hv => getEdge_eq_zero hsr hwf u hv) hsource p

/-! ## §4. Stages -/

/-- Every entry is a finite sum of walks. -/
def Sound (sr : SemiringOps T) (graph : WeightedDigraph ν T) (dist : Matrix T) : Prop :=
  ∀ i j, (hi : i < graph.nodes.length) → (hj : j < graph.nodes.length) →
    Attained (graph.getEdge sr) graph.nodes[i] graph.nodes[j] (dist i j)

section

variable (hsr : sr.Reads)
include hsr

theorem le_combine (dist : Matrix T) (i j : Nat) (x : T) : dist ≤ dist.combine sr i j x := by
  unfold Matrix.combine Matrix.set
  rw [le_update_self_iff, le_update_self_iff, hsr.add]
  exact le_self_add

theorem combine_reaches (dist : Matrix T) (i j : Nat) (x : T) : x ≤ dist.combine sr i j x i j := by
  unfold Matrix.combine Matrix.set
  rw [update_self, update_self, hsr.add]
  exact le_add_self

variable {dist : Matrix T}

theorem Sound.combine (h : Sound sr graph dist) {i j : Nat}
    {x : T} (hx : (hi : i < graph.nodes.length) → (hj : j < graph.nodes.length) →
      Attained (graph.getEdge sr) graph.nodes[i] graph.nodes[j] x) :
    Sound sr graph (dist.combine sr i j x) := by
  intro a b ha hb
  unfold Matrix.combine Matrix.set
  rw [update_apply]
  split
  · next hai =>
    subst hai
    rw [update_apply]
    split
    · next hbj =>
      subst hbj
      rw [hsr.add]
      exact (h a b ha hb).add (hx ha hb)
    · exact h a b ha hb
  · exact h a b ha hb

theorem le_loadNode (dist : Matrix T) (node : ν) : dist ≤ loadNode sr graph dist node :=
  le_foldl (fun dist _ => le_combine hsr dist _ _ _) _ dist

theorem one_le_loadEdges (i : Nat) : 1 ≤ loadEdges sr graph i i := by
  refine le_trans ?_ (le_foldl (le_loadNode hsr) graph.nodes _ i i)
  rw [if_pos rfl, hsr.one]

theorem getEdge_le_loadEdges {node : ν} (hnode : node ∈ graph.nodes) (target : ν) :
    graph.getEdge sr node target
      ≤ loadEdges sr graph (graph.nodes.idxOf node) (graph.nodes.idxOf target) := by
  unfold getEdge
  cases hget : (graph.neighbors node).get target with
  | none =>
    show sr.zero ≤ _
    rw [hsr.zero]
    exact zero_le
  | some weight =>
    obtain ⟨y, -, hloaded⟩ := foldl_reaches (le_loadNode hsr) hnode
      (fun i j => if i = j then sr.one else sr.zero : Matrix T)
    have hgrow : ∀ (dist : Matrix T) (edge : ν × T), dist ≤ dist.combine sr
        (graph.nodes.idxOf node) (graph.nodes.idxOf edge.1) edge.2 :=
      fun dist edge => le_combine hsr dist _ _ _
    obtain ⟨y', -, hentry⟩ := foldl_reaches hgrow (JsMap.mem_of_get hget) y
    exact ((combine_reaches hsr y' _ _ weight).trans (hentry _ _)).trans (hloaded _ _)

theorem sound_loadEdges (hwf : graph.Wf) : Sound sr graph (loadEdges sr graph) := by
  refine List.foldlRecOn graph.nodes _ (motive := Sound sr graph) ?_ ?_
  · intro i j hi hj
    dsimp only
    by_cases hij : i = j
    · subst hij
      rw [if_pos rfl, hsr.one]
      exact .one _
    · rw [if_neg hij, hsr.zero]
      exact .zero _ _
  · intro dist hdist node _
    refine List.foldlRecOn (graph.neighbors node) _ (motive := Sound sr graph) hdist ?_
    intro dist' hdist' edge hedge
    refine hdist'.combine hsr fun hi hj => ?_
    rw [getElem_idxOf, getElem_idxOf, ← getEdge_of_mem hwf hedge]
    exact .edge node edge.1

theorem le_stage (n k : Nat) (dist : Matrix T) : dist ≤ stage sr n dist k :=
  le_foldl (fun dist i => le_foldl (fun dist _ => le_combine hsr dist _ _ _) (List.range n) dist)
    (List.range n) dist

theorem stage_reaches {n i j : Nat} (hi : i < n) (hj : j < n) (k : Nat)
    (dist : Matrix T) : dist i k * dist k j ≤ stage sr n dist k i j := by
  have hentry : ∀ (i : Nat) (dist : Matrix T) (j : Nat), dist ≤ through sr k i dist j :=
    fun i dist j => le_combine hsr dist i j _
  have hrow : ∀ (dist : Matrix T) (i : Nat), dist ≤ (List.range n).foldl (through sr k i) dist :=
    fun dist i => le_foldl (hentry i) _ dist
  obtain ⟨y, hy, hstage⟩ := foldl_reaches hrow (List.mem_range.mpr hi) dist
  obtain ⟨y', hy', hdone⟩ := foldl_reaches (hentry i) (List.mem_range.mpr hj) y
  have hbegan : dist ≤ y' := hy.trans hy'
  have hthrough : y' i k * y' k j ≤ through sr k i y' j i j := by
    rw [← hsr.mul]
    exact combine_reaches hsr y' i j _
  calc dist i k * dist k j ≤ y' i k * y' k j := mul_le_mul' (hbegan i k) (hbegan k j)
    _ ≤ through sr k i y' j i j := hthrough
    _ ≤ (List.range n).foldl (through sr k i) y i j := hdone i j
    _ ≤ stage sr n dist k i j := hstage i j

theorem Sound.stage (h : Sound sr graph dist) {k : Nat}
    (hk : k < graph.nodes.length) : Sound sr graph (stage sr graph.nodes.length dist k) := by
  refine List.foldlRecOn _ _ (motive := Sound sr graph) h ?_
  intro dist' hdist' _ _
  refine List.foldlRecOn _ _ (motive := Sound sr graph) hdist' ?_
  intro dist'' hdist'' j _
  refine hdist''.combine hsr fun hi hj => ?_
  rw [hsr.mul]
  exact (hdist'' _ k hi hk).mul (hdist'' k j hk hj)

end

variable {s t : ν}

/-- **The stages sum over all walks.** -/
theorem isWalkSum_stages (hone : ∀ a : T, a ≤ 1) (hsr : sr.Reads) (hwf : graph.Wf)
    (hs : s ∈ graph.nodes) (ht : t ∈ graph.nodes) : IsWalkSum (graph.getEdge sr) s t
      ((List.range graph.nodes.length).foldl (stage sr graph.nodes.length) (loadEdges sr graph)
        (graph.nodes.idxOf s) (graph.nodes.idxOf t)) := by
  have hstages : ∀ k, k ≤ graph.nodes.length →
      let dist := (List.range k).foldl (stage sr graph.nodes.length) (loadEdges sr graph)
      CoversThrough (graph.getEdge sr) graph.nodes (graph.nodes.take k).reverse
          (fun a b => dist (graph.nodes.idxOf a) (graph.nodes.idxOf b)) ∧
        Sound sr graph dist := by
    intro k
    induction k with
    | zero =>
      intro _
      refine ⟨CoversThrough.start (fun a _ => one_le_loadEdges hsr _) fun a ha b _ => ?_,
        sound_loadEdges hsr hwf⟩
      exact getEdge_le_loadEdges hsr ha b
    | succ k ih =>
      intro hk
      obtain ⟨hcovers, hsound⟩ := ih (by omega)
      have hidx : graph.nodes.idxOf graph.nodes[k] = k := hwf.nodes.idxOf_getElem k hk
      rw [range_succ, foldl_append, take_succ_eq_append_getElem hk, reverse_append]
      refine ⟨hcovers.step (getElem_mem hk) (fun a _ b _ => le_stage hsr _ k _ _ _) ?_,
        hsound.stage hsr hk⟩
      intro a ha b hb
      rw [hidx]
      exact stage_reaches hsr (idxOf_lt_length_of_mem ha) (idxOf_lt_length_of_mem hb) k _
  obtain ⟨hcovers, hsound⟩ := hstages graph.nodes.length le_rfl
  constructor
  · intro p hp
    rw [← hp]
    refine hcovers.complete hone (fun u v hv => getEdge_eq_zero hsr hwf u hv) ?_ hs p
    intro v hv
    rw [take_length, mem_reverse]
    exact hv
  · have hentry := hsound _ _ (idxOf_lt_length_of_mem hs) (idxOf_lt_length_of_mem ht)
    rwa [getElem_idxOf, getElem_idxOf] at hentry

/-! ## §5. The sum over the graph's own walks -/

theorem walkWeight_getEdge (hsr : sr.Reads) (s : ν) (p : List ν) :
    walkWeight (graph.getEdge sr) s p = walkProduct sr graph s p := by
  induction p generalizing s with
  | nil => exact hsr.one.symm
  | cons v p ih =>
    show graph.getEdge sr s v * walkWeight (graph.getEdge sr) v p
      = sr.mul (graph.getEdge sr s v) (walkProduct sr graph v p)
    rw [ih, hsr.mul]

theorem sumOver_eq (hsr : sr.Reads) (s : ν) (walks : List (List ν)) :
    sumOver sr graph s walks = (walks.map (walkWeight (graph.getEdge sr) s)).sum := by
  unfold sumOver
  induction walks with
  | nil => exact hsr.zero
  | cons p walks ih =>
    rw [map_cons, foldr_cons, ih, hsr.add, map_cons, sum_cons, walkWeight_getEdge hsr]

omit [IdemSemiring T] in
theorem IsWalk.walkEnd {p : List ν} (h : IsWalk graph s p t) : walkEnd s p = t := by
  induction p generalizing s with
  | nil => exact h
  | cons v p ih => exact ih h.2

theorem walkWeight_of_not_isWalk (hsr : sr.Reads) {p : List ν} (hend : walkEnd s p = t)
    (h : ¬ IsWalk graph s p t) : walkWeight (graph.getEdge sr) s p = 0 := by
  induction p generalizing s with
  | nil => exact absurd hend h
  | cons v p ih =>
    show graph.getEdge sr s v * walkWeight (graph.getEdge sr) v p = 0
    by_cases hedge : v ∈ (graph.neighbors s).keys
    · rw [ih hend fun hp => h ⟨hedge, hp⟩, mul_zero]
    · have hnone : (graph.neighbors s).get v = none := by
        rw [← Option.isNone_iff_eq_none, ← Option.isSome_eq_false_iff, ← Bool.not_eq_true,
          JsMap.get_isSome]
        exact hedge
      have hzero : graph.getEdge sr s v = 0 := by
        unfold getEdge
        rw [hnone]
        exact hsr.zero
      rw [hzero, zero_mul]

theorem sumsAllWalks_of_isWalkSum (hsr : sr.Reads) {x : T}
    (h : IsWalkSum (graph.getEdge sr) s t x) : SumsAllWalks sr graph s t x := by
  classical
  obtain ⟨enough, henough, hsum⟩ := h.sum_eq
  refine ⟨enough.filter fun walk => IsWalk graph s walk t, fun walk hwalk => ?_,
    fun walks hsub hwalks => ?_⟩
  · simpa using (mem_filter.mp hwalk).2
  · rw [sumOver_eq hsr]
    refine hsum walks (fun p hp => ?_) fun p hp => (hwalks p hp).walkEnd
    by_cases hwalk : IsWalk graph s p t
    · exact .inl (hsub (mem_filter.mpr ⟨hp, by simpa using hwalk⟩))
    · exact .inr (walkWeight_of_not_isWalk hsr (henough p hp) hwalk)

end

/-! ## §6. The traversals -/

theorem get_transitiveClosure (sr : SemiringOps T) (graph : WeightedDigraph ν T) {source : ν}
    (hsource : source ∈ graph.nodes) (t : ν) :
    ((transitiveClosure sr graph).get source).bind (fun row => row.get t)
      = if t ∈ graph.nodes then
          some ((List.range graph.nodes.length).foldl (stage sr graph.nodes.length)
            (loadEdges sr graph) (graph.nodes.idxOf source) (graph.nodes.idxOf t))
        else none := by
  unfold transitiveClosure
  rw [JsMap.get_foldl_set, if_pos hsource, Option.bind_some, JsMap.get_foldl_set]
  rfl

/-- **Both traversals give each node the sum over all walks to it.** -/
theorem traversals_agree {sr : SemiringOps T} (hlaws : sr.Lawful)
    (hone : ∀ a, sr.add sr.one a = sr.one) {graph : WeightedDigraph ν T} (hbuilt : Built sr graph)
    {source : ν} (hsource : source ∈ graph.nodes) (t : ν) : (optimalPaths sr graph source).get t
        = ((transitiveClosure sr graph).get source).bind (fun row => row.get t) ∧
      (t ∈ graph.nodes → ∃ x, (optimalPaths sr graph source).get t = some x ∧
        SumsAllWalks sr graph source t x) ∧
      (t ∉ graph.nodes → (optimalPaths sr graph source).get t = none) := by
  let _ := hlaws.idem hone
  have hsr : sr.Reads := ⟨rfl, rfl, fun _ _ => rfl, fun _ _ => rfl⟩
  have hle : ∀ a : T, a ≤ 1 := by
    intro a
    show sr.add a sr.one = sr.one
    rw [hlaws.add_comm, hone]
  have hwf := hbuilt.wf
  have hpaths := get_optimalPaths hlaws.shows hlaws hwf source t
  rw [mapWeights_id, Option.map_id, id] at hpaths
  rw [hpaths, get_transitiveClosure sr graph hsource]
  by_cases ht : t ∈ graph.nodes
  · have hrounds := isWalkSum_rounds hle hsr hwf hsource t
    rw [if_pos (.inr ht), if_pos ht, hrounds.unique (isWalkSum_stages hle hsr hwf hsource ht)]
    rw [hrounds.unique (isWalkSum_stages hle hsr hwf hsource ht)] at hrounds
    exact ⟨rfl, fun _ => ⟨_, rfl, sumsAllWalks_of_isWalkSum hsr hrounds⟩, fun hnot => absurd ht hnot⟩
  · have hnot : ¬ (t = source ∨ t ∈ graph.nodes) := by
      rintro (rfl | hmem)
      · exact ht hsource
      · exact ht hmem
    rw [if_neg hnot, if_neg ht]
    exact ⟨rfl, fun hmem => absurd hmem ht, fun _ => rfl⟩

/-- `CostSemiring`, on whole costs; `none` is `Infinity`. -/
def CostSemiring : SemiringOps (Option Nat) where
  zero := none
  one := some 0
  add
    | some a, some b => some (min a b)
    | some a, none => some a
    | none, b => b
  mul
    | some a, some b => some (a + b)
    | _, _ => none
  eq a b := a == b

theorem costSemiring_lawful : CostSemiring.Lawful where
  add_comm a b := by
    cases a <;> cases b <;> simp [CostSemiring, Nat.min_comm]
  add_assoc a b c := by
    cases a <;> cases b <;> cases c <;> simp [CostSemiring, Nat.min_assoc]
  zero_add _ := rfl
  mul_assoc a b c := by
    cases a <;> cases b <;> cases c <;> simp [CostSemiring, Nat.add_assoc]
  one_mul a := by
    cases a <;> simp [CostSemiring]
  mul_one a := by
    cases a <;> simp [CostSemiring]
  mul_add a b c := by
    cases a <;> cases b <;> cases c <;> simp [CostSemiring]
  add_mul a b c := by
    cases a <;> cases b <;> cases c <;> simp [CostSemiring]
  zero_mul _ := rfl
  mul_zero a := by
    cases a <;> rfl
  eq_sound _ _ h := eq_of_beq h

theorem costSemiring_one_add (a : Option Nat) :
    CostSemiring.add CostSemiring.one a = CostSemiring.one := by
  cases a <;> simp [CostSemiring]

/-- Three nodes on a cycle, and a dear shortcut. -/
def triangle : WeightedDigraph Nat (Option Nat) :=
  ((((WeightedDigraph.empty.addEdge CostSemiring 0 1 (some 1)).addEdge CostSemiring 1 2
    (some 2)).addEdge CostSemiring 2 0 (some 1)).addEdge CostSemiring 0 2 (some 5)).addEdge
      CostSemiring 0 2 (some 4)

theorem traversals_agree_triangle : (optimalPaths CostSemiring triangle 0).get 2 = some (some 3) ∧
    ((transitiveClosure CostSemiring triangle).get 0).bind (fun row => row.get 2) = some (some 3) ∧
    SumsAllWalks CostSemiring triangle 0 2 (some 3) := by
  have hbuilt : Built CostSemiring triangle :=
    .addEdge _ _ _ (.addEdge _ _ _ (.addEdge _ _ _ (.addEdge _ _ _ (.addEdge _ _ _ .empty))))
  obtain ⟨hagree, hsums, -⟩ := traversals_agree costSemiring_lawful costSemiring_one_add hbuilt
    (by decide : 0 ∈ triangle.nodes) 2
  have hget : (optimalPaths CostSemiring triangle 0).get 2 = some (some 3) := by decide
  obtain ⟨x, hx, hall⟩ := hsums (by decide)
  cases hx
  exact ⟨hget, hagree.symm.trans hget, hall⟩

end Motebit.Traversal
