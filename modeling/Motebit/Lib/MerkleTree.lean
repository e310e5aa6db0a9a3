/-
  Motebit.Lib.MerkleTree — TREES OF DIGESTS, an odd last node promoted.

  A layer is joined pairwise into the next one, up to a layer of one node, the root.  A path
  from a leaf says at each layer on which side the node stands, or that it is promoted; a
  verifier climbs it with the siblings it is given.

  Main results: `climb_layers`, `climb_sound`.
-/

import Mathlib.Tactic.Common

namespace Motebit.Lib.MerkleTree

open List

variable {β γ : Type} (combine : β → β → β)

/-! ## §1. Layers -/

/-- The next layer: neighbours joined, an odd last node promoted. -/
def pairUp : List β → List β
  | left :: right :: rest => combine left right :: pairUp rest
  | [odd] => [odd]
  | [] => []

theorem length_pairUp (layer : List β) : (pairUp combine layer).length = (layer.length + 1) / 2 := by
  fun_induction pairUp combine layer with
  | case1 left right rest ih =>
    simp only [length_cons, ih]
    omega
  | case2 | case3 => simp

def layersFrom (layer : List β) : List (List β) :=
  if 1 < layer.length then layer :: layersFrom (pairUp combine layer) else [layer]
termination_by layer.length
decreasing_by
  rw [length_pairUp]
  omega

theorem layersFrom_ne_nil (layer : List β) : layersFrom combine layer ≠ [] := by
  rw [layersFrom]
  split <;> exact cons_ne_nil _ _

def top (layers : List (List β)) : Option β := layers.getLast?.bind List.head?

variable {layer : List β}

theorem top_cons {layers : List (List β)} (h : layers ≠ []) :
    top (layer :: layers) = top layers := by
  unfold top
  rw [getLast?_cons, getLast?_eq_some_getLast h]
  rfl

theorem exists_top (hne : layer ≠ []) : ∃ root, top (layersFrom combine layer) = some root := by
  fun_induction layersFrom combine layer with
  | case1 layer hlong ih =>
    rw [top_cons (layersFrom_ne_nil combine _)]
    refine ih fun hnil => ?_
    have hlength := length_pairUp combine layer
    rw [hnil, length_nil] at hlength
    omega
  | case2 layer hshort =>
    obtain ⟨first, rest, rfl⟩ := exists_cons_of_ne_nil hne
    exact ⟨first, rfl⟩

theorem getElem?_pairUp {j : Nat} {left : β} (h : layer[2 * j]? = some left) :
    (pairUp combine layer)[j]? = some (match layer[2 * j + 1]? with
      | some right => combine left right
      | none => left) := by
  induction layer using pairUp.induct generalizing j with
  | case1 a b rest ih =>
    cases j with
    | zero =>
      cases h
      rfl
    | succ j =>
      have hstep : 2 * (j + 1) = 2 * j + 1 + 1 := by omega
      rw [hstep] at h ⊢
      simp only [getElem?_cons_succ, pairUp] at h ⊢
      exact ih h
  | case2 =>
    cases j with
    | zero =>
      cases h
      rfl
    | succ j =>
      have hstep : 2 * (j + 1) = 2 * j + 1 + 1 := by omega
      rw [hstep] at h
      cases h
  | case3 => cases h

theorem layersFrom_map {combine' : γ → γ → γ} {f : β → γ}
    (h : ∀ a b, f (combine a b) = combine' (f a) (f b)) (layer : List β) :
    layersFrom combine' (layer.map f) = (layersFrom combine layer).map (List.map f) := by
  have hpair : ∀ l : List β, pairUp combine' (l.map f) = (pairUp combine l).map f := by
    intro l
    fun_induction pairUp combine l with
    | case1 left right rest ih => simp [pairUp, ih, h]
    | case2 | case3 => rfl
  fun_induction layersFrom combine layer with
  | case1 layer hlong ih =>
    rw [layersFrom, if_pos (by simpa using hlong), hpair, ih]
    rfl
  | case2 layer hshort =>
    rw [layersFrom, if_neg (by simpa using hshort)]
    rfl

/-! ## §2. Paths -/

/-- The side of its sibling on which a node stands. -/
inductive Side
  | left | right
  deriving DecidableEq

def Side.join : Side → β → β → β
  | .left, node, sibling => combine node sibling
  | .right, node, sibling => combine sibling node

def Side.pair : Side → β → β → β × β
  | .left, node, sibling => (node, sibling)
  | .right, node, sibling => (sibling, node)

def siblingOf (i : Nat) : Nat := if i % 2 = 0 then i + 1 else i - 1

/-- Where the node at `i` of a layer of `n` stands; `none` is a promotion. -/
def sideOf (i n : Nat) : Option Side :=
  if siblingOf i < n then some (if i % 2 = 0 then .left else .right) else none

/-- The sides on the way up, from the sizes of the layers. -/
def sides : Nat → List Nat → List (Option Side)
  | _, [] => []
  | i, size :: sizes => sideOf i size :: sides (i / 2) sizes

/-- The siblings on the way up. -/
def siblingsOf : Nat → List (List β) → List β
  | _, [] => []
  | i, layer :: layers => layer[siblingOf i]?.toList ++ siblingsOf (i / 2) layers

theorem siblingsOf_map (f : β → γ) (i : Nat) (layers : List (List β)) :
    siblingsOf i (layers.map (List.map f)) = (siblingsOf i layers).map f := by
  induction layers generalizing i with
  | nil => rfl
  | cons layer layers ih =>
    rw [map_cons, siblingsOf, siblingsOf, ih, map_append, getElem?_map]
    cases layer[siblingOf i]? <;> rfl

theorem top_map (f : β → γ) (layers : List (List β)) :
    top (layers.map (List.map f)) = (top layers).map f := by
  unfold top
  rw [getLast?_map]
  cases layers.getLast? with
  | none => rfl
  | some => exact head?_map

/-- The way up with given siblings; `none` where they run out. -/
def climb : List (Option Side) → List β → β → Option β
  | [], _, node => some node
  | none :: path, siblings, node => climb path siblings node
  | some _ :: _, [], _ => none
  | some side :: path, sibling :: siblings, node =>
    climb path siblings (side.join combine node sibling)

/-- The pairs joined on the way up. -/
def climbPairs : List (Option Side) → List β → β → List (β × β)
  | [], _, _ => []
  | none :: path, siblings, node => climbPairs path siblings node
  | some _ :: _, [], _ => []
  | some side :: path, sibling :: siblings, node =>
    side.pair node sibling :: climbPairs path siblings (side.join combine node sibling)

/-- **Every leaf's path climbs to the root.** -/
theorem climb_layers {i : Nat} {node : β} (h : layer[i]? = some node) :
    climb combine (sides i ((layersFrom combine layer).dropLast.map List.length))
      (siblingsOf i (layersFrom combine layer).dropLast) node = top (layersFrom combine layer) := by
  fun_induction layersFrom combine layer generalizing i node with
  | case1 layer hlong ih =>
    have hne := layersFrom_ne_nil combine (pairUp combine layer)
    have hi : i < layer.length := (List.getElem?_eq_some_iff.mp h).1
    rw [dropLast_cons_of_ne_nil hne, top_cons hne, map_cons, sides, siblingsOf]
    by_cases heven : i % 2 = 0
    · have hplace : layer[2 * (i / 2)]? = some node := by
        rw [show 2 * (i / 2) = i by omega]
        exact h
      have hnext := getElem?_pairUp combine hplace
      rw [show 2 * (i / 2) + 1 = i + 1 by omega] at hnext
      have hsibling : siblingOf i = i + 1 := if_pos heven
      by_cases hlt : i + 1 < layer.length
      · -- a left node with its sibling
        rw [getElem?_eq_getElem hlt] at hnext
        rw [sideOf, hsibling, if_pos hlt, if_pos heven, getElem?_eq_getElem hlt]
        exact ih hnext
      · -- the odd last node is promoted
        have hnone : layer[i + 1]? = none := getElem?_eq_none (by omega)
        rw [hnone] at hnext
        rw [sideOf, hsibling, if_neg hlt, hnone]
        exact ih hnext
    · -- a right node with its sibling
      have hlt : i - 1 < layer.length := by omega
      have hplace : layer[2 * (i / 2)]? = some layer[i - 1] := by
        rw [show 2 * (i / 2) = i - 1 by omega, getElem?_eq_getElem hlt]
      have hnext := getElem?_pairUp combine hplace
      rw [show 2 * (i / 2) + 1 = i by omega, h] at hnext
      have hsibling : siblingOf i = i - 1 := if_neg heven
      rw [sideOf, hsibling, if_pos hlt, if_neg heven, getElem?_eq_getElem hlt]
      exact ih hnext
  | case2 layer hshort =>
    have hi : i < layer.length := (List.getElem?_eq_some_iff.mp h).1
    have hzero : i = 0 := by omega
    subst hzero
    cases layer with
    | nil => cases h
    | cons =>
      cases h
      rfl

/-! ## §3. Soundness -/

def neighbours : List β → List (β × β)
  | left :: right :: rest => (left, right) :: neighbours rest
  | _ => []

def treePairs (layers : List (List β)) : List (β × β) := layers.flatMap neighbours

theorem treePairs_map (f : β → γ) (layers : List (List β)) :
    treePairs (layers.map (List.map f)) = (treePairs layers).map (Prod.map f f) := by
  have hlayer : ∀ l : List β, neighbours (l.map f) = (neighbours l).map (Prod.map f f) := by
    intro l
    fun_induction neighbours l with
    | case1 left right rest ih => simp [neighbours, ih]
    | case2 l hshort =>
      match l, hshort with
      | [], _ => rfl
      | [_], _ => rfl
      | left :: right :: rest, hshort => exact absurd rfl (hshort left right rest)
  unfold treePairs
  rw [flatMap_map, map_flatMap]
  simp only [hlayer]

theorem mem_of_neighbours {p : β × β} (h : p ∈ neighbours layer) : p.1 ∈ layer ∧ p.2 ∈ layer := by
  fun_induction neighbours layer with
  | case1 left right rest ih =>
    rcases mem_cons.mp h with rfl | h
    · exact ⟨mem_cons_self, mem_cons_of_mem _ mem_cons_self⟩
    · obtain ⟨hleft, hright⟩ := ih h
      exact ⟨mem_cons_of_mem _ (mem_cons_of_mem _ hleft),
        mem_cons_of_mem _ (mem_cons_of_mem _ hright)⟩
  | case2 => cases h

/-- A node of a tree: a leaf, or a join of two nodes. -/
inductive Node (leaves : List β) (pairs : List (β × β)) : β → Prop
  | leaf {x : β} : x ∈ leaves → Node leaves pairs x
  | join {left right : β} : (left, right) ∈ pairs → Node leaves pairs left →
      Node leaves pairs right → Node leaves pairs (combine left right)

variable {combine} {leaves : List β} {pairs : List (β × β)}

variable {path : List (Option Side)} {siblings : List β}

theorem climbPairs_of {P : β → Prop} (hjoin : ∀ a b, P (combine a b)) {node : β} (hnode : P node) :
    ∀ p ∈ climbPairs combine path siblings node, P p.1 ∨ P p.2 := by
  fun_induction climbPairs combine path siblings node with
  | case1 => nofun
  | case2 path siblings node ih => exact ih hnode
  | case3 => nofun
  | case4 side path sibling siblings node ih =>
    intro p hp
    rcases mem_cons.mp hp with rfl | hp
    · cases side with
      | left => exact .inl hnode
      | right => exact .inr hnode
    · refine ih ?_ p hp
      cases side <;> exact hjoin _ _

theorem node_pairUp (hnodes : ∀ x ∈ layer, Node combine leaves pairs x)
    (hpairs : ∀ p ∈ neighbours layer, p ∈ pairs) :
    ∀ x ∈ pairUp combine layer, Node combine leaves pairs x := by
  fun_induction pairUp combine layer with
  | case1 left right rest ih =>
    intro x hx
    rcases mem_cons.mp hx with rfl | hx
    · refine .join (hpairs _ mem_cons_self) (hnodes left mem_cons_self) ?_
      exact hnodes right (mem_cons_of_mem _ mem_cons_self)
    · refine ih (fun y hy => hnodes y ?_) (fun p hp => hpairs p ?_) x hx
      · exact mem_cons_of_mem _ (mem_cons_of_mem _ hy)
      · exact mem_cons_of_mem _ hp
  | case2 | case3 => exact hnodes

theorem node_layers {layer : List β} (hnodes : ∀ x ∈ layer, Node combine leaves pairs x)
    (hpairs : ∀ p ∈ treePairs (layersFrom combine layer), p ∈ pairs) :
    ∀ l ∈ layersFrom combine layer, ∀ x ∈ l, Node combine leaves pairs x := by
  fun_induction layersFrom combine layer with
  | case1 layer hlong ih =>
    have hhere : ∀ p ∈ neighbours layer, p ∈ pairs := fun p hp =>
      hpairs p (mem_flatMap.mpr ⟨layer, mem_cons_self, hp⟩)
    intro l hl
    rcases mem_cons.mp hl with rfl | hl
    · exact hnodes
    · refine ih (node_pairUp hnodes hhere) (fun p hp => hpairs p ?_) l hl
      obtain ⟨above, habove, hp⟩ := mem_flatMap.mp hp
      exact mem_flatMap.mpr ⟨above, mem_cons_of_mem _ habove, hp⟩
  | case2 layer hshort =>
    intro l hl
    rw [mem_singleton.mp hl]
    exact hnodes

theorem node_top {root : β} (h : top (layersFrom combine leaves) = some root) :
    Node combine leaves (treePairs (layersFrom combine leaves)) root := by
  obtain ⟨last, hlast, hhead⟩ := Option.bind_eq_some_iff.mp h
  refine node_layers (fun x hx => .leaf hx) (fun _ hp => hp) last ?_ root ?_
  · exact mem_of_getLast? hlast
  · exact mem_of_head? hhead

theorem node_treePairs {p : β × β} (h : p ∈ treePairs (layersFrom combine leaves)) :
    Node combine leaves (treePairs (layersFrom combine leaves)) p.1 ∧
      Node combine leaves (treePairs (layersFrom combine leaves)) p.2 := by
  obtain ⟨layer, hlayer, hp⟩ := mem_flatMap.mp h
  obtain ⟨hleft, hright⟩ := mem_of_neighbours hp
  have hnodes := @node_layers β combine leaves _ leaves (fun x hx => .leaf hx) (fun _ hq => hq)
    layer hlayer
  exact ⟨hnodes _ hleft, hnodes _ hright⟩

/-- **What climbs to a node is a node**, where no join on the way is a leaf of the tree, and a
    join that is one of the tree joins the same two. -/
theorem climb_sound {node root : β}
    (hclimb : climb combine path siblings node = some root) (hroot : Node combine leaves pairs root)
    (hleaf : ∀ p ∈ climbPairs combine path siblings node, combine p.1 p.2 ∉ leaves)
    (hjoin : ∀ p ∈ climbPairs combine path siblings node, ∀ q ∈ pairs,
      combine p.1 p.2 = combine q.1 q.2 → p = q) : Node combine leaves pairs node := by
  induction path generalizing siblings node with
  | nil =>
    cases hclimb
    exact hroot
  | cons side path ih =>
    cases side with
    | none => exact ih hclimb hleaf hjoin
    | some side =>
      cases siblings with
      | nil => cases hclimb
      | cons sibling =>
        have hpair : side.join combine node sibling
            = combine (side.pair node sibling).1 (side.pair node sibling).2 := by
          cases side <;> rfl
        have habove : Node combine leaves pairs (side.join combine node sibling) :=
          ih hclimb (fun p hp => hleaf p (mem_cons_of_mem _ hp))
            fun p hp => hjoin p (mem_cons_of_mem _ hp)
        rw [hpair] at habove
        -- the node above is a join of the tree, and it joins the same two
        generalize hvalue : combine (side.pair node sibling).1 (side.pair node sibling).2 = value
          at habove
        cases habove with
        | leaf hmem =>
          rw [← hvalue] at hmem
          exact absurd hmem (hleaf _ mem_cons_self)
        | @join left right hmem hleft hright =>
          have hsame := hjoin _ mem_cons_self _ hmem hvalue
          cases side with
          | left =>
            rw [(Prod.mk.inj hsame).1]
            exact hleft
          | right =>
            rw [(Prod.mk.inj hsame).2]
            exact hright

end Motebit.Lib.MerkleTree
