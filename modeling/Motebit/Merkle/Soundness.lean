/-
  Motebit.Merkle.Soundness — WHAT IS ACCEPTED UNDER v2 WAS IN THE TREE.

  The tags keep leaves and nodes apart, and the digest that is climbed with has 32 bytes, which
  pins the split of a node's bytes whatever length its sibling is given.  SHA-256 is asked not
  to collide on the strings that are hashed, and on no others.

  Main results: `merkle_sound`.
-/

import Motebit.Merkle.Completeness

namespace Motebit.Merkle

open Motebit.Lib List
open Motebit.Lib.MerkleTree

variable (H : Hash)

/-! ## §1. What is hashed -/

/-- What `hashLeaf` hashes under v2. -/
def leafInput (entry : ByteArray) : ByteArray := LEAF_TAG_V2 ++ entry

def nodeInput (p : ByteArray × ByteArray) : ByteArray := combined (some NODE_TAG_V2) p.1 p.2

/-- The leaf hashes of entries under v2. -/
def leavesOf (entries : List ByteArray) : List Text :=
  entries.map fun entry => toHex (H.sha256 (leafInput entry))

/-- What `buildMerkleTree` hashes under v2. -/
def builderInputs (leaves : List Text) : List ByteArray :=
  (treePairs (layersFrom (nodeText H (some NODE_TAG_V2)) leaves)).map fun p =>
    nodeInput (fromHex p.1, fromHex p.2)

/-- What the loop of `verifyMerkleInclusion` hashes under v2. -/
def verifierInputs (leaf : Text) (index : Js.Number) (siblings : List Text)
    (layerSizes : List Js.Number) : List ByteArray :=
  (climbPairs (above H (some NODE_TAG_V2)) (pathOf index layerSizes) (siblings.map fromHex)
    (fromHex leaf)).map nodeInput

/-- What is hashed in building the tree and in verifying a proof against it. -/
def hashedInputs (entries : List ByteArray) (e : ByteArray) (leaf : Text) (index : Js.Number)
    (siblings : List Text) (layerSizes : List Js.Number) : List ByteArray :=
  entries.map leafInput ++ builderInputs H (leavesOf H entries) ++
    leafInput e :: verifierInputs H leaf index siblings layerSizes

/-! ## §2. Bytes -/

theorem leafInput_inj {a b : ByteArray} (h : leafInput a = leafInput b) : a = b :=
  (ByteArray.append_right_inj LEAF_TAG_V2).mp h

theorem leafInput_ne_nodeInput (entry : ByteArray) (p : ByteArray × ByteArray) :
    leafInput entry ≠ nodeInput p := by
  intro h
  have hsplit : LEAF_TAG_V2 ++ entry = NODE_TAG_V2 ++ (p.1 ++ p.2) := by
    rw [← ByteArray.append_assoc]
    exact h
  have htags := ByteArray.append_inj_left hsplit rfl
  cases htags

/-- The bytes of a node determine its two digests, where one of either side has 32 bytes. -/
theorem nodeInput_inj {p q : ByteArray × ByteArray} (hp : p.1.size = 32 ∨ p.2.size = 32)
    (hleft : q.1.size = 32) (hright : q.2.size = 32) (h : nodeInput p = nodeInput q) : p = q := by
  have hsame : p.1 ++ p.2 = q.1 ++ q.2 := by
    have hassoc : NODE_TAG_V2 ++ (p.1 ++ p.2) = NODE_TAG_V2 ++ (q.1 ++ q.2) := by
      rw [← ByteArray.append_assoc, ← ByteArray.append_assoc]
      exact h
    exact (ByteArray.append_right_inj NODE_TAG_V2).mp hassoc
  have hparts : p.1 = q.1 ∧ p.2 = q.2 := by
    rcases hp with hsize | hsize
    · exact (ByteArray.append_eq_append_iff_of_size_eq_left (by rw [hsize, hleft])).mp hsame
    · exact (ByteArray.append_eq_append_iff_of_size_eq_right (by rw [hsize, hright])).mp hsame
  exact Prod.ext hparts.1 hparts.2

/-! ## §3. Soundness -/

theorem fromHex_leavesOf (entries : List ByteArray) :
    (leavesOf H entries).map fromHex = entries.map fun entry => H.sha256 (leafInput entry) := by
  unfold leavesOf
  rw [map_map]
  exact map_congr_left fun entry _ => fromHex_toHex _

theorem hashLeaf_v2 (entry : ByteArray) :
    hashLeaf H entry MerkleTreeVersion.rfc6962V2.id = .ok (toHex (H.sha256 (leafInput entry))) :=
  rfl

theorem hashLeaves_v2 (entries : List ByteArray) :
    entries.mapM (fun entry => hashLeaf H entry MerkleTreeVersion.rfc6962V2.id)
      = .ok (leavesOf H entries) := by
  induction entries with
  | nil => rfl
  | cons entry rest ih =>
    rw [mapM_cons, ih, hashLeaf_v2]
    rfl

theorem node_size {entries : List ByteArray} {pairs : List (ByteArray × ByteArray)} {x : ByteArray}
    (h : Node (above H (some NODE_TAG_V2)) ((leavesOf H entries).map fromHex) pairs x) :
    x.size = 32 := by
  cases h with
  | leaf hmem =>
    rw [fromHex_leavesOf] at hmem
    obtain ⟨entry, -, rfl⟩ := mem_map.mp hmem
    exact H.sha256_size _
  | join _ _ _ => exact H.sha256_size _

/-- **Merkle soundness under v2**: where SHA-256 does not collide on what is hashed, whatever
    index, siblings and layer sizes are given, an entry whose leaf hash is accepted against the
    root is one of the entries of the tree. -/
theorem merkle_sound {entries : List ByteArray} {leaves : List Text} {tree : MerkleTree}
    {e : ByteArray} {leaf : Text} {index : Js.Number} {siblings : List Text}
    {layerSizes : List Js.Number}
    (hleaves : entries.mapM (fun entry => hashLeaf H entry MerkleTreeVersion.rfc6962V2.id)
      = .ok leaves) (hbuild : buildMerkleTree H leaves MerkleTreeVersion.rfc6962V2.id = .ok tree)
    (hleaf : hashLeaf H e MerkleTreeVersion.rfc6962V2.id = .ok leaf)
    (hinj : Set.InjOn H.sha256 {x | x ∈ hashedInputs H entries e leaf index siblings layerSizes})
    (hverify : verifyMerkleInclusion H leaf index siblings layerSizes tree.root
      MerkleTreeVersion.rfc6962V2.id = true) : e ∈ entries := by
  rw [hashLeaves_v2] at hleaves
  cases hleaves
  rw [hashLeaf_v2] at hleaf
  cases hleaf
  -- the tree and its root
  have hne : leavesOf H entries ≠ [] := by
    intro hnil
    rw [hnil] at hbuild
    cases hbuild
  obtain ⟨root, htop⟩ := exists_top (nodeText H (some NODE_TAG_V2)) hne
  have hroot : tree.root = root := by
    unfold buildMerkleTree at hbuild
    rw [if_neg (by simpa using hne), nodeTagFor_id] at hbuild
    have htree : MerkleTree.mk ((top (layersFrom (nodeText H (some NODE_TAG_V2))
        (leavesOf H entries))).getD []) _ _ = tree := Except.ok.inj hbuild
    rw [← htree, htop]
    rfl
  have hlayers := layersFrom_map (nodeText H (some NODE_TAG_V2))
    (fromHex_nodeText H (some NODE_TAG_V2)) (leavesOf H entries)
  have htopBytes : top (layersFrom (above H (some NODE_TAG_V2)) ((leavesOf H entries).map fromHex))
      = some (fromHex root) := by
    rw [hlayers, top_map, htop]
    rfl
  have hpairs : ∀ q ∈ treePairs (layersFrom (above H (some NODE_TAG_V2))
      ((leavesOf H entries).map fromHex)), nodeInput q ∈ builderInputs H (leavesOf H entries) := by
    intro q hq
    rw [hlayers, treePairs_map] at hq
    obtain ⟨p, hp, rfl⟩ := mem_map.mp hq
    exact mem_map_of_mem (f := fun p => nodeInput (fromHex p.1, fromHex p.2)) hp
  -- what was climbed
  rw [verifyMerkleInclusion_id, inclusionLoop_climbs, hroot, fromHex_toHex] at hverify
  cases hclimb : climb (above H (some NODE_TAG_V2)) (pathOf index layerSizes)
      (siblings.map fromHex) (H.sha256 (leafInput e)) with
  | none =>
    rw [show tagOf .rfc6962V2 = some NODE_TAG_V2 from rfl, hclimb] at hverify
    cases hverify
  | some current =>
    rw [show tagOf .rfc6962V2 = some NODE_TAG_V2 from rfl, hclimb] at hverify
    have hcurrent : current = fromHex root := by
      rw [← eq_of_beq hverify, fromHex_toHex]
    rw [hcurrent] at hclimb
    have hleafInput : leafInput e ∈ hashedInputs H entries e (toHex (H.sha256 (leafInput e)))
        index siblings layerSizes := by
      unfold hashedInputs
      exact mem_append_right _ mem_cons_self
    have hentryInput : ∀ entry ∈ entries, leafInput entry ∈ hashedInputs H entries e
        (toHex (H.sha256 (leafInput e))) index siblings layerSizes := by
      intro entry hentry
      unfold hashedInputs
      exact mem_append_left _ (mem_append_left _ (mem_map_of_mem hentry))
    have hbuilderInput : ∀ x ∈ builderInputs H (leavesOf H entries), x ∈ hashedInputs H entries e
        (toHex (H.sha256 (leafInput e))) index siblings layerSizes := by
      intro x hx
      unfold hashedInputs
      exact mem_append_left _ (mem_append_right _ hx)
    have hverifierInput : ∀ p ∈ climbPairs (above H (some NODE_TAG_V2)) (pathOf index layerSizes)
        (siblings.map fromHex) (H.sha256 (leafInput e)), nodeInput p ∈ hashedInputs H entries e
          (toHex (H.sha256 (leafInput e))) index siblings layerSizes := by
      intro p hp
      unfold hashedInputs verifierInputs
      rw [fromHex_toHex]
      exact mem_append_right _ (mem_cons_of_mem _ (mem_map_of_mem hp))
    have hnode := climb_sound hclimb (node_top htopBytes) ?_ ?_
    · -- the leaf hash is a node of the tree, and no join
      generalize hvalue : H.sha256 (leafInput e) = value at hnode
      cases hnode with
      | leaf hmem =>
        rw [fromHex_leavesOf] at hmem
        obtain ⟨entry, hentry, hsame⟩ := mem_map.mp hmem
        have hinput := hinj (hentryInput entry hentry) hleafInput (hsame.trans hvalue.symm)
        rw [← leafInput_inj hinput]
        exact hentry
      | @join left right hmem _ _ =>
        have hinput := hinj hleafInput (hbuilderInput _ (hpairs _ hmem)) hvalue
        exact absurd hinput (leafInput_ne_nodeInput e (left, right))
    · -- no join on the way is a leaf of the tree
      intro p hp hmem
      rw [fromHex_leavesOf] at hmem
      obtain ⟨entry, hentry, hsame⟩ := mem_map.mp hmem
      exact leafInput_ne_nodeInput entry p
        (hinj (hentryInput entry hentry) (hverifierInput p hp) hsame)
    · -- a join that is one of the tree joins the same two
      intro p hp q hq hsame
      have hinput := hinj (hverifierInput p hp) (hbuilderInput _ (hpairs q hq)) hsame
      obtain ⟨hleft, hright⟩ := node_treePairs hq
      refine nodeInput_inj ?_ (node_size H hleft) (node_size H hright) hinput
      exact climbPairs_of (P := fun x => x.size = 32) (fun _ _ => H.sha256_size _)
        (H.sha256_size _) p hp

/-- A hash that does not collide on short strings: the first 31 bytes, and the length. -/
def prefixHash : Hash where
  sha256 x := ((x.data.toList ++ List.replicate 31 0).take 31 ++ [UInt8.ofNat x.size]).toByteArray
  sha256_size x := by
    rw [size_toByteArray, length_append, length_take, length_append,
      length_replicate, length_singleton]
    omega

/-- Two entries, and a proof for the second. -/
theorem merkle_sound_two : [2].toByteArray ∈ [[1].toByteArray, [2].toByteArray] := by
  have hlayers : ∀ a b : Text, layersFrom (nodeText prefixHash (some NODE_TAG_V2)) [a, b]
      = [[a, b], [nodeText prefixHash (some NODE_TAG_V2) a b]] := by
    intro a b
    rw [layersFrom, if_pos (show 1 < [a, b].length from Nat.lt_succ_self 1), pairUp, pairUp,
      layersFrom, if_neg (show ¬ 1 < [nodeText prefixHash (some NODE_TAG_V2) a b].length from
        Nat.lt_irrefl 1)]
  have hpath : pathOf (.ofNat 1) [.ofNat 2] = [some .right] := pathOf_ofNat 1 [2]
  have hleaves : leavesOf prefixHash [[1].toByteArray, [2].toByteArray]
      = [toHex (prefixHash.sha256 (leafInput [1].toByteArray)),
        toHex (prefixHash.sha256 (leafInput [2].toByteArray))] := rfl
  have hbuild : buildMerkleTree prefixHash (leavesOf prefixHash [[1].toByteArray, [2].toByteArray])
      MerkleTreeVersion.rfc6962V2.id = .ok ⟨_, _, _⟩ := rfl
  refine @merkle_sound prefixHash [[1].toByteArray, [2].toByteArray] _ _ [2].toByteArray _
    (.ofNat 1) [toHex (prefixHash.sha256 (leafInput [1].toByteArray))] [.ofNat 2]
    (hashLeaves_v2 _ _) hbuild (hashLeaf_v2 _ _) ?_ ?_
  · obtain ⟨inputs, hlist⟩ : ∃ l, l = [leafInput [1].toByteArray, leafInput [2].toByteArray,
        nodeInput (prefixHash.sha256 (leafInput [1].toByteArray),
          prefixHash.sha256 (leafInput [2].toByteArray)), leafInput [2].toByteArray,
        nodeInput (prefixHash.sha256 (leafInput [1].toByteArray),
          prefixHash.sha256 (leafInput [2].toByteArray))] := ⟨_, rfl⟩
    have hinputs : hashedInputs prefixHash [[1].toByteArray, [2].toByteArray] [2].toByteArray
        (toHex (prefixHash.sha256 (leafInput [2].toByteArray))) (.ofNat 1)
        [toHex (prefixHash.sha256 (leafInput [1].toByteArray))] [.ofNat 2] = inputs := by
      rw [hlist]
      unfold hashedInputs builderInputs verifierInputs
      rw [hpath, hleaves, hlayers]
      simp [treePairs, neighbours, climbPairs, Side.pair]
    have hall : ∀ x ∈ inputs, ∀ y ∈ inputs,
        prefixHash.sha256 x = prefixHash.sha256 y → x = y := by
      rw [hlist]
      decide
    rw [hinputs]
    exact fun x hx y hy => hall x hx y hy
  · rw [show MerkleTreeVersion.rfc6962V2.id = MerkleTreeVersion.id .rfc6962V2 from rfl,
      verifyMerkleInclusion_id, inclusionLoop_climbs, hpath, fromHex_toHex]
    show (toHex (above prefixHash (some NODE_TAG_V2) (fromHex (toHex _)) (prefixHash.sha256 _))
      == (top (layersFrom (nodeText prefixHash (some NODE_TAG_V2)) (leavesOf prefixHash _))).getD [])
        = true
    rw [hleaves, hlayers, fromHex_toHex]
    show (toHex (above prefixHash (some NODE_TAG_V2) _ _)
      == nodeText prefixHash (some NODE_TAG_V2) (toHex _) (toHex _)) = true
    unfold nodeText
    rw [fromHex_toHex, fromHex_toHex]
    exact beq_self_eq_true _

end Motebit.Merkle
