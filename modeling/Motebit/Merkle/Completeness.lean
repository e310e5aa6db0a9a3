/-
  Motebit.Merkle.Completeness — HONEST PROOFS ARE ACCEPTED, in both packages.

  Both loops climb the same path, which index and layer sizes determine whatever they are.  A
  tree of texts is a tree of bytes behind `fromHex`, and texts of its nodes read back.

  Main results: `inclusionLoop_climbs`, `verifiers_agree`, `merkle_complete`.
-/

import Motebit.Merkle.Model
import Motebit.Roster.Model

namespace Motebit.Merkle

open Motebit.Lib List
open Motebit.Lib.MerkleTree Js.Number

variable (H : Hash) (nodeTag : Option ByteArray)

/-! ## §1. The path -/

/-- The digest above a pair. -/
def above (left right : ByteArray) : ByteArray := H.sha256 (combined nodeTag left right)

/-- The sides that an index and layer sizes of any kind make. -/
def pathOf : Js.Number → List Js.Number → List (Option Side)
  | _, [] => []
  | idx, layerSize :: layerSizes =>
    let siblingPos := if idx.isEven then idx.add 1 else idx.add (-1)
    (if (siblingPos.isNonNegative && siblingPos.lt layerSize) = true then
      some (if idx.isEven then .left else .right)
    else none) :: pathOf idx.floorHalf layerSizes

/-- **The loop climbs its path.** -/
theorem inclusionLoop_climbs (layerSizes : List Js.Number) (idx : Js.Number) (siblings : List Text)
    (current : ByteArray) : inclusionLoop H nodeTag idx siblings current layerSizes
      = climb (above H nodeTag) (pathOf idx layerSizes) (siblings.map fromHex) current := by
  induction layerSizes generalizing idx siblings current with
  | nil => rfl
  | cons layerSize layerSizes ih =>
    rw [inclusionLoop.eq_def, pathOf]
    by_cases hsibling : ((if idx.isEven = true then idx.add 1 else idx.add (-1)).isNonNegative &&
        (if idx.isEven = true then idx.add 1 else idx.add (-1)).lt layerSize) = true
    · simp only [if_pos hsibling]
      cases siblings with
      | nil => rfl
      | cons =>
        dsimp only
        rw [ih, map_cons]
        cases idx.isEven <;> rfl
    · simp only [if_neg hsibling]
      rw [ih]
      rfl

theorem proofLoop_eq (layerSizes : List Js.Number) (idx : Js.Number) (siblings : List Text)
    (current : ByteArray) : proofLoop H nodeTag layerSizes idx siblings current
      = inclusionLoop H nodeTag idx siblings current layerSizes := by
  induction layerSizes generalizing idx siblings current with
  | nil => rfl
  | cons layerSize layerSizes ih =>
    rw [proofLoop.eq_def, inclusionLoop.eq_def]
    by_cases hsibling : ((if idx.isEven = true then idx.add 1 else idx.add (-1)).isNonNegative &&
        (if idx.isEven = true then idx.add 1 else idx.add (-1)).lt layerSize) = true
    · simp only [if_pos hsibling]
      cases siblings with
      | nil => rfl
      | cons => exact ih ..
    · simp only [if_neg hsibling]
      exact ih ..

/-- **The two verifiers answer alike**, on every proof, root and version. -/
theorem verifiers_agree (proof : MerkleProof) (expectedRoot : Text) (version : String) :
    verifyMerkleInclusion H proof.leaf proof.index proof.siblings proof.layerSizes expectedRoot
        version = verifyMerkleProof H proof expectedRoot version := by
  unfold verifyMerkleInclusion verifyMerkleProof
  simp only [proofLoop_eq]

theorem pathOf_ofNat (i : Nat) (sizes : List Nat) :
    pathOf (.ofNat i) (sizes.map ofNat) = sides i sizes := by
  induction sizes generalizing i with
  | nil => rfl
  | cons size sizes ih =>
    have hpos : (if (ofNat i).isEven = true then (ofNat i).add 1
        else (ofNat i).add (-1)) = .ofNat (siblingOf i) := by
      rw [isEven_ofNat]
      unfold siblingOf
      by_cases heven : i % 2 = 0
      · rw [if_pos (decide_eq_true heven), if_pos heven, add_one_ofNat]
      · rw [if_neg (by simpa using heven), if_neg heven, sub_one_ofNat (by omega)]
    rw [map_cons, pathOf, sides, floorHalf_ofNat, ih]
    rw [hpos, isNonNegative_ofNat, lt_ofNat, Bool.true_and, isEven_ofNat]
    unfold sideOf
    simp only [decide_eq_true_eq]

/-! ## §2. Trees of texts -/

theorem fromHex_nodeText (left right : Text) :
    fromHex (nodeText H nodeTag left right) = above H nodeTag (fromHex left) (fromHex right) :=
  fromHex_toHex _

theorem toHex_fromHex_hex32 {s : Text} (h : Roster.isHex32 s = true) : toHex (fromHex s) = s := by
  unfold Roster.isHex32 at h
  rw [Bool.and_eq_true, beq_iff_eq, all_eq_true] at h
  refine @toHex_fromHex s 32 h.1 fun u hu => ?_
  have hdigit := h.2 u hu
  unfold Roster.isLowerHexUnit at hdigit
  simpa [isLowerDigit] using hdigit

variable {leaves : List Text}

theorem node_reads_back {pairs : List (Text × Text)}
    (hleaves : ∀ leaf ∈ leaves, toHex (fromHex leaf) = leaf) {x : Text}
    (h : Node (nodeText H nodeTag) leaves pairs x) : toHex (fromHex x) = x := by
  cases h with
  | leaf hmem => exact hleaves x hmem
  | join =>
    rw [fromHex_nodeText]
    rfl

theorem inclusionLoop_proof {i : Nat} {leaf : Text} (h : leaves[i]? = some leaf) :
    inclusionLoop H nodeTag (.ofNat i)
      (siblingsOf i (layersFrom (nodeText H nodeTag) leaves).dropLast) (fromHex leaf)
      ((layersFrom (nodeText H nodeTag) leaves).dropLast.map fun layer => .ofNat layer.length)
        = (top (layersFrom (nodeText H nodeTag) leaves)).map fromHex := by
  have hlayers := layersFrom_map (nodeText H nodeTag) (fromHex_nodeText H nodeTag) leaves
  have hleaf : (leaves.map fromHex)[i]? = some (fromHex leaf) := by
    rw [getElem?_map, h]
    rfl
  have hclimb := climb_layers (above H nodeTag) hleaf
  rw [hlayers, top_map, ← map_dropLast, siblingsOf_map, map_map] at hclimb
  have hsizes : (layersFrom (nodeText H nodeTag) leaves).dropLast.map
      (fun layer => ofNat layer.length)
        = ((layersFrom (nodeText H nodeTag) leaves).dropLast.map List.length).map ofNat := by
    rw [map_map]
    rfl
  have hlengths : (List.length ∘ List.map fromHex : List Text → Nat) = List.length := by
    funext layer
    exact length_map ..
  rw [inclusionLoop_climbs, hsizes, pathOf_ofNat, ← hclimb, hlengths]

/-! ## §3. Completeness -/

def tagOf : MerkleTreeVersion → Option ByteArray
  | .plainV1 => none
  | .rfc6962V2 => some NODE_TAG_V2

theorem nodeTagFor_id (v : MerkleTreeVersion) : nodeTagFor v.id = .ok (tagOf v) := by
  cases v <;> rfl

theorem verifyMerkleInclusion_id (v : MerkleTreeVersion) (leaf : Text) (index : Js.Number)
    (siblings : List Text) (layerSizes : List Js.Number) (expectedRoot : Text) :
    verifyMerkleInclusion H leaf index siblings layerSizes expectedRoot v.id
      = match inclusionLoop H (tagOf v) index siblings (fromHex leaf) layerSizes with
        | some current => toHex current == expectedRoot
        | none => false := by
  cases v <;> rfl

/-- **Every leaf's proof is accepted by both verifiers.** -/
theorem proof_accepted (hne : leaves ≠ [])
    (hhex : ∀ leaf ∈ leaves, Roster.isHex32 leaf = true) (v : MerkleTreeVersion) {i : Nat}
    (hi : i < leaves.length) :
    ∃ tree proof, buildMerkleTree H leaves v.id = .ok tree ∧ getMerkleProof tree i = .ok proof ∧
      verifyMerkleProof H proof tree.root v.id = true ∧
      verifyMerkleInclusion H proof.leaf proof.index proof.siblings proof.layerSizes tree.root
        v.id = true := by
  obtain ⟨root, htop⟩ := exists_top (nodeText H (tagOf v)) hne
  have hleaf : leaves[i]? = some leaves[i] := getElem?_eq_getElem hi
  have hbuild : buildMerkleTree H leaves v.id
      = .ok ⟨root, leaves, layersFrom (nodeText H (tagOf v)) leaves⟩ := by
    unfold buildMerkleTree
    rw [if_neg (by simpa using hne), nodeTagFor_id]
    show Except.ok (MerkleTree.mk ((top (layersFrom (nodeText H (tagOf v)) leaves)).getD []) _ _) = _
    rw [htop]
    rfl
  have hproof : getMerkleProof ⟨root, leaves, layersFrom (nodeText H (tagOf v)) leaves⟩ i
      = .ok ⟨leaves[i], .ofNat i, siblingsOf i (layersFrom (nodeText H (tagOf v)) leaves).dropLast,
        (layersFrom (nodeText H (tagOf v)) leaves).dropLast.map fun layer =>
          .ofNat layer.length⟩ := by
    unfold getMerkleProof
    rw [if_neg (by simp only [not_or]; omega)]
    simp only [Int.toNat_natCast, hleaf, Option.getD_some]
  have hroot : toHex (fromHex root) = root :=
    node_reads_back H (tagOf v) (fun leaf h => toHex_fromHex_hex32 (hhex leaf h)) (node_top htop)
  refine ⟨_, _, hbuild, hproof, ?_⟩
  rw [← verifiers_agree, and_self, verifyMerkleInclusion_id]
  rw [inclusionLoop_proof H (tagOf v) hleaf, htop]
  show (toHex (fromHex root) == root) = true
  rw [hroot, beq_self_eq_true]

/-- **Merkle completeness across the two packages**: of every non-empty list of 64-digit leaves,
    under both versions, every leaf's proof is accepted by both verifiers; and they answer alike
    on every proof, root and version. -/
theorem merkle_complete (H : Hash) :
    (∀ (leaves : List Text) (v : MerkleTreeVersion) (i : Nat), leaves ≠ [] →
      (∀ leaf ∈ leaves, Roster.isHex32 leaf = true) → i < leaves.length →
      ∃ tree proof, buildMerkleTree H leaves v.id = .ok tree ∧
        getMerkleProof tree i = .ok proof ∧
        verifyMerkleProof H proof tree.root v.id = true ∧
        verifyMerkleInclusion H proof.leaf proof.index proof.siblings proof.layerSizes tree.root
          v.id = true) ∧
    ∀ (proof : MerkleProof) (expectedRoot : Text) (version : String),
      verifyMerkleInclusion H proof.leaf proof.index proof.siblings proof.layerSizes expectedRoot
        version = verifyMerkleProof H proof expectedRoot version := by
  refine ⟨?_, verifiers_agree H⟩
  intro leaves v i hne hhex hi
  exact proof_accepted H hne hhex v hi

def zeros : Hash where
  sha256 _ := (List.replicate 32 0).toByteArray
  sha256_size _ := by simp [size_toByteArray]

/-- Three leaves, the odd one at the end. -/
theorem merkle_complete_three :
    ∃ tree proof, buildMerkleTree zeros (List.replicate 3 (List.replicate 64 48))
        MerkleTreeVersion.rfc6962V2.id = .ok tree ∧
      getMerkleProof tree (2 : Nat) = .ok proof ∧
      verifyMerkleProof zeros proof tree.root MerkleTreeVersion.rfc6962V2.id = true ∧
      verifyMerkleInclusion zeros proof.leaf proof.index proof.siblings proof.layerSizes tree.root
        MerkleTreeVersion.rfc6962V2.id = true := by
  refine (merkle_complete zeros).1 _ .rfc6962V2 2 (by decide) ?_ (by decide)
  intro leaf hleaf
  rw [eq_of_mem_replicate hleaf]
  decide

end Motebit.Merkle
