/-
  Motebit.Merkle.Model — THE MERKLE TREES of anchored artifacts, in two packages.

  Translated from `packages/encryption/src/merkle.ts` (the builder, the prover and a verifier)
  and `packages/crypto/src/merkle.ts` (leaf hashing and the offline verifier, kept in sync by
  hand).  SHA-256 is a parameter.
-/

import Motebit.Lib.HexText
import Motebit.Lib.JsNumber
import Motebit.Lib.MerkleTree
import Motebit.Signing.Canonical

namespace Motebit.Merkle

open Motebit.Lib
open Motebit.Lib.MerkleTree (layersFrom siblingsOf top)

/-! ## §1. Versions and hashes -/

inductive MerkleTreeVersion
  | plainV1 | rfc6962V2
  deriving DecidableEq

/-- The version's identifier. -/
def MerkleTreeVersion.id : MerkleTreeVersion → String
  | .plainV1 => "merkle-sha256-plain-v1"
  | .rfc6962V2 => "merkle-sha256-rfc6962-v2"

structure Hash where
  sha256 : ByteArray → ByteArray
  sha256_size : ∀ bytes, (sha256 bytes).size = 32

def LEAF_TAG_V2 : ByteArray := [0x00].toByteArray

def NODE_TAG_V2 : ByteArray := [0x01].toByteArray

/-- The error of a version that is not implemented. -/
def unsupported (version : String) : String := "Unsupported MerkleTreeVersion: " ++ version

def combined (nodeTag : Option ByteArray) (left right : ByteArray) : ByteArray :=
  match nodeTag with
  | some tag => tag ++ left ++ right
  | none => left ++ right

variable (H : Hash)

/-! ## §2. `@motebit/encryption` -/

def nodeTagFor (version : String) : Except String (Option ByteArray) :=
  if version = MerkleTreeVersion.plainV1.id then .ok none
  else if version = MerkleTreeVersion.rfc6962V2.id then .ok (some NODE_TAG_V2)
  else .error (unsupported version)

structure MerkleTree where
  root : Text
  leaves : List Text
  layers : List (List Text)

structure MerkleProof where
  leaf : Text
  index : Js.Number
  siblings : List Text
  layerSizes : List Js.Number

/-- The node above a pair. -/
def nodeText (nodeTag : Option ByteArray) (left right : Text) : Text :=
  toHex (H.sha256 (combined nodeTag (fromHex left) (fromHex right)))

def buildMerkleTree (leaves : List Text) (treeHashVersion : String) : Except String MerkleTree :=
  if leaves.isEmpty then .error "Cannot build Merkle tree from empty leaf set"
  else do
    let nodeTag ← nodeTagFor treeHashVersion
    let layers := layersFrom (nodeText H nodeTag) leaves
    .ok { root := (top layers).getD [], leaves := leaves, layers := layers }

def getMerkleProof (tree : MerkleTree) (leafIndex : Int) : Except String MerkleProof :=
  if leafIndex < 0 ∨ leafIndex ≥ tree.leaves.length then
    .error ("Leaf index " ++ toString leafIndex ++ " out of range [0, " ++
      toString tree.leaves.length ++ ")")
  else
    -- every layer but the last, which is the root
    let below := tree.layers.dropLast
    .ok { leaf := (tree.leaves[leafIndex.toNat]?).getD []
          index := .ofNat leafIndex.toNat
          siblings := siblingsOf leafIndex.toNat below
          layerSizes := below.map fun layer => .ofNat layer.length }

/-- The loop of `verifyMerkleProof`, over the layers and the siblings that are left; `none` where
    the siblings run out. -/
def proofLoop (nodeTag : Option ByteArray) :
    List Js.Number → Js.Number → List Text → ByteArray → Option ByteArray
  | [], _, _, current => some current
  | layerSize :: layerSizes, idx, siblings, current =>
    let siblingPos := if idx.isEven then idx.add 1 else idx.add (-1)
    let hasSibling := siblingPos.isNonNegative && siblingPos.lt layerSize
    if hasSibling = true then
      match siblings with
      | [] => none
      | sibling :: siblings =>
        let siblingBytes := fromHex sibling
        let left := if idx.isEven then current else siblingBytes
        let right := if idx.isEven then siblingBytes else current
        proofLoop nodeTag layerSizes idx.floorHalf siblings (H.sha256 (combined nodeTag left right))
    else proofLoop nodeTag layerSizes idx.floorHalf siblings current

def verifyMerkleProof (proof : MerkleProof) (expectedRoot : Text) (treeHashVersion : String) :
    Bool :=
  if treeHashVersion ≠ MerkleTreeVersion.plainV1.id ∧
      treeHashVersion ≠ MerkleTreeVersion.rfc6962V2.id then false
  else
    let nodeTag := if treeHashVersion = MerkleTreeVersion.rfc6962V2.id then some NODE_TAG_V2 else none
    match proofLoop H nodeTag proof.layerSizes proof.index proof.siblings (fromHex proof.leaf) with
    | some current => toHex current == expectedRoot
    | none => false

/-! ## §3. `@motebit/crypto` -/

def hashLeaf (entry : ByteArray) (treeHashVersion : String) : Except String Text :=
  if treeHashVersion = MerkleTreeVersion.plainV1.id then .ok (toHex (H.sha256 entry))
  else if treeHashVersion = MerkleTreeVersion.rfc6962V2.id then
    .ok (toHex (H.sha256 (LEAF_TAG_V2 ++ entry)))
  else .error (unsupported treeHashVersion)

def encode (text : Option (List Char)) : ByteArray := (String.ofList (text.getD [])).toUTF8

def canonicalLeaf (value : Audit.JsValue) (treeHashVersion : String) : Except String Text := do
  let text ← Signing.canonicalJson value
  hashLeaf H (encode text) treeHashVersion

def resolveTreeHashVersion : Option String → Option MerkleTreeVersion
  | none => some .plainV1
  | some raw =>
    if raw = MerkleTreeVersion.plainV1.id then some .plainV1
    else if raw = MerkleTreeVersion.rfc6962V2.id then some .rfc6962V2
    else none

/-- The loop of `verifyMerkleInclusion`; decoding a text never throws. -/
def inclusionLoop (nodeTag : Option ByteArray) (index : Js.Number) (siblings : List Text)
    (current : ByteArray) : List Js.Number → Option ByteArray
  | [] => some current
  | layerSize :: layerSizes =>
    let siblingPos := if index.isEven then index.add 1 else index.add (-1)
    if (siblingPos.isNonNegative && siblingPos.lt layerSize) = true then
      match siblings with
      | [] => none
      | sibling :: others =>
        let left := if index.isEven then current else fromHex sibling
        let right := if index.isEven then fromHex sibling else current
        inclusionLoop nodeTag index.floorHalf others (H.sha256 (combined nodeTag left right))
          layerSizes
    else inclusionLoop nodeTag index.floorHalf siblings current layerSizes

def verifyMerkleInclusion (leaf : Text) (index : Js.Number) (siblings : List Text)
    (layerSizes : List Js.Number) (expectedRoot : Text) (treeHashVersion : String) : Bool :=
  if treeHashVersion ≠ MerkleTreeVersion.plainV1.id ∧
      treeHashVersion ≠ MerkleTreeVersion.rfc6962V2.id then false
  else
    let nodeTag := if treeHashVersion = MerkleTreeVersion.rfc6962V2.id then some NODE_TAG_V2 else none
    match inclusionLoop H nodeTag index siblings (fromHex leaf) layerSizes with
    | some current => toHex current == expectedRoot
    | none => false

end Motebit.Merkle
