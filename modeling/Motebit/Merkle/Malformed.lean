/-
  Motebit.Merkle.Malformed — MALFORMED PROOFS ARE ACCEPTED.

  `verifyMerkleInclusion` is to answer `false` on any malformed input.  It never looks at the
  siblings its walk leaves over, so whatever it accepts, it also accepts with junk behind it.

  Main results: `climb_append`, `strict_iff`.
-/

import Motebit.Merkle.Completeness

namespace Motebit.Merkle

open Motebit.Lib List
open Motebit.Lib.MerkleTree

/-! ## §1. Well-formed proofs -/

/-- The index is a leaf's place in the bottom layer, 0 where no layer is given. -/
def IndexFits (index : Js.Number) (layerSizes : List Js.Number) : Prop :=
  ∃ n : Nat, index = .ofNat n ∧
    match layerSizes with
    | [] => n = 0
    | bottom :: _ => index.lt bottom = true

structure WellFormed (index : Js.Number) (siblings : List Text) (layerSizes : List Js.Number) :
    Prop where
  place : IndexFits index layerSizes
  /-- 64 lowercase digits each, -/
  spelling : ∀ sibling ∈ siblings, Roster.isHex32 sibling = true
  /-- and one for each layer that asks for one. -/
  consumed : siblings.length = (pathOf index layerSizes).countP Option.isSome

variable (H : Hash) (leaf : Text) (index : Js.Number) (layerSizes : List Js.Number) (root : Text)
  (version : String)

/-- Only well-formed proofs are accepted, and one list of siblings at most. -/
structure Strict : Prop where
  wellFormed : ∀ siblings,
    verifyMerkleInclusion H leaf index siblings layerSizes root version = true →
      WellFormed index siblings layerSizes
  unique : ∀ siblings siblings',
    verifyMerkleInclusion H leaf index siblings layerSizes root version = true →
    verifyMerkleInclusion H leaf index siblings' layerSizes root version = true →
      siblings = siblings'

/-- Some digests lead from the leaf up to the root. -/
def Provable : Prop :=
  ∃ v : MerkleTreeVersion, version = v.id ∧ ∃ digests top,
    climb (above H (tagOf v)) (pathOf index layerSizes) digests (fromHex leaf) = some top ∧
      toHex top = root

/-! ## §2. What is accepted -/

variable {H leaf index layerSizes root version}

theorem verifyMerkleInclusion_iff (siblings : List Text) :
    verifyMerkleInclusion H leaf index siblings layerSizes root version = true ↔
      ∃ v : MerkleTreeVersion, version = v.id ∧ ∃ top,
        climb (above H (tagOf v)) (pathOf index layerSizes) (siblings.map fromHex) (fromHex leaf) =
          some top ∧ toHex top = root := by
  by_cases hversion : ∃ v : MerkleTreeVersion, version = v.id
  · obtain ⟨v, rfl⟩ := hversion
    have hinj : ∀ v' : MerkleTreeVersion, v.id = v'.id → v = v' := by
      intro v'
      cases v <;> cases v' <;> decide
    rw [verifyMerkleInclusion_id, inclusionLoop_climbs]
    constructor
    · intro h
      cases htop : climb (above H (tagOf v)) (pathOf index layerSizes) (siblings.map fromHex)
          (fromHex leaf) with
      | none =>
        rw [htop] at h
        cases h
      | some top =>
        rw [htop] at h
        exact ⟨v, rfl, top, htop, eq_of_beq h⟩
    · rintro ⟨v', hid, top, htop, hroot⟩
      obtain rfl := hinj v' hid
      rw [htop]
      exact beq_iff_eq.mpr hroot
  · have hneither : version ≠ MerkleTreeVersion.plainV1.id ∧
        version ≠ MerkleTreeVersion.rfc6962V2.id :=
      ⟨fun h => hversion ⟨_, h⟩, fun h => hversion ⟨_, h⟩⟩
    unfold verifyMerkleInclusion
    rw [if_pos hneither]
    exact ⟨fun h => (nomatch h), fun ⟨v, hid, _⟩ => absurd ⟨v, hid⟩ hversion⟩

/-- **Siblings left over change nothing.** -/
theorem climb_append {β : Type} {combine : β → β → β} {path : List (Option Side)}
    {siblings : List β} {node top : β} (h : climb combine path siblings node = some top)
    (others : List β) : climb combine path (siblings ++ others) node = some top := by
  fun_induction climb combine path siblings node with
  | case1 => exact h
  | case2 path siblings node ih => exact ih h
  | case3 => cases h
  | case4 side path sibling siblings node ih => exact ih h

theorem accepted_append {siblings : List Text}
    (h : verifyMerkleInclusion H leaf index siblings layerSizes root version = true)
    (others : List Text) :
    verifyMerkleInclusion H leaf index (siblings ++ others) layerSizes root version = true := by
  obtain ⟨v, hid, top, htop, hroot⟩ := (verifyMerkleInclusion_iff siblings).mp h
  refine (verifyMerkleInclusion_iff _).mpr ⟨v, hid, top, ?_, hroot⟩
  rw [map_append]
  exact climb_append htop _

theorem provable_iff : Provable H leaf index layerSizes root version ↔
    ∃ siblings, verifyMerkleInclusion H leaf index siblings layerSizes root version = true := by
  constructor
  · rintro ⟨v, hid, digests, top, htop, hroot⟩
    refine ⟨digests.map toHex, (verifyMerkleInclusion_iff _).mpr ⟨v, hid, top, ?_, hroot⟩⟩
    rw [map_map, show fromHex ∘ toHex = id from funext fromHex_toHex, map_id]
    exact htop
  · rintro ⟨siblings, h⟩
    obtain ⟨v, hid, top, htop, hroot⟩ := (verifyMerkleInclusion_iff siblings).mp h
    exact ⟨v, hid, _, top, htop, hroot⟩

/-- **The verifier is strict only where there is nothing to accept.** -/
theorem strict_iff (H : Hash) (leaf : Text) (index : Js.Number) (layerSizes : List Js.Number)
    (root : Text) (version : String) : Strict H leaf index layerSizes root version ↔
      ¬ Provable H leaf index layerSizes root version := by
  rw [provable_iff]
  constructor
  · rintro hstrict ⟨siblings, haccepted⟩
    have hsame := hstrict.unique _ _ haccepted (accepted_append haccepted [[]])
    simp at hsame
  · intro hnone
    exact ⟨fun siblings h => absurd ⟨siblings, h⟩ hnone, fun siblings _ h _ =>
      absurd ⟨siblings, h⟩ hnone⟩

/-- **Accepted**: at the place -5 of no tree, with a sibling that is no digest and is not used. -/
theorem malformed_accepted : verifyMerkleInclusion zeros [48, 48] (.finite (-5)) [[120]] [] [48, 48]
      MerkleTreeVersion.plainV1.id = true ∧
    ¬ IndexFits (.finite (-5)) [] ∧ Roster.isHex32 [120] = false ∧
    [([120] : Text)].length ≠ (pathOf (.finite (-5)) []).countP Option.isSome := by
  refine ⟨by decide, ?_, by decide, by decide⟩
  rintro ⟨n, hn, hzero⟩
  have hfinite : (-5 : ℚ) = (n : ℚ) := Js.Number.finite.inj hn
  rw [show n = 0 from hzero] at hfinite
  norm_num at hfinite

end Motebit.Merkle
