/-
  Motebit.Market.DelegationTrust — THE TRUST OF A DELEGATION TREE.

  Translated from `composeDelegationTrust` of `packages/semiring/src/trust-algebra.ts`.  A receipt
  without `delegation_receipts` has the empty list.

  Main result: `delegationTrust_isBest`.
-/

import Motebit.Market.TrustPropagation

namespace Motebit.Market

open Motebit.Lib List

/-! ## §1. The receipts and their chains -/

inductive DelegationReceiptLike where
  | mk (motebit_id : Text) (delegation_receipts : List DelegationReceiptLike)

namespace DelegationReceiptLike

def motebit_id : DelegationReceiptLike → Text
  | mk motebit_id _ => motebit_id

mutual

/-- The delegation chains from the root to a leaf: the sub-agents on each. -/
def chains : DelegationReceiptLike → List (List Text)
  | mk _ subs => if subs.isEmpty then [[]] else branchChains subs

def branchChains : List DelegationReceiptLike → List (List Text)
  | [] => []
  | sub :: subs => sub.chains.map (sub.motebit_id :: ·) ++ branchChains subs

end

/-- A delegation put below a leaf, at the end of a chain. -/
inductive Adds (sub : DelegationReceiptLike) :
    List Text → DelegationReceiptLike → DelegationReceiptLike → Prop
  | leaf (id : Text) : Adds sub [] (mk id []) (mk id [sub])
  | branch {before after : List DelegationReceiptLike} {chain : List Text}
      {old grown : DelegationReceiptLike} (id : Text) : Adds sub chain old grown →
      Adds sub (old.motebit_id :: chain) (mk id (before ++ old :: after))
        (mk id (before ++ grown :: after))

end DelegationReceiptLike

open DelegationReceiptLike

def trustAdd (a b : ℚ) : ℚ := max a b

def trustMultiply (a b : ℚ) : ℚ := a * b

def joinParallelRoutes (scores : List ℚ) : ℚ := scores.foldl trustAdd 0

mutual

def composeDelegationTrust (getTrust : Text → Trust) (directTrust : ℚ) : DelegationReceiptLike → ℚ
  | mk _ subs =>
    if subs.isEmpty then directTrust
    else joinParallelRoutes (branchScores getTrust directTrust subs)

def branchScores (getTrust : Text → Trust) (directTrust : ℚ) : List DelegationReceiptLike → List ℚ
  | [] => []
  | sub :: subs =>
    let chainScore := trustMultiply directTrust (getTrust sub.motebit_id).1
    composeDelegationTrust getTrust chainScore sub :: branchScores getTrust directTrust subs

end

/-! ## §2. The best chain -/

def chainTrust (getTrust : Text → Trust) (chain : List Text) : ℚ :=
  (chain.map fun id => (getTrust id).1).prod

variable {getTrust : Text → Trust}

theorem chainTrust_bounds (chain : List Text) :
    0 ≤ chainTrust getTrust chain ∧ chainTrust getTrust chain ≤ 1 := by
  unfold chainTrust
  induction chain with
  | nil => simp
  | cons id chain ih =>
    rw [map_cons, prod_cons]
    exact ⟨mul_nonneg (getTrust id).2.1 ih.1, mul_le_one₀ (getTrust id).2.2 ih.1 ih.2⟩

theorem joinParallelRoutes_isGreatest {scores : List ℚ} (hpos : ∀ s ∈ scores, 0 ≤ s)
    (hne : scores ≠ []) : IsGreatest {s | s ∈ scores} (joinParallelRoutes scores) := by
  have hmax := max?_eq_some_iff.mp (@max?_cons' ℚ 0 _ scores)
  have hle : ∀ s ∈ scores, s ≤ joinParallelRoutes scores :=
    fun s hs => hmax.2 s (mem_cons_of_mem 0 hs)
  refine ⟨?_, hle⟩
  rcases mem_cons.mp hmax.1 with hzero | hmem
  · -- no score is positive, so each is the zero that is returned
    obtain ⟨s, hs⟩ := exists_mem_of_ne_nil scores hne
    have heq : s = joinParallelRoutes scores :=
      le_antisymm (hle s hs) (hzero.trans_le (hpos s hs))
    exact heq ▸ hs
  · exact hmem

/-- A score is the direct trust discounted along a best chain. -/
def BestFrom (getTrust : Text → Trust) (directTrust : ℚ) (chains : List (List Text)) (score : ℚ) :
    Prop :=
  IsGreatest {x | ∃ chain ∈ chains, directTrust * chainTrust getTrust chain = x} score

theorem chainTrust_cons (id : Text) (chain : List Text) (d : ℚ) :
    d * chainTrust getTrust (id :: chain) =
      trustMultiply d (getTrust id).1 * chainTrust getTrust chain :=
  (mul_assoc _ _ _).symm

theorem composeDelegationTrust_best (receipt : DelegationReceiptLike) (d : Trust) :
    BestFrom getTrust d.1 receipt.chains (composeDelegationTrust getTrust d.1 receipt) := by
  revert d
  -- of a list of branches: each score is a chain's, and each chain has a score at least its own
  refine @DelegationReceiptLike.rec (fun receipt => ∀ d : Trust, BestFrom getTrust d.1 receipt.chains
    (composeDelegationTrust getTrust d.1 receipt)) (fun subs => ∀ d : Trust,
    (∀ s ∈ branchScores getTrust d.1 subs,
      ∃ chain ∈ branchChains subs, d.1 * chainTrust getTrust chain = s) ∧
    ∀ chain ∈ branchChains subs, ∃ s ∈ branchScores getTrust d.1 subs,
      d.1 * chainTrust getTrust chain ≤ s) ?_ ?_ ?_ receipt
  · intro id subs ih d
    obtain ⟨hscore, hchain⟩ := ih d
    unfold DelegationReceiptLike.chains composeDelegationTrust
    split
    · refine ⟨⟨[], mem_singleton_self _, mul_one d.1⟩, ?_⟩
      rintro x ⟨chain, hmem, rfl⟩
      exact mul_le_of_le_one_right d.2.1 (chainTrust_bounds chain).2
    next hne =>
    have hjoin := @joinParallelRoutes_isGreatest (branchScores getTrust d.1 subs) ?_ ?_
    · refine ⟨hscore _ hjoin.1, ?_⟩
      rintro x ⟨chain, hmem, rfl⟩
      obtain ⟨s, hs, hle⟩ := hchain chain hmem
      exact hle.trans (hjoin.2 hs)
    · intro s hs
      obtain ⟨chain, -, rfl⟩ := hscore s hs
      exact mul_nonneg d.2.1 (chainTrust_bounds chain).1
    · cases subs with
      | nil => exact absurd rfl hne
      | cons => simp [branchScores]
  · intro d
    exact ⟨nofun, nofun⟩
  · intro sub subs ihsub ihsubs d
    obtain ⟨hscore, hchain⟩ := ihsubs d
    obtain ⟨⟨best, hbest, heq⟩, hle⟩ := ihsub (TrustSemiring.mul d (getTrust sub.motebit_id))
    constructor
    · intro s hs
      rcases mem_cons.mp hs with rfl | hs
      · exact ⟨_, mem_append_left _ (mem_map_of_mem hbest), (chainTrust_cons _ _ _).trans heq⟩
      · obtain ⟨chain, hmem, hs⟩ := hscore s hs
        exact ⟨chain, mem_append_right _ hmem, hs⟩
    · intro chain hmem
      rcases mem_append.mp hmem with hmem | hmem
      · obtain ⟨rest, hrest, rfl⟩ := mem_map.mp hmem
        exact ⟨_, mem_cons_self, (chainTrust_cons _ _ _).trans_le (hle ⟨rest, hrest, rfl⟩)⟩
      · obtain ⟨s, hs, hle⟩ := hchain chain hmem
        exact ⟨s, mem_cons_of_mem _ hs, hle⟩

/-! ## §3. A delegation below a leaf -/

theorem branchChains_append (before after : List DelegationReceiptLike) :
    branchChains (before ++ after) = branchChains before ++ branchChains after := by
  induction before with
  | nil => rfl
  | cons sub subs ih => rw [cons_append, branchChains, branchChains, ih, append_assoc]

variable {sub receipt grown : DelegationReceiptLike} {chain : List Text}

theorem chains_of_adds (h : Adds sub chain receipt grown) : chain ∈ receipt.chains ∧
    receipt.motebit_id = grown.motebit_id ∧
    ∀ c ∈ grown.chains, c ∈ receipt.chains ∨ ∃ more, c = chain ++ more := by
  induction h with
  | leaf => exact ⟨mem_singleton_self _, rfl, fun c _ => .inr ⟨c, rfl⟩⟩
  | @branch before after chain old grown id _ ih =>
    obtain ⟨hmem, hid, hgrown⟩ := ih
    have hchains : ∀ x, (mk id (before ++ x :: after)).chains = branchChains before ++
        (x.chains.map (x.motebit_id :: ·) ++ branchChains after) := fun x => by
      rw [DelegationReceiptLike.chains, if_neg (by simp), branchChains_append, branchChains]
    simp only [hchains, mem_append, mem_map]
    refine ⟨.inr (.inl ⟨chain, hmem, rfl⟩), rfl, ?_⟩
    rintro c (hc | ⟨rest, hrest, rfl⟩ | hc)
    · exact .inl (.inl hc)
    · rcases hgrown rest hrest with hold | ⟨more, rfl⟩
      · exact .inl (.inr (.inl ⟨rest, hold, by rw [hid]⟩))
      · exact .inr ⟨more, by rw [hid, cons_append]⟩
    · exact .inl (.inr (.inr hc))

theorem chainTrust_append_le (chain more : List Text) :
    chainTrust getTrust (chain ++ more) ≤ chainTrust getTrust chain := by
  have hsplit : chainTrust getTrust (chain ++ more) =
      chainTrust getTrust chain * chainTrust getTrust more := by
    simp [chainTrust]
  rw [hsplit]
  exact mul_le_of_le_one_right (chainTrust_bounds chain).1 (chainTrust_bounds more).2

/-- The trust composed over a tree is the direct trust times the best chain's product, hence at most
    the direct trust; below a leaf a delegation leaves the other chains, and no chain through the
    leaf is worth more than the leaf's was. -/
theorem delegationTrust_isBest (getTrust : Text → Trust) (directTrust : Trust)
    (receipt : DelegationReceiptLike) :
    let trust := composeDelegationTrust getTrust directTrust.1
    (∃ best, IsGreatest {x | ∃ chain ∈ receipt.chains, chainTrust getTrust chain = x} best ∧
      trust receipt = directTrust.1 * best) ∧
    trust receipt ≤ directTrust.1 ∧
    ∀ sub chain grown, Adds sub chain receipt grown →
      chain ∈ receipt.chains ∧
      (∀ c ∈ grown.chains, c ∈ receipt.chains ∨
        chain <+: c ∧ chainTrust getTrust c ≤ chainTrust getTrust chain) ∧
      trust grown ≤ trust receipt := by
  obtain ⟨⟨c, hc, heq⟩, hle⟩ := @composeDelegationTrust_best getTrust receipt directTrust
  have hone := @composeDelegationTrust_best getTrust receipt TrustSemiring.one
  have htimes : ∀ x : ℚ, TrustSemiring.one.1 * x = x := one_mul
  simp only [BestFrom, htimes] at hone
  refine ⟨⟨_, hone, le_antisymm ?_ ?_⟩, ?_, fun sub chain grown h => ?_⟩
  · rw [← heq]
    exact mul_le_mul_of_nonneg_left (hone.2 ⟨c, hc, rfl⟩) directTrust.2.1
  · obtain ⟨c', hc', heq'⟩ := hone.1
    rw [← heq']
    exact hle ⟨c', hc', rfl⟩
  · rw [← heq]
    exact mul_le_of_le_one_right directTrust.2.1 (chainTrust_bounds c).2
  obtain ⟨hmem, -, hgrown⟩ := chains_of_adds h
  refine ⟨hmem, ?_, ?_⟩
  · intro c hc
    rcases hgrown c hc with hold | ⟨more, rfl⟩
    · exact .inl hold
    · exact .inr ⟨prefix_append chain more, chainTrust_append_le chain more⟩
  · obtain ⟨⟨c, hc, heq⟩, -⟩ := @composeDelegationTrust_best getTrust grown directTrust
    rw [← heq]
    rcases hgrown c hc with hold | ⟨more, rfl⟩
    · exact hle ⟨c, hold, rfl⟩
    · exact (mul_le_mul_of_nonneg_left (chainTrust_append_le chain more) directTrust.2.1).trans
        (hle ⟨chain, hmem, rfl⟩)

end Motebit.Market
