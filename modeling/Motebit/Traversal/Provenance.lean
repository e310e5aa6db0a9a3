/-
  Motebit.Traversal.Provenance — VALUES ANNOTATED WITH WHY.

  Translated from `packages/semiring/src/provenance.ts`.

  The comparison of annotated values looks at how many derivations there are, not at which.  So a
  run over them leaves other edges out and stops at another round than a run over the values.
  Neither matters to the values.

  Main results: `optimalPaths_value`.
-/

import Motebit.Lib.Sort
import Motebit.Traversal.Agreement

namespace Motebit.Traversal

open Motebit.Lib

variable {ν T L : Type} [DecidableEq ν]

/-! ## §1. Provenance -/

/-- `Provenance`: derivation paths, each of its labels. -/
abbrev Provenance (L : Type) := List (List L)

/-- `trim`: the shortest paths, those of one length in their order. -/
def trim (maxPaths : Nat) (paths : Provenance L) : Provenance L :=
  if paths.length ≤ maxPaths then paths else (sortOn List.length paths).take maxPaths

/-- `boundedProvenanceSemiring`, compared by `===`: two arrays are never known to be one. -/
def boundedProvenanceSemiring (L : Type) (maxPaths : Nat) : SemiringOps (Provenance L) where
  zero := []
  one := [[]]
  add a b := trim maxPaths (a ++ b)
  mul a b :=
    if a.length = 0 ∨ b.length = 0 then []
    else trim maxPaths (a.flatMap fun pa => b.map fun pb => pa ++ pb)
  eq _ _ := false

structure Annotated (T L : Type) where
  value : T
  why : Provenance L

def annotatedSemiring (L : Type) (base : SemiringOps T) (maxPaths : Nat) :
    SemiringOps (Annotated T L) :=
  let prov := boundedProvenanceSemiring L maxPaths
  { zero := ⟨base.zero, prov.zero⟩
    one := ⟨base.one, prov.one⟩
    add a b := ⟨base.add a.value b.value, prov.add a.why b.why⟩
    mul a b := ⟨base.mul a.value b.value, prov.mul a.why b.why⟩
    eq a b := base.eq a.value b.value && a.why.length == b.why.length }

/-! ## §2. The values -/

theorem annotatedSemiring_shows {base : SemiringOps T} (hlaws : base.Lawful) (maxPaths : Nat) :
    Shows (annotatedSemiring L base maxPaths) base Annotated.value where
  zero := rfl
  one := rfl
  add _ _ := rfl
  mul _ _ := rfl
  eq a b h := by
    have hvalue : base.eq a.value b.value = true := (Bool.and_eq_true_iff.mp h).1
    exact hlaws.eq_sound _ _ hvalue

/-- **Annotations change no value**: at each node the value is that of the run over the values. -/
theorem optimalPaths_value {base : SemiringOps T} (hlaws : base.Lawful) (maxPaths : Nat)
    {graph : WeightedDigraph ν (Annotated T L)}
    (hbuilt : Built (annotatedSemiring L base maxPaths) graph) (source node : ν) :
    ((optimalPaths (annotatedSemiring L base maxPaths) graph source).get node).map Annotated.value
      = (optimalPaths base (graph.mapWeights Annotated.value) source).get node :=
  optimalPaths_shown (annotatedSemiring_shows hlaws maxPaths) hlaws hbuilt.wf source node

/-- The triangle with labelled edges. -/
def annotatedTriangle : WeightedDigraph Nat (Annotated (Option Nat) Char) :=
  (((WeightedDigraph.empty.setEdge 0 1 ⟨some 1, [['a']]⟩).setEdge 1 2 ⟨some 2, [['b']]⟩).setEdge
    2 0 ⟨some 1, [['c']]⟩).setEdge 0 2 ⟨some 4, [['d']]⟩

theorem optimalPaths_value_triangle :
    ((optimalPaths (annotatedSemiring Char CostSemiring 1) annotatedTriangle 0).get 2).map
        Annotated.value = some (some 3) ∧
      ((optimalPaths (annotatedSemiring Char CostSemiring 1) annotatedTriangle 0).get 2).map
        Annotated.why = some [['d']] := by
  have hbuilt : Built (annotatedSemiring Char CostSemiring 1) annotatedTriangle :=
    .setEdge _ _ _ (.setEdge _ _ _ (.setEdge _ _ _ (.setEdge _ _ _ .empty)))
  constructor
  · rw [optimalPaths_value costSemiring_lawful 1 hbuilt 0 2]
    decide
  · decide

end Motebit.Traversal
