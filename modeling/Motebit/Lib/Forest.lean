/-
  Motebit.Lib.Forest — PARENTS THAT LEAD NOWHERE TWICE.

  A partial map to parents is a forest if the way up from each node ends.  It stays one when a
  node gets a new parent that is not below it.

  Main results:
    * `Forest.update` — a new parent.
    * `Forest.trail`, `Trail.nodup` — the way up from a node, which repeats none.
-/

import Mathlib.Data.List.Nodup
import Mathlib.Order.WellFounded

namespace Motebit.Lib

open List Function

variable {ν : Type}

def ParentOf (parent : ν → Option ν) (a b : ν) : Prop := parent b = some a

/-- Each way up ends. -/
def Forest (parent : ν → Option ν) : Prop := ∀ v, Acc (ParentOf parent) v

/-- The nodes on the way down to a node, from a root on. -/
inductive Trail (parent : ν → Option ν) : ν → List ν → Prop
  | root {v : ν} : parent v = none → Trail parent v [v]
  | step {u v : ν} {p : List ν} : parent v = some u → Trail parent u p → Trail parent v (p ++ [v])

variable {parent : ν → Option ν}

theorem forest_none : Forest fun _ : ν => none := by
  intro v
  constructor
  nofun

theorem Forest.update [DecidableEq ν] (h : Forest parent) {u v : ν}
    (hnot : ¬ Relation.ReflTransGen (ParentOf parent) v u) :
    Forest (Function.update parent v (some u)) := by
  have hupdated : ∀ {a b : ν}, b ≠ v → ParentOf (Function.update parent v (some u)) a b →
      ParentOf parent a b := by
    intro a b hb hab
    unfold ParentOf at hab ⊢
    rwa [update_of_ne hb] at hab
  -- nothing above `u` has changed
  have habove : ∀ b, Acc (ParentOf parent) b → ¬ Relation.ReflTransGen (ParentOf parent) v b →
      Acc (ParentOf (Function.update parent v (some u))) b := by
    intro b hb
    induction hb with
    | intro b _ ih =>
      intro hvb
      constructor
      intro a hab
      have hne : b ≠ v := by
        rintro rfl
        exact hvb .refl
      have hparent := hupdated hne hab
      exact ih a hparent fun hva => hvb (hva.tail hparent)
  have hv : Acc (ParentOf (Function.update parent v (some u))) v := by
    constructor
    intro a ha
    unfold ParentOf at ha
    rw [update_self] at ha
    cases ha
    exact habove u (h u) hnot
  intro b
  induction h b with
  | intro b _ ih =>
    by_cases hb : b = v
    · rw [hb]
      exact hv
    · constructor
      intro a hab
      exact ih a (hupdated hb hab)

theorem Forest.trail (h : Forest parent) (v : ν) : ∃ p, Trail parent v p := by
  induction h v with
  | intro v _ ih =>
    cases hv : parent v with
    | none => exact ⟨[v], .root hv⟩
    | some u =>
      obtain ⟨p, hp⟩ := ih u hv
      exact ⟨p ++ [v], .step hv hp⟩

theorem Trail.above {v : ν} {p : List ν} (h : Trail parent v p) {x : ν} (hx : x ∈ p) :
    Relation.ReflTransGen (ParentOf parent) x v := by
  induction h with
  | root =>
    rw [mem_singleton.mp hx]
  | step hv _ ih =>
    rcases mem_append.mp hx with hin | hlast
    · exact (ih hin).tail hv
    · rw [mem_singleton.mp hlast]

theorem Trail.nodup (hforest : Forest parent) {v : ν} {p : List ν} (h : Trail parent v p) :
    p.Nodup := by
  have hwf : WellFounded (Relation.TransGen (ParentOf parent)) := WellFounded.transGen ⟨hforest⟩
  induction h with
  | root _ => exact nodup_singleton _
  | step hv hu ih =>
    rw [nodup_append]
    refine ⟨ih, nodup_singleton _, ?_⟩
    intro a ha b hb hab
    rw [mem_singleton] at hb
    rw [hab, hb] at ha
    exact hwf.irrefl.irrefl _ (Relation.TransGen.tail' (hu.above ha) hv)

end Motebit.Lib
