/-
  Motebit.Lib.WalkSum — THE SUM OVER ALL WALKS of a graph weighted in an idempotent semiring.

  Where no weight is above one, a cycle adds nothing to a walk.  So the sum over the walks
  between two nodes is a finite one, over the walks without repeats, and it is reached both by
  relaxing edges once for each node and by letting walks pass through one node after another.

  Main results: `exists_simple`, `Covers.round`, `Covers.complete`, `CoversThrough.step`,
  `CoversThrough.complete`, `IsWalkSum.sum_eq`.
-/

import Mathlib.Algebra.BigOperators.Ring.List
import Mathlib.Algebra.Order.Kleene
import Mathlib.Data.List.Nodup

namespace Motebit.Lib

open List

/-! ## §1. Walks -/

section

variable {V α : Type}

/-- The end of the walk that starts at `s` and goes through the listed nodes. -/
def walkEnd (s : V) : List V → V
  | [] => s
  | v :: p => walkEnd v p

theorem walkEnd_append (s : V) (p q : List V) : walkEnd s (p ++ q) = walkEnd (walkEnd s p) q := by
  induction p generalizing s with
  | nil => rfl
  | cons v p ih => exact ih v

theorem walkEnd_mem {nodes : List V} {s : V} {p : List V} (hs : s ∈ nodes)
    (h : ∀ v ∈ p, v ∈ nodes) : walkEnd s p ∈ nodes := by
  induction p generalizing s with
  | nil => exact hs
  | cons v p ih => exact ih (h v mem_cons_self) fun u hu => h u (mem_cons_of_mem _ hu)

/-- The weight of a walk: the product of its edges' weights. -/
def walkWeight [Mul α] [One α] (w : V → V → α) (s : V) : List V → α
  | [] => 1
  | v :: p => w s v * walkWeight w v p

end

variable {V α : Type} [IdemSemiring α] {w : V → V → α} {s t u v : V} {x y : α} {p q : List V}

theorem walkWeight_append (s : V) (p q : List V) :
    walkWeight w s (p ++ q) = walkWeight w s p * walkWeight w (walkEnd s p) q := by
  induction p generalizing s with
  | nil => exact (one_mul _).symm
  | cons v p ih =>
    show w s v * walkWeight w v (p ++ q) = w s v * walkWeight w v p * walkWeight w (walkEnd v p) q
    rw [ih, mul_assoc]

theorem walkWeight_eq_zero {nodes : List V} (hw : ∀ u v, v ∉ nodes → w u v = 0) (hv : v ∈ p)
    (hout : v ∉ nodes) : walkWeight w s p = 0 := by
  induction p generalizing s with
  | nil => cases hv
  | cons u p ih =>
    show w s u * walkWeight w u p = 0
    rcases mem_cons.mp hv with rfl | hv
    · rw [hw s v hout, zero_mul]
    · rw [ih hv, mul_zero]

/-! ## §2. Sums of walks -/

def Attained (w : V → V → α) (s t : V) (x : α) : Prop :=
  ∃ walks : List (List V), (∀ p ∈ walks, walkEnd s p = t) ∧ x = (walks.map (walkWeight w s)).sum

/-- The sum of the weights of all walks from `s` to `t`: a finite sum of them that is above each. -/
structure IsWalkSum (w : V → V → α) (s t : V) (x : α) : Prop where
  bound : ∀ p, walkEnd s p = t → walkWeight w s p ≤ x
  attained : Attained w s t x

theorem sum_le {l : List α} (h : ∀ a ∈ l, a ≤ x) : l.sum ≤ x := by
  induction l with
  | nil =>
    rw [sum_nil]
    exact zero_le
  | cons a l ih =>
    rw [sum_cons]
    exact add_le (h a mem_cons_self) (ih fun b hb => h b (mem_cons_of_mem _ hb))

theorem le_sum {l : List α} {a : α} (h : a ∈ l) : a ≤ l.sum := by
  induction l with
  | nil => cases h
  | cons b l ih =>
    rw [sum_cons]
    rcases mem_cons.mp h with rfl | h
    · exact le_self_add
    · exact (ih h).trans le_add_self

theorem Attained.zero (s t : V) : Attained w s t 0 := ⟨[], nofun, rfl⟩

theorem Attained.one (s : V) : Attained w s s 1 := by
  refine ⟨[[]], fun p hp => ?_, ?_⟩
  · rw [mem_singleton.mp hp]
    rfl
  · show (1 : α) = 1 + 0
    rw [add_zero]

theorem Attained.edge (s t : V) : Attained w s t (w s t) := by
  refine ⟨[[t]], fun p hp => ?_, ?_⟩
  · rw [mem_singleton.mp hp]
    rfl
  · show w s t = w s t * 1 + 0
    rw [mul_one, add_zero]

theorem Attained.add (hx : Attained w s t x) (hy : Attained w s t y) : Attained w s t (x + y) := by
  obtain ⟨walks, hwalks, rfl⟩ := hx
  obtain ⟨walks', hwalks', rfl⟩ := hy
  refine ⟨walks ++ walks', fun p hp => ?_, ?_⟩
  · rcases mem_append.mp hp with hp | hp
    · exact hwalks p hp
    · exact hwalks' p hp
  · rw [map_append, sum_append]

theorem Attained.mul (hx : Attained w s u x) (hy : Attained w u t y) : Attained w s t (x * y) := by
  obtain ⟨walks, hwalks, rfl⟩ := hx
  obtain ⟨walks', hwalks', rfl⟩ := hy
  refine ⟨walks.flatMap fun p => walks'.map fun q => p ++ q, fun r hr => ?_, ?_⟩
  · obtain ⟨p, hp, hr⟩ := mem_flatMap.mp hr
    obtain ⟨q, hq, rfl⟩ := mem_map.mp hr
    rw [walkEnd_append, hwalks p hp, hwalks' q hq]
  · induction walks with
    | nil => exact zero_mul _
    | cons p walks ih =>
      have hone : (walks'.map fun q => walkWeight w s (p ++ q)).sum
          = walkWeight w s p * (walks'.map (walkWeight w u)).sum := by
        rw [← sum_map_mul_left]
        congr 1
        refine map_congr_left fun q _ => ?_
        rw [walkWeight_append, hwalks p mem_cons_self]
      rw [flatMap_cons, map_append, sum_append, map_map, map_cons,
        sum_cons, add_mul, ih fun q hq => hwalks q (mem_cons_of_mem _ hq)]
      congr 1
      exact hone.symm

theorem Attained.le (hx : Attained w s t x) (hy : ∀ p, walkEnd s p = t → walkWeight w s p ≤ y) :
    x ≤ y := by
  obtain ⟨walks, hwalks, rfl⟩ := hx
  apply sum_le
  intro a ha
  obtain ⟨p, hp, rfl⟩ := mem_map.mp ha
  exact hy p (hwalks p hp)

theorem IsWalkSum.unique (hx : IsWalkSum w s t x) (hy : IsWalkSum w s t y) : x = y :=
  le_antisymm (hx.attained.le hy.bound) (hy.attained.le hx.bound)

/-- **Every finite sum over enough walks is the sum over all.**  Walks that weigh nothing may be
    missing. -/
theorem IsWalkSum.sum_eq (hx : IsWalkSum w s t x) : ∃ enough : List (List V),
    (∀ p ∈ enough, walkEnd s p = t) ∧ ∀ walks : List (List V),
      (∀ p ∈ enough, p ∈ walks ∨ walkWeight w s p = 0) → (∀ p ∈ walks, walkEnd s p = t) →
        (walks.map (walkWeight w s)).sum = x := by
  obtain ⟨enough, henough, rfl⟩ := hx.attained
  refine ⟨enough, henough, fun walks hcovered hwalks => le_antisymm ?_ ?_⟩
  · apply sum_le
    intro a ha
    obtain ⟨p, hp, rfl⟩ := mem_map.mp ha
    exact hx.bound p (hwalks p hp)
  · apply sum_le
    intro a ha
    obtain ⟨p, hp, rfl⟩ := mem_map.mp ha
    rcases hcovered p hp with hmem | hzero
    · exact le_sum (mem_map_of_mem hmem)
    · rw [hzero]
      exact zero_le

/-! ## §3. Loops that only grow -/

section

variable {β γ : Type} [Preorder β] {f : β → γ → β}

theorem le_foldl (hgrow : ∀ x a, x ≤ f x a) (l : List γ) (x : β) : x ≤ l.foldl f x := by
  induction l generalizing x with
  | nil => exact le_rfl
  | cons a l ih => exact (hgrow x a).trans (ih _)

theorem foldl_reaches (hgrow : ∀ x a, x ≤ f x a) {l : List γ} {a : γ} (ha : a ∈ l) (x : β) :
    ∃ y, x ≤ y ∧ f y a ≤ l.foldl f x := by
  induction l generalizing x with
  | nil => cases ha
  | cons b l ih =>
    rcases mem_cons.mp ha with rfl | ha
    · exact ⟨x, le_rfl, le_foldl hgrow l _⟩
    · obtain ⟨y, hy, hreached⟩ := ih ha (f x b)
      exact ⟨y, (hgrow x b).trans hy, hreached⟩

end

/-! ## §4. Walks without repeats -/

section

variable {nodes : List V}

/-- **A walk weighs no more than one without repeats.** -/
theorem exists_simple (hone : ∀ a : α, a ≤ 1) (s : V) (p : List V) :
    ∃ q, (s :: q).Nodup ∧ q ⊆ p ∧ walkEnd s q = walkEnd s p ∧
      walkWeight w s p ≤ walkWeight w s q := by
  induction p generalizing s with
  | nil => exact ⟨[], nodup_singleton s, List.Subset.refl _, rfl, le_rfl⟩
  | cons v p ih =>
    obtain ⟨q, hnodup, hsub, hend, hle⟩ := ih v
    have hstep : walkWeight w s (v :: p) ≤ walkWeight w s (v :: q) := mul_le_mul_right hle _
    by_cases hs : s ∈ v :: q
    · -- the walk comes back to its start: what it did before adds nothing
      obtain ⟨loop, rest, hsplit⟩ := append_of_mem hs
      refine ⟨rest, ?_, ?_, ?_, ?_⟩
      · rw [hsplit] at hnodup
        exact (nodup_append.mp hnodup).2.1
      · intro a ha
        have hmem : a ∈ v :: q := by
          rw [hsplit]
          exact mem_append_right _ (mem_cons_of_mem _ ha)
        rcases mem_cons.mp hmem with rfl | hmem
        · exact mem_cons_self
        · exact mem_cons_of_mem _ (hsub hmem)
      · have hback : walkEnd s (loop ++ s :: rest) = walkEnd s rest := walkEnd_append s loop _
        rw [← hback, ← hsplit]
        exact hend
      · have hsame : walkWeight w s (v :: q)
            = walkWeight w s (loop ++ [s]) * walkWeight w s rest := by
          have hback : walkEnd s (loop ++ [s]) = s := walkEnd_append s loop [s]
          rw [hsplit, append_cons, walkWeight_append, hback]
        have hloop : walkWeight w s (loop ++ [s]) * walkWeight w s rest ≤ 1 * walkWeight w s rest :=
          mul_le_mul_left (hone _) _
        rw [one_mul] at hloop
        exact (hstep.trans hsame.le).trans hloop
    · refine ⟨v :: q, nodup_cons.mpr ⟨hs, hnodup⟩, cons_subset_cons v hsub, hend, hstep⟩

theorem bound_of_simple (hone : ∀ a : α, a ≤ 1) (hw : ∀ u v, v ∉ nodes → w u v = 0) {dist : V → α}
    (h : ∀ q, (s :: q).Nodup → (∀ v ∈ q, v ∈ nodes) → walkWeight w s q ≤ dist (walkEnd s q))
    (p : List V) : walkWeight w s p ≤ dist (walkEnd s p) := by
  obtain ⟨q, hnodup, -, hend, hle⟩ := @exists_simple V α _ w hone s p
  rw [← hend]
  by_cases hout : ∀ v ∈ q, v ∈ nodes
  · exact hle.trans (h q hnodup hout)
  · obtain ⟨v, hv, hnot⟩ : ∃ v ∈ q, v ∉ nodes := by
      by_contra hall
      exact hout fun v hv => by_contra fun hnot => hall ⟨v, hv, hnot⟩
    rw [walkWeight_eq_zero hw hv hnot] at hle
    exact hle.trans zero_le

/-! ## §5. Rounds of relaxation -/

/-- The distances are above every walk of at most `n` edges. -/
def Covers (w : V → V → α) (s : V) (n : Nat) (dist : V → α) : Prop :=
  ∀ p : List V, p.length ≤ n → walkWeight w s p ≤ dist (walkEnd s p)

theorem Covers.start {dist : V → α} (h : dist s = 1) : Covers w s 0 dist := by
  intro p hp
  rw [length_eq_zero_iff.mp (Nat.le_zero.mp hp)]
  exact h.ge

/-- **A round** that relaxes every edge covers walks of one more edge. -/
theorem Covers.round {n : Nat} {dist dist' : V → α} (h : Covers w s n dist)
    (hle : ∀ t, dist t ≤ dist' t) (hrelaxed : ∀ u v, dist u * w u v ≤ dist' v) :
    Covers w s (n + 1) dist' := by
  intro p hp
  rcases eq_nil_or_concat p with rfl | ⟨q, v, rfl⟩
  · exact (h [] (Nat.zero_le _)).trans (hle _)
  · rw [length_concat] at hp
    rw [concat_eq_append]
    have hprefix := h q (by omega)
    rw [walkWeight_append, walkEnd_append]
    show walkWeight w s q * (w (walkEnd s q) v * 1) ≤ dist' v
    rw [mul_one]
    exact (mul_le_mul_left hprefix _).trans (hrelaxed _ _)

/-- **Rounds for all nodes but one cover all walks.** -/
theorem Covers.complete (hone : ∀ a : α, a ≤ 1) (hw : ∀ u v, v ∉ nodes → w u v = 0)
    (hs : s ∈ nodes) {dist : V → α} (h : Covers w s (nodes.length - 1) dist) (p : List V) :
    walkWeight w s p ≤ dist (walkEnd s p) := by
  refine bound_of_simple hone hw (fun q hnodup hnodes => h q ?_) p
  have hsub : (s :: q) ⊆ nodes := cons_subset.mpr ⟨hs, hnodes⟩
  have hlength := (subperm_of_subset hnodup hsub).length_le
  rw [length_cons] at hlength
  omega

/-! ## §6. Stages, a node each -/

/-- The matrix is above every walk without repeats that passes through the given nodes alone. -/
def CoversThrough (w : V → V → α) (nodes through : List V) (m : V → V → α) : Prop :=
  ∀ s ∈ nodes, ∀ q : List V, (s :: q).Nodup → (∀ v ∈ q, v ∈ nodes) →
    (∀ v ∈ q.dropLast, v ∈ through) → walkWeight w s q ≤ m s (walkEnd s q)

theorem CoversThrough.start {m : V → V → α} (hself : ∀ s ∈ nodes, 1 ≤ m s s)
    (hedge : ∀ s ∈ nodes, ∀ t ∈ nodes, w s t ≤ m s t) : CoversThrough w nodes [] m := by
  intro s hs q _ hnodes hthrough
  cases q with
  | nil => exact hself s hs
  | cons v q =>
    cases q with
    | nil =>
      show w s v * 1 ≤ m s v
      rw [mul_one]
      exact hedge s hs v (hnodes v mem_cons_self)
    | cons => exact absurd (hthrough v mem_cons_self) not_mem_nil

/-- **A stage** lets walks pass through one more node. -/
theorem CoversThrough.step {through : List V} {m m' : V → V → α} {k : V} (hk : k ∈ nodes)
    (h : CoversThrough w nodes through m) (hle : ∀ s ∈ nodes, ∀ t ∈ nodes, m s t ≤ m' s t)
    (hvia : ∀ s ∈ nodes, ∀ t ∈ nodes, m s k * m k t ≤ m' s t) :
    CoversThrough w nodes (k :: through) m' := by
  intro s hs q hnodup hnodes hthrough
  have htarget : walkEnd s q ∈ nodes := walkEnd_mem hs hnodes
  by_cases hkq : k ∈ q.dropLast
  · -- the walk passes through the node once: up to it, and from it on
    obtain ⟨before, after, hsplit⟩ := append_of_mem hkq
    obtain ⟨last, hq⟩ : ∃ last, q = before ++ k :: (after ++ [last]) := by
      have hne : q ≠ [] := by
        rintro rfl
        cases hkq
      refine ⟨q.getLast hne, ?_⟩
      conv_lhs => rw [← dropLast_append_getLast hne, hsplit]
      simp
    have hupto : q = (before ++ [k]) ++ (after ++ [last]) := by rw [hq]; simp
    have hparts := hnodup
    rw [hupto, ← cons_append] at hparts
    obtain ⟨hfirst, hsecond, hdisjoint⟩ := nodup_append.mp hparts
    have hbefore : ∀ v ∈ before, v ∈ through := by
      intro v hv
      have hmem := hthrough v (by rw [hsplit]; exact mem_append_left _ hv)
      rcases mem_cons.mp hmem with rfl | hmem
      · have hrepeat := (nodup_append.mp (nodup_cons.mp hfirst).2).2.2 v hv v mem_cons_self
        exact absurd rfl hrepeat
      · exact hmem
    have hkafter : k ∉ after ++ [last] := fun hmem =>
      hdisjoint k (mem_cons_of_mem _ (mem_append_right _ mem_cons_self)) k hmem rfl
    have hafter : ∀ v ∈ after, v ∈ through := by
      intro v hv
      have hmem := hthrough v (by
        rw [hsplit]
        exact mem_append_right _ (mem_cons_of_mem _ hv))
      rcases mem_cons.mp hmem with rfl | hmem
      · exact absurd (mem_append_left _ hv) hkafter
      · exact hmem
    have hend : walkEnd s (before ++ [k]) = k := walkEnd_append s before [k]
    have hone := h s hs (before ++ [k]) hfirst
      (fun v hv => hnodes v (by rw [hupto]; exact mem_append_left _ hv))
      (by rw [dropLast_concat]; exact hbefore)
    have htwo := h k hk (after ++ [last]) (nodup_cons.mpr ⟨hkafter, hsecond⟩)
      (fun v hv => hnodes v (by rw [hupto]; exact mem_append_right _ hv))
      (by rw [dropLast_concat]; exact hafter)
    rw [hend] at hone
    have hwhole : walkWeight w s q = walkWeight w s (before ++ [k]) * walkWeight w k (after ++ [last]) := by
      rw [hupto, walkWeight_append, hend]
    have hendq : walkEnd s q = walkEnd k (after ++ [last]) := by rw [hupto, walkEnd_append, hend]
    rw [hwhole]
    refine (mul_le_mul' hone htwo).trans ?_
    rw [← hendq]
    exact hvia s hs _ htarget
  · refine (h s hs q hnodup hnodes fun v hv => ?_).trans (hle s hs _ htarget)
    rcases mem_cons.mp (hthrough v hv) with rfl | hmem
    · exact absurd hv hkq
    · exact hmem

/-- **Stages for all nodes cover all walks.** -/
theorem CoversThrough.complete (hone : ∀ a : α, a ≤ 1) (hw : ∀ u v, v ∉ nodes → w u v = 0)
    {through : List V} (hall : ∀ v ∈ nodes, v ∈ through) {m : V → V → α}
    (h : CoversThrough w nodes through m) (hs : s ∈ nodes) (p : List V) :
    walkWeight w s p ≤ m s (walkEnd s p) :=
  @bound_of_simple V α _ w s nodes hone hw (m s) (fun q hnodup hnodes => h s hs q hnodup hnodes
    fun v hv => hall v (hnodes v (dropLast_subset q hv))) p

end

end Motebit.Lib
