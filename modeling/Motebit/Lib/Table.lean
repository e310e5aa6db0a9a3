/-
  Motebit.Lib.Table — SQL-STYLE TABLES as lists of rows in insertion order.

  A table is a list; `SELECT COALESCE(SUM(f), 0) … WHERE p` is `sumWhere p f`,
  `UPDATE … SET u WHERE p` is `updateWhere p u`, and the driver's `changes` count is
  `countWhere p`.  Sums are over `Int`: money columns are signed.

  Main results:
    * `sumWhere_append_row` — an INSERT changes a sum by the new row alone.
    * `sumWhere_nonneg_of_groups` — a sum no group of which is negative is not negative.
-/

import Mathlib.Algebra.BigOperators.Group.List.Basic
import Mathlib.Algebra.Order.Ring.Int
import Mathlib.Data.List.Induction
import Mathlib.Data.List.Nodup

namespace Motebit.Lib

open List

variable {α κ : Type}

/-! ## §1. Sums over selected rows -/

def sumWhere (p : α → Bool) (f : α → Int) (t : List α) : Int :=
  ((t.filter p).map f).sum

@[simp] theorem sumWhere_nil (p : α → Bool) (f : α → Int) : sumWhere p f [] = 0 := rfl

@[simp] theorem sumWhere_cons (p : α → Bool) (f : α → Int) (r : α) (t : List α) :
    sumWhere p f (r :: t) = (if p r then f r else 0) + sumWhere p f t := by
  cases hp : p r <;> simp [sumWhere, hp]

@[simp] theorem sumWhere_append (p : α → Bool) (f : α → Int) (t u : List α) :
    sumWhere p f (t ++ u) = sumWhere p f t + sumWhere p f u := by
  simp [sumWhere]

theorem sumWhere_append_row (p : α → Bool) (f : α → Int) (t : List α) (r : α) :
    sumWhere p f (t ++ [r]) = sumWhere p f t + (if p r then f r else 0) := by
  simp

variable {p q : α → Bool} {f : α → Int} {t : List α} {u : α → α} {β : Type}

theorem sumWhere_congr {g : α → Int} (hpq : ∀ r ∈ t, p r = q r)
    (hfg : ∀ r ∈ t, q r = true → f r = g r) : sumWhere p f t = sumWhere q g t := by
  induction t with
  | nil => rfl
  | cons r t ih =>
    have hr : p r = q r := hpq r (by simp)
    have ht := ih (fun s hs => hpq s (by simp [hs])) (fun s hs => hfg s (by simp [hs]))
    rw [sumWhere_cons, sumWhere_cons, hr, ht]
    by_cases hq : q r = true
    · rw [if_pos hq, if_pos hq, hfg r (by simp) hq]
    · rw [if_neg hq, if_neg hq]

theorem sumWhere_eq_zero (h : ∀ r ∈ t, p r = true → f r = 0) : sumWhere p f t = 0 := by
  induction t with
  | nil => rfl
  | cons r t ih =>
    rw [sumWhere_cons, ih (fun s hs => h s (by simp [hs]))]
    by_cases hp : p r = true
    · simp [hp, h r (by simp) hp]
    · simp [hp]

theorem sumWhere_nonneg (h : ∀ r ∈ t, p r = true → 0 ≤ f r) : 0 ≤ sumWhere p f t := by
  induction t with
  | nil => simp
  | cons r t ih =>
    rw [sumWhere_cons]
    have ht := ih (fun s hs => h s (by simp [hs]))
    by_cases hp : p r = true
    · have hr := h r (by simp) hp
      simp only [hp, if_true]
      omega
    · simp only [hp]
      simpa using ht

theorem sumWhere_neg (p : α → Bool) (f : α → Int) (t : List α) :
    sumWhere p (fun r => -f r) t = -sumWhere p f t := by
  induction t with
  | nil => rfl
  | cons r t ih =>
    rw [sumWhere_cons, sumWhere_cons, ih]
    split <;> omega

theorem sumWhere_split (p q : α → Bool) (f : α → Int) (t : List α) :
    sumWhere p f t = sumWhere (fun r => p r && q r) f t + sumWhere (fun r => p r && !q r) f t := by
  induction t with
  | nil => rfl
  | cons r t ih =>
    rw [sumWhere_cons, sumWhere_cons, sumWhere_cons, ih]
    cases p r <;> cases q r <;> simp <;> omega

/-- **Sums by group.**  When no group of the selected rows sums below zero, the selection
    does not. -/
theorem sumWhere_nonneg_of_groups [DecidableEq κ] (key : α → κ)
    (h : ∀ k, 0 ≤ sumWhere (fun r => p r && decide (key r = k)) f t) : 0 ≤ sumWhere p f t := by
  -- one group at a time, over a list of keys that covers the selection
  have hkeys : ∀ (ks : List κ) (p : α → Bool), (∀ r ∈ t, p r = true → key r ∈ ks) →
      (∀ k, 0 ≤ sumWhere (fun r => p r && decide (key r = k)) f t) → 0 ≤ sumWhere p f t := by
    intro ks
    induction ks with
    | nil =>
      intro p hcover _
      have hnone : sumWhere p f t = 0 :=
        sumWhere_eq_zero fun r hr hp => absurd (hcover r hr hp) not_mem_nil
      omega
    | cons k ks ih =>
      intro p hcover hgroups
      have hrest := ih (fun r => p r && !decide (key r = k)) ?_ ?_
      · have hk := hgroups k
        rw [sumWhere_split p (fun r => decide (key r = k))]
        omega
      · intro r hr hp
        simp only [Bool.and_eq_true, Bool.not_eq_true', decide_eq_false_iff_not] at hp
        exact (mem_cons.mp (hcover r hr hp.1)).resolve_left hp.2
      · intro k'
        by_cases hk : k' = k
        · have hnone : sumWhere (fun r => (p r && !decide (key r = k)) && decide (key r = k')) f t
              = 0 := by
            subst hk
            exact sumWhere_eq_zero fun r _ hp => absurd hp (by simp)
          omega
        · have hsame : sumWhere (fun r => (p r && !decide (key r = k)) && decide (key r = k')) f t
              = sumWhere (fun r => p r && decide (key r = k')) f t := by
            refine sumWhere_congr (fun r _ => ?_) fun _ _ _ => rfl
            by_cases hr : key r = k'
            · simp [hr, hk]
            · simp [hr]
          rw [hsame]
          exact hgroups k'
  exact hkeys (t.map key) p (fun r hr _ => mem_map_of_mem hr) h

/-! ## §2. Updates -/

def updateWhere (p : α → Bool) (u : α → α) (t : List α) : List α :=
  t.map fun r => if p r then u r else r

/-- The driver's `changes`: how many rows a statement touches. -/
def countWhere (p : α → Bool) (t : List α) : Nat := (t.filter p).length

@[simp] theorem updateWhere_nil (p : α → Bool) (u : α → α) : updateWhere p u [] = [] := rfl

@[simp] theorem updateWhere_cons (p : α → Bool) (u : α → α) (r : α) (t : List α) :
    updateWhere p u (r :: t) = (if p r then u r else r) :: updateWhere p u t := rfl

@[simp] theorem length_updateWhere (p : α → Bool) (u : α → α) (t : List α) :
    (updateWhere p u t).length = t.length := by
  simp [updateWhere]

theorem mem_updateWhere {r : α} : r ∈ updateWhere p u t ↔ ∃ s ∈ t, r = if p s then u s else s := by
  simp only [updateWhere, mem_map]
  constructor
  · rintro ⟨s, hs, rfl⟩
    exact ⟨s, hs, rfl⟩
  · rintro ⟨s, hs, rfl⟩
    exact ⟨s, hs, rfl⟩

theorem updateWhere_of_none (h : ∀ r ∈ t, p r = false) : updateWhere p u t = t := by
  induction t with
  | nil => rfl
  | cons r t ih =>
    rw [updateWhere_cons, h r (by simp), ih (fun s hs => h s (by simp [hs]))]
    simp

theorem map_updateWhere {f : α → β} (t : List α) (h : ∀ r, f (u r) = f r) :
    (updateWhere p u t).map f = t.map f := by
  induction t with
  | nil => rfl
  | cons r t ih =>
    rw [updateWhere_cons, map_cons, map_cons, ih]
    cases p r <;> simp [h]

theorem find?_updateWhere (t : List α) (h : ∀ r, q (u r) = q r) :
    (updateWhere p u t).find? q = (t.find? q).map fun r => if p r then u r else r := by
  unfold updateWhere
  rw [find?_map]
  have hsame : (q ∘ fun r => if p r then u r else r) = q := by
    funext r
    show q (if p r then u r else r) = q r
    cases p r <;> simp [h]
  rw [hsame]

theorem sumWhere_updateWhere_le (h : ∀ r ∈ t, p r = true →
      (if q (u r) then f (u r) else 0) ≤ (if q r then f r else 0)) :
    sumWhere q f (updateWhere p u t) ≤ sumWhere q f t := by
  induction t with
  | nil => exact Int.le_refl 0
  | cons r t ih =>
    rw [updateWhere_cons, sumWhere_cons, sumWhere_cons]
    have ht := ih fun s hs => h s (by simp [hs])
    by_cases hp : p r = true
    · have hr := h r (by simp) hp
      rw [if_pos hp]
      omega
    · rw [if_neg hp]
      omega

/-! ## §3. Keyed tables -/

/-- `Map.set` on an insertion-ordered map: replace the entry with this key in place, or
    add it at the end. -/
def upsertBy [BEq κ] (key : α → κ) (r : α) (t : List α) : List α :=
  if t.any fun a => key a == key r then
    updateWhere (fun a => key a == key r) (fun _ => r) t
  else
    t ++ [r]

theorem upsertBy_of_fresh [BEq κ] [LawfulBEq κ] {key : α → κ} {r : α} (h : ∀ a ∈ t, key a ≠ key r) :
    upsertBy key r t = t ++ [r] := by
  unfold upsertBy
  rw [if_neg]
  simpa using h

theorem nodup_upsertBy [BEq κ] [LawfulBEq κ] {key : α → κ} {r : α} (h : (t.map key).Nodup) :
    ((upsertBy key r t).map key).Nodup := by
  unfold upsertBy
  split
  · have hkeys : ∀ t : List α,
        (updateWhere (fun a => key a == key r) (fun _ => r) t).map key = t.map key := by
      intro t
      induction t with
      | nil => rfl
      | cons a t ih =>
        rw [updateWhere_cons, map_cons, map_cons, ih]
        split
        · next ha => rw [eq_of_beq ha]
        · rfl
    rw [hkeys]
    exact h
  · next hany =>
    rw [map_append, nodup_append]
    refine ⟨h, by simp, ?_⟩
    intro a ha b hb heq
    obtain ⟨s, hs, rfl⟩ := mem_map.mp ha
    simp only [map_cons, map_nil, mem_singleton] at hb
    subst hb
    exact hany (any_eq_true.mpr ⟨s, hs, by simp [heq]⟩)

/-- After `Map.set` a lookup finds the new entry under its key and what stood before under
    every other. -/
theorem find?_upsertBy [DecidableEq κ] [BEq κ] [LawfulBEq κ] {key : α → κ} {r : α} (t : List α)
    (k : κ) : (upsertBy key r t).find? (fun a => key a == k)
      = if k = key r then some r else t.find? fun a => key a == k := by
  -- in a table that has the key, the entry is replaced in place
  have hself : ∀ t : List α, (t.any fun a => key a == key r) = true →
      (updateWhere (fun a => key a == key r) (fun _ => r) t).find? (fun a => key a == key r)
        = some r := by
    intro t
    induction t with
    | nil => intro h; cases h
    | cons a t ih =>
      intro hany
      rw [updateWhere_cons, find?_cons]
      cases ha : key a == key r with
      | true => simp
      | false =>
        rw [any_cons, ha, Bool.false_or] at hany
        simp [ha, ih hany]
  have hother : k ≠ key r → ∀ t : List α,
      (updateWhere (fun a => key a == key r) (fun _ => r) t).find? (fun a => key a == k)
        = t.find? fun a => key a == k := by
    intro hk t
    have hne : (key r == k) = false := by simpa using hk.symm
    induction t with
    | nil => rfl
    | cons a t ih =>
      rw [updateWhere_cons, find?_cons, find?_cons, ih]
      cases ha : key a == key r with
      | true =>
        have hak : (key a == k) = false := by rw [eq_of_beq ha]; exact hne
        simp [hne, hak]
      | false => simp
  unfold upsertBy
  split
  · next hany =>
    split
    · next hk => rw [hk]; exact hself t hany
    · next hk => exact hother hk t
  · next hany =>
    have hnone : (t.find? fun a => key a == key r) = none := by
      rw [find?_eq_none]
      intro a ha hkey
      exact hany (any_eq_true.mpr ⟨a, ha, hkey⟩)
    rw [find?_append]
    by_cases hk : k = key r
    · subst hk
      simp [hnone]
    · have hne : (key r == k) = false := by simpa using fun h => hk h.symm
      simp [hk, hne]

theorem mem_upsertBy [BEq κ] [LawfulBEq κ] {key : α → κ} {r a : α} :
    a ∈ upsertBy key r t ↔ a = r ∨ (a ∈ t ∧ key a ≠ key r) := by
  unfold upsertBy
  split
  · next hany =>
    rw [mem_updateWhere]
    constructor
    · rintro ⟨b, hb, rfl⟩
      cases hkey : key b == key r with
      | true => exact .inl (by simp)
      | false => exact .inr ⟨hb, by simpa using hkey⟩
    · rintro (rfl | ⟨ha, hne⟩)
      · obtain ⟨b, hb, hkey⟩ := any_eq_true.mp hany
        exact ⟨b, hb, by rw [if_pos hkey]⟩
      · exact ⟨a, ha, by rw [if_neg (by simpa using hne)]⟩
  · next hany =>
    rw [mem_append, mem_singleton]
    constructor
    · rintro (ha | rfl)
      · refine .inr ⟨ha, fun hkey => hany (any_eq_true.mpr ⟨a, ha, by simp [hkey]⟩)⟩
      · exact .inl rfl
    · rintro (rfl | ⟨ha, -⟩)
      · exact .inr rfl
      · exact .inl ha

theorem find?_key_eq_some [BEq κ] [LawfulBEq κ] {key : α → κ} (h : (t.map key).Nodup) {k : κ}
    {a : α} : (t.find? fun b => key b == k) = some a ↔ a ∈ t ∧ key a = k := by
  constructor
  · intro hfind
    exact ⟨mem_of_find?_eq_some hfind, eq_of_beq (find?_some hfind :)⟩
  · rintro ⟨ha, rfl⟩
    cases hfind : t.find? fun b => key b == key a with
    | none =>
      have hno := find?_eq_none.mp hfind a ha
      simp at hno
    | some b =>
      have hkey : key b = key a := eq_of_beq (find?_some hfind :)
      rw [inj_on_of_nodup_map h (mem_of_find?_eq_some hfind) ha hkey]

theorem foldl_upsertBy [BEq κ] [LawfulBEq κ] {key : α → κ} (rows t : List α)
    (h : ((t ++ rows).map key).Nodup) :
    rows.foldl (fun map r => upsertBy key r map) t = t ++ rows := by
  induction rows generalizing t with
  | nil => simp
  | cons r rows ih =>
    have hfresh : ∀ a ∈ t, key a ≠ key r := by
      intro a ha
      rw [map_append, nodup_append] at h
      exact h.2.2 _ (mem_map_of_mem ha) _ (by simp)
    rw [foldl_cons, upsertBy_of_fresh hfresh, ih (t ++ [r]) (by simpa using h)]
    simp

/-- **A map filled by grouping**: under each key stands what the items of that key fold to. -/
theorem find?_foldl_upsertBy [DecidableEq κ] [BEq κ] [LawfulBEq κ] (key : α → κ) (keyOf : β → κ)
    (f : Option α → β → α) (hf : ∀ acc x, key (f acc x) = keyOf x) (xs : List β) (k : κ) :
    (xs.foldl (fun map x => upsertBy key (f (map.find? fun a => key a == keyOf x) x) map)
        []).find? (fun a => key a == k)
      = (xs.filter fun x => keyOf x == k).foldl (fun acc x => some (f acc x)) none := by
  induction xs using List.reverseRecOn with
  | nil => rfl
  | append_singleton xs x ih =>
    rw [foldl_append, foldl_cons, foldl_nil, find?_upsertBy, hf, filter_append, foldl_append, ← ih]
    by_cases hk : k = keyOf x
    · subst hk
      simp
    · have hne : (keyOf x == k) = false := by
        rw [beq_eq_false_iff_ne]
        exact Ne.symm hk
      simp [hk, hne]

theorem nodup_foldl_upsertBy [BEq κ] [LawfulBEq κ] {key : α → κ} (f : List α → β → α) (xs : List β) :
    ((xs.foldl (fun map x => upsertBy key (f map x) map) []).map key).Nodup := by
  induction xs using List.reverseRecOn with
  | nil => exact nodup_nil
  | append_singleton xs x ih =>
    rw [foldl_append, foldl_cons, foldl_nil]
    exact nodup_upsertBy ih

theorem nodup_filterMap_key {key : α → κ} {key' : β → κ} {f : α → Option β} (h : (t.map key).Nodup)
    (hkey : ∀ a b, f a = some b → key' b = key a) : ((t.filterMap f).map key').Nodup := by
  refine List.Nodup.sublist ?_ h
  induction t with
  | nil => exact List.Sublist.refl _
  | cons a t ih =>
    have ih' := ih (nodup_cons.mp h).2
    cases hfa : f a with
    | none =>
      rw [filterMap_cons_none hfa, map_cons]
      exact ih'.cons _
    | some b =>
      rw [filterMap_cons_some hfa, map_cons, map_cons, hkey a b hfa]
      exact ih'.cons_cons _

end Motebit.Lib
