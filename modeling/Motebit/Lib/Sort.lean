/-
  Motebit.Lib.Sort — SORTING BY A KEY.

  `Array.sort` with a comparator on a key, as a stable insertion sort.

  Main results: `sortOn_eq`, `find?_sortOn`, `filter_sortOn`.
-/

import Mathlib.Data.List.Sort

namespace Motebit.Lib

open List

variable {α κ : Type} [LinearOrder κ]

/-- The list in the order of its keys, equal keys in the order they stood in. -/
def sortOn (key : α → κ) (l : List α) : List α := l.insertionSort fun a b => key a ≤ key b

theorem sortOn_cons (key : α → κ) (a : α) (l : List α) :
    sortOn key (a :: l) = (sortOn key l).orderedInsert (fun a b => key a ≤ key b) a := rfl

theorem sortOn_perm (key : α → κ) (l : List α) : (sortOn key l).Perm l :=
  perm_insertionSort _ l

theorem sortOn_pairwise (key : α → κ) (l : List α) :
    (sortOn key l).Pairwise fun a b => key a ≤ key b := by
  exact pairwise_insertionSort _ l

variable {l : List α}

@[simp] theorem mem_sortOn {key : α → κ} {a : α} : a ∈ sortOn key l ↔ a ∈ l :=
  (sortOn_perm key l).mem_iff

theorem mem_sortOn_since {key : α → κ} {since : κ} {a : α} :
    a ∈ sortOn key (l.filter fun x => since < key x) ↔ a ∈ l ∧ since < key a := by
  rw [mem_sortOn, mem_filter, decide_eq_true_eq]

theorem eq_of_key {key : α → κ} (h : (l.map key).Nodup) {a b : α} (ha : a ∈ l)
    (hb : b ∈ l) (hkey : key a = key b) : a = b :=
  inj_on_of_nodup_map h ha hb hkey

/-- **The sorted list is a function of what the list holds**, where keys are distinct. -/
theorem sortOn_eq {key : α → κ} {l l' : List α} (h : (l.map key).Nodup) (h' : (l'.map key).Nodup)
    (hmem : ∀ a, a ∈ l ↔ a ∈ l') : sortOn key l = sortOn key l' := by
  have hperm : l.Perm l' :=
    (perm_ext_iff_of_nodup (List.Nodup.of_map key h) (List.Nodup.of_map key h')).mpr hmem
  refine List.Perm.eq_of_pairwise ?_ (sortOn_pairwise key l) (sortOn_pairwise key l')
    (((sortOn_perm key l).trans hperm).trans (sortOn_perm key l').symm)
  intro a b ha hb hab hba
  rw [mem_sortOn] at ha hb
  exact eq_of_key h ha ((hmem b).mpr hb) (le_antisymm hab hba)

theorem sortOn_map {β : Type} {key : α → κ} {key' : β → κ} (f : α → β)
    (h : ∀ a, key' (f a) = key a) (l : List α) : sortOn key' (l.map f) = (sortOn key l).map f := by
  unfold sortOn
  refine (map_insertionSort (fun a b => key a ≤ key b) (fun a b => key' a ≤ key' b) f l ?_).symm
  intro a _ b _
  rw [h, h]

/-- **Sorting changes no lookup by key.** -/
theorem find?_sortOn {key : α → κ} [BEq κ] [LawfulBEq κ] (l : List α) (k : κ) :
    (sortOn key l).find? (fun a => key a == k) = l.find? fun a => key a == k := by
  induction l with
  | nil => rfl
  | cons a l ih =>
    rw [sortOn_cons, find?_cons]
    have hinsert : ∀ rest : List α,
        (rest.orderedInsert (fun a b => key a ≤ key b) a).find? (fun a => key a == k)
          = if key a == k then some a else rest.find? fun a => key a == k := by
      intro rest
      induction rest with
      | nil => cases h : key a == k <;> simp [h]
      | cons b rest ihrest =>
        rw [orderedInsert_cons]
        split
        · rw [find?_cons]
          cases h : key a == k <;> simp [h]
        next hlt =>
        rw [find?_cons, find?_cons, ihrest]
        cases hb : key b == k with
        | false => rfl
        | true =>
          -- an entry before `a` has a smaller key
          cases ha : key a == k with
          | false => rfl
          | true => exact absurd (by rw [eq_of_beq ha, eq_of_beq hb]) hlt
    rw [hinsert, ih]
    cases key a == k <;> rfl

/-- **Sorting commutes with a filter.** -/
theorem filter_sortOn {key : α → κ} (p : α → Bool) (l : List α) :
    (sortOn key l).filter p = sortOn key (l.filter p) := by
  induction l with
  | nil => rfl
  | cons a l ih =>
    rw [sortOn_cons]
    have hinsert : ∀ rest : List α, rest.Pairwise (fun a b => key a ≤ key b) →
        (rest.orderedInsert (fun a b => key a ≤ key b) a).filter p
          = if p a then (rest.filter p).orderedInsert (fun a b => key a ≤ key b) a
            else rest.filter p := by
      intro rest hsorted
      induction rest with
      | nil => cases h : p a <;> simp [h]
      | cons b rest ihrest =>
        rw [pairwise_cons] at hsorted
        rw [orderedInsert_cons]
        split
        · next hle =>
          rw [filter_cons]
          cases ha : p a with
          | false => rfl
          | true =>
            rw [if_pos rfl, if_pos rfl]
            have hall : ∀ x ∈ (b :: rest).filter p, key a ≤ key x := by
              intro x hx
              rcases mem_cons.mp (mem_of_mem_filter hx) with rfl | hx
              · exact hle
              · exact le_trans hle (hsorted.1 x hx)
            cases hkept : (b :: rest).filter p with
            | nil => rfl
            | cons x =>
              rw [orderedInsert_cons, if_pos (hall x (by rw [hkept]; exact mem_cons_self))]
        · next hlt =>
          rw [filter_cons, filter_cons, ihrest hsorted.2]
          cases p b <;> cases p a <;> simp [hlt]
    rw [hinsert _ (sortOn_pairwise key l), ih, filter_cons]
    cases p a <;> rfl

end Motebit.Lib
