/-
  Motebit.Lib.Keyed — TABLES WITH A PRIMARY KEY, as association lists without duplicate keys.

  Main results:
    * `lookup_deleteWhere` — a DELETE acts on each key's row alone.
    * `mem_smallest` — `ORDER BY f LIMIT n` selects rows of the table.
    * `countWhere_insert`, `countWhere_erase` — one write moves a COUNT by one row.
-/

import Mathlib.Data.List.AList
import Mathlib.Data.List.Sort

namespace Motebit.Lib

open List

abbrev Keyed (κ α : Type) := AList fun _ : κ => α

namespace Keyed

variable {κ α : Type}

def deleteWhere (p : κ → α → Bool) (t : Keyed κ α) : Keyed κ α where
  entries := t.entries.filter fun e => !p e.1 e.2
  nodupKeys := t.nodupKeys.sublist filter_sublist

/-- The keys of the `n` rows satisfying `p` with the smallest `f`, in that order. -/
def smallest (p : κ → α → Bool) (f : α → Nat) (n : Nat) (t : Keyed κ α) : List κ :=
  (((t.entries.filter fun e => p e.1 e.2).insertionSort fun a b => f a.2 ≤ f b.2).take n).map
    (·.1)

def countWhere (p : α → Bool) (t : Keyed κ α) : Nat := (t.entries.filter fun e => p e.2).length

variable [DecidableEq κ] {t : Keyed κ α} {k : κ} {a : α} {p : κ → α → Bool}

theorem mem_entries : ⟨k, a⟩ ∈ t.entries ↔ t.lookup k = some a :=
  AList.mem_lookup_iff.symm

theorem lookup_deleteWhere (p : κ → α → Bool) (t : Keyed κ α) (k : κ) :
    (t.deleteWhere p).lookup k = (t.lookup k).filter fun a => !p k a := by
  apply Option.ext
  intro a
  rw [← mem_entries, Option.filter_eq_some_iff, ← mem_entries]
  exact mem_filter

theorem lookup_deleteWhere_of_keep (hk : t.lookup k = some a) (hp : p k a = false) :
    (t.deleteWhere p).lookup k = some a := by
  rw [lookup_deleteWhere, hk, Option.filter_some, hp]
  rfl

theorem lookup_of_deleteWhere (hk : (t.deleteWhere p).lookup k = some a) : t.lookup k = some a := by
  rw [lookup_deleteWhere] at hk
  exact (Option.filter_eq_some_iff.mp hk).1

theorem mem_smallest {f : α → Nat} {n : Nat} (hk : k ∈ t.smallest p f n) (ha : t.lookup k = some a) :
    p k a = true := by
  obtain ⟨e, he, rfl⟩ := mem_map.mp hk
  have hsorted := mem_of_mem_take he
  rw [mem_insertionSort] at hsorted
  obtain ⟨hmem, hp⟩ := mem_filter.mp hsorted
  have heq : t.lookup e.1 = some e.2 := mem_entries.mp hmem
  rw [ha] at heq
  cases heq
  exact hp

theorem lookup_of_mem_smallest {f : α → Nat} {n : Nat} (hk : k ∈ t.smallest p f n) :
    ∃ a, t.lookup k = some a := by
  obtain ⟨e, he, rfl⟩ := mem_map.mp hk
  have hsorted := mem_of_mem_take he
  rw [mem_insertionSort] at hsorted
  exact ⟨e.2, mem_entries.mp (mem_of_mem_filter hsorted)⟩

theorem countWhere_insert (p : α → Bool) (t : Keyed κ α) (k : κ) (a : α) :
    countWhere p (t.insert k a) = countWhere p (t.erase k) + if p a then 1 else 0 := by
  unfold countWhere
  show ((⟨k, a⟩ :: t.entries.kerase k).filter fun e => p e.2).length = _
  rw [filter_cons]
  by_cases ha : p a = true
  · rw [if_pos ha, if_pos ha]
    rfl
  · rw [if_neg ha, if_neg ha]
    rfl

theorem countWhere_eq_zero {p : α → Bool} (h : ∀ k a, t.lookup k = some a → p a = false) :
    countWhere p t = 0 := by
  unfold countWhere
  rw [length_eq_zero_iff, filter_eq_nil_iff]
  intro e he
  rw [h e.1 e.2 (mem_entries.mp he)]
  exact Bool.false_ne_true

theorem countWhere_erase_le (p : α → Bool) (t : Keyed κ α) (k : κ) :
    countWhere p (t.erase k) ≤ countWhere p t :=
  ((kerase_sublist k t.entries).filter _).length_le

theorem countWhere_erase {p : α → Bool} (hk : t.lookup k = some a) (ha : p a = true) :
    countWhere p (t.erase k) + 1 = countWhere p t := by
  have hmem : (⟨k, a⟩ : Sigma fun _ : κ => α) ∈ t.entries := mem_entries.mpr hk
  have hkeys : k ∈ t.entries.keys := mem_keys_of_mem hmem
  obtain ⟨b, l₁, l₂, hnot, hl, herase⟩ := exists_of_kerase hkeys
  -- the entry erased is the row found
  have hb : b = a := by
    have hfound : t.lookup k = some b := mem_entries.mp (by rw [hl]; simp)
    rw [hk] at hfound
    exact (Option.some.inj hfound).symm
  subst hb
  unfold countWhere
  show ((t.entries.kerase k).filter _).length + 1 = _
  rw [herase, hl, filter_append, filter_append, filter_cons, if_pos ha]
  simp only [length_append, length_cons]
  omega

end Keyed

end Motebit.Lib
