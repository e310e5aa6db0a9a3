/-
  Motebit.Lib.JsMap — MAPS IN INSERTION ORDER, as lists of pairs with distinct keys.

  Main results:
    * `get_set`, `get_delete` — a look-up after an update.
    * `keys_set_nodup`, `keys_delete_nodup` — keys stay distinct.
-/

import Motebit.Lib.Table

namespace Motebit.Lib

open List

abbrev JsMap (κ α : Type) := List (κ × α)

namespace JsMap

variable {κ α β : Type} [DecidableEq κ]

def get (map : JsMap κ α) (k : κ) : Option α := (map.find? fun e => e.1 == k).map Prod.snd

def set (map : JsMap κ α) (k : κ) (a : α) : JsMap κ α := upsertBy Prod.fst (k, a) map

def delete (map : JsMap κ α) (k : κ) : JsMap κ α := map.filter fun e => e.1 != k

def keys (map : JsMap κ α) : List κ := map.map Prod.fst

@[simp] theorem get_nil (k : κ) : get ([] : JsMap κ α) k = none := rfl

@[simp] theorem get_set (map : JsMap κ α) (k k' : κ) (a : α) :
    (map.set k a).get k' = if k' = k then some a else map.get k' := by
  unfold get set
  have hfind := @find?_upsertBy (κ × α) κ _ _ _ Prod.fst (k, a) map k'
  rw [hfind]
  split <;> rfl

@[simp] theorem get_delete (map : JsMap κ α) (k k' : κ) :
    (map.delete k).get k' = if k' = k then none else map.get k' := by
  unfold get delete
  induction map with
  | nil => simp
  | cons e map ih =>
    by_cases hk : k' = k
    · subst hk
      rw [if_pos rfl] at ih ⊢
      by_cases he : e.1 = k'
      · rw [filter_cons_of_neg (by simpa using he)]
        exact ih
      · rw [filter_cons_of_pos (by simpa using he), find?_cons_of_neg (by simpa using he)]
        exact ih
    · rw [if_neg hk] at ih ⊢
      by_cases he : e.1 = k
      · rw [filter_cons_of_neg (by simpa using he),
          find?_cons_of_neg (by rw [he]; simpa using Ne.symm hk)]
        exact ih
      · rw [filter_cons_of_pos (by simpa using he), find?_cons, find?_cons]
        cases e.1 == k' with
        | true => rfl
        | false => exact ih

theorem get_mapKeyed (map : JsMap κ α) (f : κ → α → β) (k : κ) :
    get (map.map fun e => (e.1, f e.1 e.2)) k = (map.get k).map (f k) := by
  induction map with
  | nil => rfl
  | cons e map ih =>
    unfold get at ih ⊢
    rw [map_cons, find?_cons, find?_cons]
    by_cases he : e.1 = k
    · subst he
      rw [beq_self_eq_true]
      rfl
    · have hbeq : (e.1 == k) = false := by simpa using he
      dsimp only
      rw [hbeq]
      exact ih

theorem get_map (map : JsMap κ α) (f : α → β) (k : κ) :
    get (map.map fun e => (e.1, f e.2)) k = (map.get k).map f :=
  get_mapKeyed map (fun _ => f) k

variable {map : JsMap κ α}

theorem mem_of_get {k : κ} {a : α} (h : map.get k = some a) : (k, a) ∈ map := by
  unfold get at h
  obtain ⟨e, hfind, rfl⟩ := Option.map_eq_some_iff.mp h
  have hkey : e.1 = k := eq_of_beq (find?_some hfind :)
  rw [← hkey]
  exact mem_of_find?_eq_some hfind

theorem get_eq_some {map : JsMap κ α} (h : map.keys.Nodup) {k : κ} {a : α} :
    map.get k = some a ↔ (k, a) ∈ map := by
  constructor
  · exact mem_of_get
  · intro hmem
    unfold get
    rw [Option.map_eq_some_iff]
    exact ⟨(k, a), (find?_key_eq_some h).mpr ⟨hmem, rfl⟩, rfl⟩

theorem get_isSome {k : κ} : (map.get k).isSome = true ↔ k ∈ map.keys := by
  unfold get keys
  rw [Option.isSome_map, find?_isSome, mem_map]
  constructor
  · rintro ⟨e, he, hkey⟩
    exact ⟨e, he, eq_of_beq hkey⟩
  · rintro ⟨e, he, rfl⟩
    exact ⟨e, he, beq_self_eq_true _⟩

theorem get_foldl_set (l : List κ) (f : κ → α) (map : JsMap κ α) (k : κ) :
    (l.foldl (fun (map : JsMap κ α) k => map.set k (f k)) map).get k
      = if k ∈ l then some (f k) else map.get k := by
  induction l generalizing map with
  | nil => rfl
  | cons a l ih =>
    rw [foldl_cons, ih, get_set]
    by_cases hl : k ∈ l
    · rw [if_pos hl, if_pos (mem_cons_of_mem a hl)]
    · rw [if_neg hl]
      by_cases ha : k = a
      · rw [if_pos ha, if_pos (by rw [ha]; exact mem_cons_self), ha]
      · rw [if_neg ha, if_neg]
        rw [mem_cons]
        exact fun hmem => hmem.elim ha hl

theorem mem_set {k : κ} {a : α} {e : κ × α} : e ∈ map.set k a ↔ e = (k, a) ∨ e ∈ map ∧ e.1 ≠ k := by
  unfold set
  exact mem_upsertBy

theorem mem_keys_set {k k' : κ} {a : α} : k' ∈ (map.set k a).keys ↔ k' = k ∨ k' ∈ map.keys := by
  rw [← get_isSome, ← get_isSome, get_set]
  split
  · next heq => simp [heq]
  · next hne => simp [hne]

theorem foldl_set_eq {l : JsMap κ α} (h : l.keys.Nodup) :
    l.foldl (fun (map : JsMap κ α) e => map.set e.1 e.2) [] = l := by
  have hlisted := @foldl_upsertBy (κ × α) κ _ _ Prod.fst l [] h
  exact hlisted

theorem get_foldl_pairs (l : List (κ × α)) (map : JsMap κ α) (k : κ) :
    (l.foldl (fun (map : JsMap κ α) e => map.set e.1 e.2) map).get k
      = ((l.filter fun e => e.1 = k).getLast?.map Prod.snd).or (map.get k) := by
  induction l generalizing map with
  | nil => rfl
  | cons e l ih =>
    rw [foldl_cons, ih, get_set]
    by_cases he : e.1 = k
    · rw [filter_cons_of_pos (by simpa using he), if_pos he.symm, getLast?_cons]
      cases (l.filter fun e => e.1 = k).getLast? <;> rfl
    · rw [filter_cons_of_neg (by simpa using he), if_neg (Ne.symm he)]

theorem keys_set_nodup (h : map.keys.Nodup) (k : κ) (a : α) :
    (map.set k a).keys.Nodup := nodup_upsertBy h

theorem keys_delete_nodup (h : map.keys.Nodup) (k : κ) : (map.delete k).keys.Nodup :=
  List.Nodup.sublist (filter_sublist.map _) h

end JsMap

end Motebit.Lib
