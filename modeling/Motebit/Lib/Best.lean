/-
  Motebit.Lib.Best — THE BEST OF EACH KEY.

  A loop that keeps, under each key, the entry with the least score it has met.

  Main results: `mem_keepBest`, `sortOn_keepBest`.
-/

import Motebit.Lib.Sort
import Motebit.Lib.Table

namespace Motebit.Lib

open List

variable {α κ σ : Type} [LinearOrder κ] [LinearOrder σ]

/-- The entry replaces the one under its key, if it has a lower score or there is none. -/
def keepBetter (key : α → κ) (score : α → σ) (best : List α) (a : α) : List α :=
  if (best.find? fun b => key b == key a).all fun b => score a < score b then
    upsertBy key a best
  else best

/-- The loop. -/
def keepBest (key : α → κ) (score : α → σ) (l : List α) : List α :=
  l.foldl (keepBetter key score) []

variable {key : α → κ} {score : α → σ}

theorem nodup_keepBest (l : List α) : ((keepBest key score l).map key).Nodup := by
  unfold keepBest
  induction l using List.reverseRecOn with
  | nil => exact nodup_nil
  | append_singleton l a ih =>
    rw [foldl_append, foldl_cons, foldl_nil]
    unfold keepBetter
    split
    · exact nodup_upsertBy ih
    · exact ih

theorem keepBest_concat (l : List α) (x : α) :
    keepBest key score (l ++ [x]) = keepBetter key score (keepBest key score l) x := by
  unfold keepBest
  rw [foldl_append, foldl_cons, foldl_nil]

/-- What a step leaves: either the new entry in the place of its key, or what was there, as good. -/
theorem keepBetter_cases (best : List α) (x : α) :
    (keepBetter key score best x = upsertBy key x best ∧
      ∀ b, best.find? (fun b => key b == key x) = some b → score x < score b) ∨
    (keepBetter key score best x = best ∧ ∃ b ∈ best, key b = key x ∧ score b ≤ score x) := by
  unfold keepBetter
  cases hfind : best.find? fun b => key b == key x with
  | none => exact .inl ⟨rfl, nofun⟩
  | some b =>
    by_cases hlt : score x < score b
    · refine .inl ⟨if_pos (by simpa using hlt), fun b' hb' => ?_⟩
      cases hb'
      exact hlt
    · refine .inr ⟨if_neg (by simpa using hlt), b, mem_of_find?_eq_some hfind, ?_, not_lt.mp hlt⟩
      exact eq_of_beq (find?_some hfind :)

theorem exists_keepBest {l : List α} {c : α} (hc : c ∈ l) :
    ∃ b ∈ keepBest key score l, key b = key c := by
  induction l using List.reverseRecOn with
  | nil => cases hc
  | append_singleton l x ih =>
    rw [keepBest_concat]
    rcases @keepBetter_cases _ _ _ _ _ key score (keepBest key score l) x with
      ⟨hset, -⟩ | ⟨hset, b, hb, hkey, -⟩
    · rw [hset]
      by_cases hx : key c = key x
      · exact ⟨x, mem_upsertBy.mpr (.inl rfl), hx.symm⟩
      · have hold : c ∈ l := by
          rcases mem_append.mp hc with hc | hc
          · exact hc
          · exact absurd (congrArg key (mem_singleton.mp hc)) hx
        obtain ⟨b, hb, hkey⟩ := ih hold
        exact ⟨b, mem_upsertBy.mpr (.inr ⟨hb, by rw [hkey]; exact hx⟩), hkey⟩
    · rw [hset]
      rcases mem_append.mp hc with hc | hc
      · exact ih hc
      · rw [mem_singleton.mp hc]
        exact ⟨b, hb, hkey⟩

/-- **The loop keeps the least of each key**, where no two entries of a key have one score. -/
theorem mem_keepBest {l : List α}
    (hscore : ∀ a ∈ l, ∀ b ∈ l, key a = key b → score a = score b → a = b) {a : α} :
    a ∈ keepBest key score l ↔ a ∈ l ∧ ∀ b ∈ l, key b = key a → score a ≤ score b := by
  induction l using List.reverseRecOn generalizing a with
  | nil =>
    show a ∈ [] ↔ _
    simp
  | append_singleton l x ih =>
    have hbest := fun {a} => @ih (fun a ha b hb => hscore a (mem_append_left _ ha) b
      (mem_append_left _ hb)) a
    have hx : x ∈ l ++ [x] := mem_append_right _ mem_cons_self
    rw [keepBest_concat]
    rcases @keepBetter_cases _ _ _ _ _ key score (keepBest key score l) x with
      ⟨hset, hless⟩ | ⟨hset, b, hb, hkey, hle⟩
    · -- the new entry is below every older one of its key
      have hmin : ∀ c ∈ l, key c = key x → score x < score c := by
        intro c hc hck
        obtain ⟨b, hb, hbk⟩ := @exists_keepBest _ _ _ _ _ key score l c hc
        have hfound := (find?_key_eq_some (nodup_keepBest l)).mpr ⟨hb, hbk.trans hck⟩
        exact lt_of_lt_of_le (hless b hfound) ((hbest.mp hb).2 c hc hbk.symm)
      rw [hset, mem_upsertBy, hbest]
      constructor
      · rintro (rfl | ⟨⟨ha, hall⟩, hne⟩)
        · refine ⟨hx, fun c hc hck => ?_⟩
          rcases mem_append.mp hc with hc | hc
          · exact (hmin c hc hck).le
          · rw [mem_singleton.mp hc]
        · refine ⟨mem_append_left _ ha, fun c hc hck => ?_⟩
          rcases mem_append.mp hc with hc | hc
          · exact hall c hc hck
          · rw [mem_singleton.mp hc] at hck
            exact absurd hck.symm hne
      · rintro ⟨ha, hall⟩
        by_cases hax : key a = key x
        · rcases mem_append.mp ha with ha | ha
          · exact absurd (hall x hx hax.symm) (not_le.mpr (hmin a ha hax))
          · exact .inl (mem_singleton.mp ha)
        · refine .inr ⟨⟨?_, fun c hc => hall c (mem_append_left _ hc)⟩, hax⟩
          rcases mem_append.mp ha with ha | ha
          · exact ha
          · exact absurd (congrArg key (mem_singleton.mp ha)) hax
    · -- the new entry changes nothing: one of its key is as good
      obtain ⟨hbl, hball⟩ := hbest.mp hb
      rw [hset, hbest]
      constructor
      · rintro ⟨ha, hall⟩
        refine ⟨mem_append_left _ ha, fun c hc hck => ?_⟩
        rcases mem_append.mp hc with hc | hc
        · exact hall c hc hck
        · rw [mem_singleton.mp hc] at hck ⊢
          exact le_trans (hall b hbl (hkey.trans hck)) hle
      · rintro ⟨ha, hall⟩
        have hold : a ∈ l := by
          rcases mem_append.mp ha with ha' | ha'
          · exact ha'
          · rw [mem_singleton.mp ha'] at hall ⊢
            have hsame := le_antisymm hle (hall b (mem_append_left _ hbl) hkey)
            rw [← hscore b (mem_append_left _ hbl) x hx hkey hsame]
            exact hbl
        exact ⟨hold, fun c hc => hall c (mem_append_left _ hc)⟩

/-- **What is kept, in the order of its keys, depends on what the list holds alone.** -/
theorem sortOn_keepBest {l l' : List α}
    (hscore : ∀ a ∈ l, ∀ b ∈ l, key a = key b → score a = score b → a = b)
    (hmem : ∀ a, a ∈ l ↔ a ∈ l') :
    sortOn key (keepBest key score l) = sortOn key (keepBest key score l') := by
  have hscore' : ∀ a ∈ l', ∀ b ∈ l', key a = key b → score a = score b → a = b :=
    fun a ha b hb => hscore a ((hmem a).mpr ha) b ((hmem b).mpr hb)
  refine sortOn_eq (nodup_keepBest l) (nodup_keepBest l') fun a => ?_
  rw [mem_keepBest hscore, mem_keepBest hscore', hmem]
  refine and_congr_right fun _ => forall_congr' fun b => ?_
  rw [hmem]

end Motebit.Lib
