/-
  Motebit.Lib.Latest — THE LATEST OF WHAT IS DELIVERED.

  A register takes a version unless it holds one with a greater key: a version with the key of
  the one it holds replaces it.

  Main results: `deliver_cases`, `converges_deliver`.
-/

import Mathlib.Order.Lattice
import Mathlib.Data.List.Induction

namespace Motebit.Lib

open List

/-! ## §1. Deliveries in any order -/

/-- Two lists of deliveries of the same versions, in any order and any number of times, end the
    same. -/
def Converges {α ρ : Type} (ends : List α → ρ) (versions : List α) : Prop :=
  ∀ l₁ l₂ : List α, (∀ v, v ∈ l₁ ↔ v ∈ versions) → (∀ v, v ∈ l₂ ↔ v ∈ versions) →
    ends l₁ = ends l₂

section Converges

variable {α ρ σ : Type} {ends : List α → ρ} {versions : List α}

theorem Converges.map (h : Converges ends versions)
    (f : ρ → σ) : Converges (fun l => f (ends l)) versions :=
  fun l₁ l₂ h₁ h₂ => congrArg f (h l₁ l₂ h₁ h₂)

theorem converges_filter {p : α → Bool} :
    Converges (fun l => ends (l.filter p)) versions ↔ Converges ends (versions.filter p) := by
  constructor
  · intro h l₁ l₂ h₁ h₂
    -- each list of selected versions, followed by the others, is a delivery of all
    have hall : ∀ l : List α, (∀ v, v ∈ l ↔ v ∈ versions.filter p) →
        (∀ v, v ∈ l ++ versions.filter (fun v => !p v) ↔ v ∈ versions) ∧
          (l ++ versions.filter fun v => !p v).filter p = l := by
      intro l hl
      constructor
      · intro v
        rw [mem_append, hl, mem_filter, mem_filter]
        cases p v <;> simp
      · rw [filter_append, filter_filter]
        have hself : l.filter p = l := by
          rw [filter_eq_self]
          intro v hv
          exact (mem_filter.mp ((hl v).mp hv)).2
        simp [hself]
    have hsame := h _ _ (hall l₁ h₁).1 (hall l₂ h₂).1
    dsimp only at hsame
    rwa [(hall l₁ h₁).2, (hall l₂ h₂).2] at hsame
  · intro h l₁ l₂ h₁ h₂
    apply h
    · intro v
      rw [mem_filter, mem_filter, h₁]
    · intro v
      rw [mem_filter, mem_filter, h₂]

end Converges

/-! ## §2. A register -/

variable {α β κ : Type} [LinearOrder κ]

/-- One delivery. -/
def settle (key : α → κ) : Option α → α → Option α
  | none, v => some v
  | some held, v => if key held ≤ key v then some v else some held

/-- Deliveries one after another. -/
def deliver (key : α → κ) (held : Option α) (l : List α) : Option α := l.foldl (settle key) held

/-- A version than which none that is held or delivered is later. -/
structure IsLatest (key : α → κ) (held : Option α) (versions : List α) (v : α) : Prop where
  mem : v ∈ versions
  held : ∀ w ∈ held, key w ≤ key v
  latest : ∀ w ∈ versions, key w ≤ key v

variable {key : α → κ} {held : Option α} {v : α} {l : List α}

theorem settle_of_le (h : ∀ w ∈ held, key w ≤ key v) : settle key held v = some v := by
  cases held with
  | none => rfl
  | some w => exact if_pos (h w rfl)

theorem settle_of_lt {w : α} (h : key v < key w) : settle key (some w) v = some w :=
  if_neg (not_le.mpr h)

@[simp] theorem deliver_nil : deliver key held [] = held := rfl

theorem deliver_concat (l : List α) (v : α) :
    deliver key held (l ++ [v]) = settle key (deliver key held l) v := by
  unfold deliver
  rw [foldl_append, foldl_cons, foldl_nil]

/-- **What a register ends with**: one of the latest versions, or, when what it held is later
    than all of them, that. -/
theorem deliver_cases (key : α → κ) (held : Option α) (l : List α) :
    (∃ v, deliver key held l = some v ∧ IsLatest key held l v) ∨
      (deliver key held l = held ∧ ∀ v ∈ l, ∃ w ∈ held, key v < key w) := by
  induction l using List.reverseRecOn with
  | nil => exact .inr ⟨rfl, by simp⟩
  | append_singleton l v ih =>
    rw [deliver_concat]
    rcases ih with ⟨u, hu, hlatest⟩ | ⟨hsame, holder⟩
    · rw [hu]
      left
      by_cases huv : key u ≤ key v
      · refine ⟨v, if_pos huv, by simp, fun w hw => (hlatest.held w hw).trans huv, ?_⟩
        intro w hw
        rcases mem_append.mp hw with hw | hw
        · exact (hlatest.latest w hw).trans huv
        · rw [mem_singleton.mp hw]
      · refine ⟨u, if_neg huv, by simp [hlatest.mem], hlatest.held, ?_⟩
        exact forall_mem_append.mpr ⟨hlatest.latest, forall_mem_singleton.mpr ((not_le.mp huv).le)⟩
    · rw [hsame]
      by_cases hle : ∀ w ∈ held, key w ≤ key v
      · left
        refine ⟨v, settle_of_le hle, by simp, hle, ?_⟩
        intro w hw
        rcases mem_append.mp hw with hw | hw
        · obtain ⟨x, hx, hlt⟩ := holder w hw
          exact hlt.le.trans (hle x hx)
        · rw [mem_singleton.mp hw]
      · right
        push Not at hle
        obtain ⟨w, hw, hlt⟩ := hle
        obtain rfl : held = some w := hw
        refine ⟨settle_of_lt hlt, ?_⟩
        intro x hx
        rcases mem_append.mp hx with hx | hx
        · exact holder x hx
        · exact ⟨w, rfl, by rw [mem_singleton.mp hx]; exact hlt⟩

theorem mem_of_deliver (h : deliver key held l = some v) : v ∈ l ∨ held = some v := by
  rcases deliver_cases key held l with ⟨u, hu, hlatest⟩ | ⟨hsame, -⟩
  · obtain rfl : u = v := Option.some.inj (hu.symm.trans h)
    exact .inl hlatest.mem
  · exact .inr (hsame.symm.trans h)

theorem le_deliver_of_held (key : α → κ) {w : α} (l : List α) (hw : w ∈ held) :
    ∃ v, deliver key held l = some v ∧ key w ≤ key v := by
  rcases deliver_cases key held l with ⟨v, hv, hlatest⟩ | ⟨hsame, -⟩
  · exact ⟨v, hv, hlatest.held w hw⟩
  · exact ⟨w, hsame.trans hw, le_refl _⟩

theorem le_deliver_of_mem (key : α → κ) (held : Option α) {w : α} (hw : w ∈ l) :
    ∃ v, deliver key held l = some v ∧ key w ≤ key v := by
  rcases deliver_cases key held l with ⟨v, hv, hlatest⟩ | ⟨hsame, holder⟩
  · exact ⟨v, hv, hlatest.latest w hw⟩
  · obtain ⟨v, hv, hlt⟩ := holder w hw
    exact ⟨v, hsame.trans hv, hlt.le⟩

theorem deliver_of_isLatest (h : IsLatest key held l v) : deliver key held (l ++ [v]) = some v := by
  rw [deliver_concat]
  apply settle_of_le
  intro w hw
  rcases deliver_cases key held l with ⟨u, hu, hlatest⟩ | ⟨hsame, -⟩
  · obtain rfl : u = w := by rw [hu] at hw; exact Option.some.inj hw
    exact h.latest u hlatest.mem
  · rw [hsame] at hw
    exact h.held w hw

theorem IsLatest.congr {l' : List α} (hmem : ∀ v, v ∈ l ↔ v ∈ l') (h : IsLatest key held l v) :
    IsLatest key held l' v :=
  ⟨(hmem v).mp h.mem, h.held, fun w hw => h.latest w ((hmem w).mpr hw)⟩

theorem isLatest_map {key : α → κ} {view : β → α} {held : Option β} {versions : List β} {v : β}
    (hv : v ∈ versions) :
    IsLatest key (held.map view) (versions.map view) (view v) ↔
      IsLatest (fun w => key (view w)) held versions v := by
  constructor
  · intro h
    exact ⟨hv, fun w hw => h.held (view w) (Option.mem_map_of_mem view hw),
      fun w hw => h.latest (view w) (mem_map_of_mem hw)⟩
  · intro h
    refine ⟨mem_map_of_mem hv, ?_, ?_⟩
    · intro a ha
      obtain ⟨w, hw, rfl⟩ := Option.map_eq_some_iff.mp ha
      exact h.held w hw
    · intro a ha
      obtain ⟨w, hw, rfl⟩ := mem_map.mp ha
      exact h.latest w hw

/-- The latest versions agree in what the register keeps of them. -/
def Untied (key : β → κ) (view : β → α) (held : Option β) (versions : List β) : Prop :=
  ∀ v w, IsLatest key held versions v → IsLatest key held versions w → view v = view w

/-- **Deliveries converge exactly when the latest versions agree**, in what the register keeps
    of a version. -/
theorem converges_deliver (key : α → κ) (view : β → α) (held : Option β) (versions : List β) :
    Converges (fun l => deliver key (held.map view) (l.map view)) versions ↔
      Untied (fun v => key (view v)) view held versions := by
  constructor
  · intro h v w hv hw
    -- the versions, and one of the latest once more at the end
    have hend : ∀ u, IsLatest (fun v => key (view v)) held versions u →
        (∀ x, x ∈ versions ++ [u] ↔ x ∈ versions) ∧
          deliver key (held.map view) ((versions ++ [u]).map view) = some (view u) := by
      intro u hu
      constructor
      · intro x
        rw [mem_append, mem_singleton]
        exact ⟨fun hx => hx.elim (fun h => h) fun heq => heq ▸ hu.mem, Or.inl⟩
      · rw [map_append]
        exact deliver_of_isLatest ((isLatest_map hu.mem).mpr hu)
    have hsame := h _ _ (hend v hv).1 (hend w hw).1
    dsimp only at hsame
    rw [(hend v hv).2, (hend w hw).2] at hsame
    exact Option.some.inj hsame
  · intro h l₁ l₂ h₁ h₂
    have hends : ∀ l : List β, (∀ v, v ∈ l ↔ v ∈ versions) →
        (∃ v, deliver key (held.map view) (l.map view) = some (view v) ∧
          IsLatest (fun v => key (view v)) held versions v) ∨
        (deliver key (held.map view) (l.map view) = held.map view ∧
          ∀ v ∈ versions, ∃ w ∈ held, key (view v) < key (view w)) := by
      intro l hl
      rcases deliver_cases key (held.map view) (l.map view) with ⟨a, ha, hlatest⟩ | ⟨hsame, holder⟩
      · obtain ⟨v, hv, rfl⟩ := mem_map.mp hlatest.mem
        exact .inl ⟨v, ha, ((isLatest_map hv).mp hlatest).congr hl⟩
      · refine .inr ⟨hsame, ?_⟩
        intro v hv
        obtain ⟨a, ha, hlt⟩ := holder (view v) (mem_map_of_mem ((hl v).mpr hv))
        obtain ⟨w, hw, rfl⟩ := Option.map_eq_some_iff.mp ha
        exact ⟨w, hw, hlt⟩
    -- a latest version is not older than what is held
    have hapart : ∀ v, IsLatest (fun v => key (view v)) held versions v →
        ¬ ∀ v ∈ versions, ∃ w ∈ held, key (view v) < key (view w) := by
      intro v hv hall
      obtain ⟨w, hw, hlt⟩ := hall v hv.mem
      exact absurd (hv.held w hw) (not_le.mpr hlt)
    dsimp only
    rcases hends l₁ h₁ with ⟨v, hdeliver, hv⟩ | ⟨hsame, holder⟩
    · rcases hends l₂ h₂ with ⟨w, hdeliver', hw⟩ | ⟨-, holder'⟩
      · rw [hdeliver, hdeliver', h v w hv hw]
      · exact absurd holder' (hapart v hv)
    · rcases hends l₂ h₂ with ⟨w, -, hw⟩ | ⟨hsame', -⟩
      · exact absurd holder (hapart w hw)
      · rw [hsame, hsame']

theorem converges_deliver_self (key : α → κ) (held : Option α) (versions : List α) :
    Converges (deliver key held) versions ↔ Untied key (fun v => v) held versions := by
  have h := converges_deliver key (fun v : α => v) held versions
  simpa using h

end Motebit.Lib
