/-
  Motebit.Lib.Purge — NONINTERFERENCE of a machine that answers its inputs one by one.

  Some inputs are `mine`.  A second run gets those alone.  The answers to them are the same in
  both runs exactly when each of them met its condition where it arrived.

  Main results:
    * `Unwinds` — the obligations on one step: a foreign input is not seen, one of mine is
      answered alike and leaves alike states, and one whose condition fails is answered otherwise.
    * `answers_purge_iff` — from them, the law for all sequences of inputs.
    * `Met.strengthen` — part of a condition may follow from how the runs are related.
-/

import Mathlib.Data.List.Basic

namespace Motebit.Lib

variable {σ ι ο : Type} (step : σ → ι → ο × σ) (mine : ι → Bool)

/-- The answers to my inputs, in order. -/
def answers : List ι → σ → List ο
  | [], _ => []
  | i :: is, s =>
    if mine i then (step s i).1 :: answers is (step s i).2 else answers is (step s i).2

/-- Each of my inputs met its condition, where it arrived in the full run and in mine. -/
def Met (ok : ι → σ → σ → Prop) : List ι → σ → σ → Prop
  | [], _, _ => True
  | i :: is, s, s' =>
    if mine i then ok i s s' ∧ Met ok is (step s i).2 (step s' i).2
    else Met ok is (step s i).2 s'

variable {step mine} {ok : ι → σ → σ → Prop}

/-- One step of the two runs; `R` may speak of the inputs still to come. -/
structure Unwinds (step : σ → ι → ο × σ) (mine : ι → Bool) (ok : ι → σ → σ → Prop)
    (R : List ι → σ → σ → Prop) : Prop where
  foreign : ∀ i is s s', mine i = false → R (i :: is) s s' → R is (step s i).2 s'
  same : ∀ i is s s', mine i = true → R (i :: is) s s' → ok i s s' →
    (step s i).1 = (step s' i).1 ∧ R is (step s i).2 (step s' i).2
  differs : ∀ i is s s', mine i = true → R (i :: is) s s' → ¬ok i s s' →
    (step s i).1 ≠ (step s' i).1

variable {R : List ι → σ → σ → Prop}

/-- **The two-run law.** -/
theorem answers_purge_iff (h : Unwinds step mine ok R) :
    ∀ (is : List ι) (s s' : σ), R is s s' →
      (answers step mine is s = answers step mine (is.filter mine) s' ↔ Met step mine ok is s s') := by
  intro is
  induction is with
  | nil => exact fun _ _ _ => ⟨fun _ => trivial, fun _ => rfl⟩
  | cons i is ih =>
    intro s s' hR
    unfold Met
    cases hi : mine i with
    | false =>
      rw [List.filter_cons_of_neg (by rw [hi]; exact Bool.false_ne_true)]
      simp only [answers, hi, Bool.false_eq_true, if_false]
      exact ih _ _ (h.foreign i is s s' hi hR)
    | true =>
      rw [List.filter_cons_of_pos hi]
      simp only [answers, hi, if_true]
      rw [List.cons.injEq]
      constructor
      · rintro ⟨hhead, htail⟩
        have hok : ok i s s' := by
          by_contra hno
          exact h.differs i is s s' hi hR hno hhead
        exact ⟨hok, (ih _ _ (h.same i is s s' hi hR hok).2).mp htail⟩
      · rintro ⟨hok, hrest⟩
        obtain ⟨hhead, hR'⟩ := h.same i is s s' hi hR hok
        exact ⟨hhead, (ih _ _ hR').mpr hrest⟩

theorem Met.strengthen {weak : ι → σ → σ → Prop} (h : Unwinds step mine ok R)
    (hok : ∀ i is s s', mine i = true → R (i :: is) s s' → weak i s s' → ok i s s') :
    ∀ (is : List ι) (s s' : σ), R is s s' → Met step mine weak is s s' →
      Met step mine ok is s s' := by
  intro is
  induction is with
  | nil => exact fun _ _ _ _ => trivial
  | cons i is ih =>
    intro s s' hR hweak
    unfold Met at hweak ⊢
    cases hi : mine i with
    | false =>
      simp only [hi, Bool.false_eq_true, if_false] at hweak ⊢
      exact ih _ _ (h.foreign i is s s' hi hR) hweak
    | true =>
      simp only [hi, if_true] at hweak ⊢
      have hmet := hok i is s s' hi hR hweak.1
      exact ⟨hmet, ih _ _ (h.same i is s s' hi hR hmet).2 hweak.2⟩

end Motebit.Lib
