/-
  Motebit.Lib.Memo — A MEMO TABLE CHANGES NO ANSWER.

  A computation with a state answers what a computation without one says, as long as the state
  keeps an invariant.  A table of earlier answers is such a state: an answer is looked up under
  a key, and the key says as much about the argument as the answer depends on.

  Main results: `Answers.bind`, `Answers.foldlM`, `answers_memoized`.
-/

import Motebit.Lib.Table

namespace Motebit.Lib

open List

variable {σ κ α β γ : Type}

/-! ## §1. Answers -/

/-- From a state that keeps the invariant the run answers `a` and keeps it. -/
def Answers (Inv : σ → Prop) (x : StateM σ α) (a : Id α) : Prop :=
  ∀ s, Inv s → (x.run s).1 = a ∧ Inv (x.run s).2

variable {Inv : σ → Prop}

theorem Answers.pure (a : α) : Answers Inv (Pure.pure a) (Pure.pure a) :=
  fun _ hs => ⟨rfl, hs⟩

/-- **Answers compose.** -/
theorem Answers.bind {x : StateM σ α} {a : Id α} {f : α → StateM σ β} {g : α → Id β}
    (hx : Answers Inv x a) (hf : ∀ a, Answers Inv (f a) (g a)) :
    Answers Inv (x >>= f) (a >>= g) := by
  intro s hs
  obtain ⟨hanswer, hs'⟩ := hx s hs
  have hnext := hf (x.run s).1 (x.run s).2 hs'
  have hrun : (x >>= f).run s = (f (x.run s).1).run (x.run s).2 := rfl
  have hplain : (a >>= g) = g a := rfl
  rw [hrun, hplain, ← hanswer]
  exact hnext

theorem Answers.foldlM {f : β → α → StateM σ β} {g : β → α → Id β}
    (hf : ∀ b a, Answers Inv (f b a) (g b a)) (l : List α) (b : β) :
    Answers Inv (l.foldlM f b) (l.foldlM g b) := by
  induction l generalizing b with
  | nil => exact .pure b
  | cons a l ih =>
    rw [foldlM_cons, foldlM_cons]
    exact (hf b a).bind ih

/-! ## §2. The table -/

/-- The answer under the argument's key, looked up or computed and kept. -/
def memoized [DecidableEq κ] (key : α → κ) (f : α → β) (a : α) : StateM (List (κ × β)) β := do
  let memo ← get
  match memo.find? fun e => e.1 == key a with
  | some e => return e.2
  | none =>
    set (upsertBy Prod.fst (key a, f a) memo)
    return f a

/-- The table holds the function's own answers. -/
def Recorded (key : α → κ) (f : α → β) (memo : List (κ × β)) : Prop :=
  ∀ e ∈ memo, ∀ a, key a = e.1 → e.2 = f a

theorem recorded_nil (key : α → κ) (f : α → β) : Recorded key f [] :=
  nofun

/-- **A look-up answers what the function does**, where arguments of one key have one answer. -/
theorem answers_memoized [DecidableEq κ] {key : α → κ} {f : α → β}
    (hkey : ∀ a b, key a = key b → f a = f b) (a : α) :
    Answers (Recorded key f) (memoized key f a) (Pure.pure (f a)) := by
  intro memo hmemo
  have hrun : (memoized key f a).run memo
      = match memo.find? fun e => e.1 == key a with
        | some e => (e.2, memo)
        | none => (f a, upsertBy Prod.fst (key a, f a) memo) := by
    unfold memoized
    simp only [StateT.run_bind, StateT.run_get, pure_bind]
    cases memo.find? fun e => e.1 == key a <;> rfl
  rw [hrun]
  cases hfind : memo.find? fun e => e.1 == key a with
  | some e =>
    have hhit : e.1 = key a := eq_of_beq (find?_some hfind :)
    exact ⟨hmemo e (mem_of_find?_eq_some hfind) a hhit.symm, hmemo⟩
  | none =>
    refine ⟨rfl, fun e he b hb => ?_⟩
    rcases mem_upsertBy.mp he with rfl | ⟨he, -⟩
    · exact hkey a b hb.symm
    · exact hmemo e he b hb

end Motebit.Lib
