/-
  Motebit.Lib.Transition — REACHABLE STATES of a labelled transition system,
  and the induction rule every safety theorem of this development goes through.

  A system is given by its initial state and a partial, guarded action: `enabled`
  says which actions a state admits, `apply` says what an admitted action does.
  Nothing here names a particular program.

  Main results: `Reachable.invariant`, `Reachable.map`, `ReachableFrom.invariant`.
-/

import Mathlib.Tactic.Common

namespace Motebit.Lib

/-! ## §1. Systems and runs -/

/-- A transition system: what it starts from, which actions a state admits, and
    what an action does. -/
structure System (σ : Type) (Act : Type) where
  init : σ
  enabled : σ → Act → Prop
  apply : σ → Act → σ

namespace System

variable {σ Act : Type} (sys : System σ Act)

/-- States a finite run of admitted actions leads to, from `s`. -/
inductive ReachableFrom (s : σ) : σ → Prop
  | refl : ReachableFrom s s
  | step {t : σ} (a : Act) : ReachableFrom s t → sys.enabled t a →
      ReachableFrom s (sys.apply t a)

/-- States a finite run leads to from the initial one. -/
def Reachable (s : σ) : Prop := sys.ReachableFrom sys.init s

/-! ## §2. The induction rules -/

/-- What holds at the start of a run and is kept by every admitted action holds at
    its end. -/
theorem ReachableFrom.invariant {sys : System σ Act} {s t : σ} (Inv : σ → Prop) (hs : Inv s)
    (hstep : ∀ u a, Inv u → sys.enabled u a → Inv (sys.apply u a))
    (h : sys.ReachableFrom s t) : Inv t := by
  induction h with
  | refl => exact hs
  | step a _ hen ih => exact hstep _ a ih hen

/-- **The invariant rule**: initial and inductive implies reachable. -/
theorem Reachable.invariant {sys : System σ Act} {t : σ} (Inv : σ → Prop) (hinit : Inv sys.init)
    (hstep : ∀ u a, Inv u → sys.enabled u a → Inv (sys.apply u a)) (h : sys.Reachable t) : Inv t :=
  ReachableFrom.invariant Inv hinit hstep h

theorem ReachableFrom.trans {sys : System σ Act} {s t u : σ}
    (hst : sys.ReachableFrom s t) (htu : sys.ReachableFrom t u) : sys.ReachableFrom s u := by
  induction htu with
  | refl => exact hst
  | step a _ hen ih => exact ih.step a hen

/-- **Simulation**: a map of states under which every step is a run of the other system takes
    reachable states to reachable states. -/
theorem Reachable.map {τ Act' : Type} {sys : System σ Act} {sys' : System τ Act'} (f : σ → τ)
    (hinit : sys'.Reachable (f sys.init))
    (hstep : ∀ s a, sys.enabled s a → sys'.ReachableFrom (f s) (f (sys.apply s a)))
    {s : σ} (h : sys.Reachable s) : sys'.Reachable (f s) :=
  Reachable.invariant (fun s => sys'.Reachable (f s)) hinit
    (fun u a hu hen => ReachableFrom.trans hu (hstep u a hen)) h

/-! ## §3. Running a concrete list of actions -/

/-- The state a list of actions leads to, left to right. -/
def run (s : σ) (acts : List Act) : σ := acts.foldl sys.apply s

/-- Every action of the list is admitted where it is taken. -/
def Admits (s : σ) : List Act → Prop
  | [] => True
  | a :: as => sys.enabled s a ∧ Admits (sys.apply s a) as

theorem reachableFrom_run (s : σ) (acts : List Act) (h : sys.Admits s acts) :
    sys.ReachableFrom s (sys.run s acts) := by
  induction acts generalizing s with
  | nil => exact .refl
  | cons a as ih =>
    obtain ⟨hen, has⟩ := h
    have hone : sys.ReachableFrom s (sys.apply s a) := .step a .refl hen
    exact hone.trans (ih (sys.apply s a) has)

end System

end Motebit.Lib
