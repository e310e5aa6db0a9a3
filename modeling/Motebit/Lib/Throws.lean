/-
  Motebit.Lib.Throws — COMPUTATIONS THAT ANSWER OR THROW.
-/

import Mathlib.Tactic.Common

namespace Motebit.Lib.Throws

variable {ε α β : Type}

theorem bind_eq_ok {x : Except ε α} {f : α → Except ε β} {b : β} :
    x.bind f = .ok b ↔ ∃ a, x = .ok a ∧ f a = .ok b := by
  cases x with
  | error | ok => simp [Except.bind]

theorem map_eq_ok {x : Except ε α} {f : α → β} {b : β} :
    x.map f = .ok b ↔ ∃ a, x = .ok a ∧ f a = b := by
  cases x with
  | error | ok => simp [Except.map]

end Motebit.Lib.Throws
