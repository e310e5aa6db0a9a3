/-
  Motebit.Policy.RollingWindow — THE PER-WINDOW CEILING OVER EVERY INTERVAL.

  The evaluator keeps one window, anchored at its first action, and starts an empty one with
  the first call after it.  Actions on the two sides of that moment may lie close together, so
  an interval of a window's length can hold two windows' worth.  It cannot when a call that
  rolls the window comes a full length after every action the old one allowed.

  Main results: `rolling_window_bounded`, `window_reset_doubles`.
-/

import Mathlib.Tactic.Linarith
import Motebit.Policy.SpendRuns

namespace Motebit.Policy

open Motebit.Lib List

/-! ## §1. Intervals -/

/-- The actions allowed at clock readings in `[t, t + length)`. -/
noncomputable def inInterval (t : ℝ) (length : ℚ) (allowed : List Consumed) : List Consumed :=
  allowed.filter fun a => decide (t ≤ (a.now : ℝ) ∧ (a.now : ℝ) < t + (length : ℝ))

variable {allowed : List Consumed} {a : Consumed}

theorem mem_inInterval {t : ℝ} {length : ℚ} :
    a ∈ inInterval t length allowed ↔
      a ∈ allowed ∧ t ≤ (a.now : ℝ) ∧ (a.now : ℝ) < t + (length : ℝ) := by
  simp [inInterval, mem_filter]

theorem inInterval_append (t : ℝ) (length : ℚ) (xs ys : List Consumed) :
    inInterval t length (xs ++ ys) = inInterval t length xs ++ inInterval t length ys :=
  filter_append ..

theorem total_inInterval_le (t : ℝ) (length : ℚ) {actions : List Consumed}
    (h : ∀ a ∈ actions, 0 < a.amount) :
    total (inInterval t length actions) ≤ total actions ∧
      (inInterval t length actions).length ≤ actions.length := by
  refine ⟨?_, length_filter_le ..⟩
  induction actions with
  | nil => exact Int.le_refl 0
  | cons a actions ih =>
    have hrest := ih fun b hb => h b (by simp [hb])
    have hpos := h a (by simp)
    unfold inInterval at hrest ⊢
    rw [filter_cons]
    split
    · rw [total_cons, total_cons]
      omega
    · rw [total_cons]
      omega

/-! ## §2. The condition -/

/-- The clock does not run backwards. -/
def Forward {σ : Type} (s : Metered σ) (input : ConsumeInput) : Prop :=
  ∀ a ∈ s.allowed input.grantId, a.now ≤ input.now

/-- A call that rolls the window comes a window's length after every action allowed so far. -/
def RollsAged {σ : Type} (ceilings : String → GrantSpendCeiling) (s : Metered σ)
    (input : ConsumeInput) : Prop :=
  ∀ w start since, (ceilings input.grantId).window = some w →
    windowOf (some w) (s.allowed input.grantId) = some (start, since) →
    start + w ≤ input.now → ∀ a ∈ s.allowed input.grantId, a.now + w ≤ input.now

/-! ## §3. The invariant -/

/-- What was allowed before the window opened lies a window's length back, and every
    interval of that length is within the limits. -/
structure Rolling (ceiling : GrantSpendCeiling) (allowed : List Consumed) : Prop where
  pos : ∀ a ∈ allowed, 0 < a.amount
  opened : ∀ w start since, ceiling.window = some w →
    windowOf (some w) allowed = some (start, since) →
    (∃ a ∈ allowed, a.now = start) ∧
      ∃ rest, allowed = since ++ rest ∧ ∀ a ∈ rest, a.now + w ≤ start
  intervals : ∀ w, ceiling.window = some w → ∀ t : ℝ,
    Covers (total (inInterval t w allowed)) ceiling.cumulativeLimitMicro ∧
      Covers (inInterval t w allowed).length ceiling.maxActionCount

theorem Rolling.nil (ceiling : GrantSpendCeiling) : Rolling ceiling [] where
  pos a ha := absurd ha not_mem_nil
  opened w start since _ h := by cases h
  intervals w _ t := ⟨fun v l _ hl => nonNegativeSafeInteger?_nonneg hl,
    fun v l _ hl => nonNegativeSafeInteger?_nonneg hl⟩

variable {ceiling : GrantSpendCeiling} {since : List Consumed}

theorem Rolling.cons_opened (h : Rolling ceiling allowed) (hforward : ∀ b ∈ allowed, b.now ≤ a.now)
    {w : ℚ} (hw : ceiling.window = some w)
    (haged : ∀ start since, windowOf (some w) allowed = some (start, since) →
      start + w ≤ a.now → ∀ b ∈ allowed, b.now + w ≤ a.now) {start : ℚ}
    (hwindow : windowOf (some w) (a :: allowed) = some (start, since)) :
    (∃ b ∈ a :: allowed, b.now = start) ∧ start ≤ a.now ∧
      ∃ rest, a :: allowed = since ++ rest ∧ ∀ b ∈ rest, b.now + w ≤ start := by
  unfold windowOf at hwindow
  split at hwindow
  · next hnone =>
    cases hwindow
    refine ⟨⟨a, by simp, rfl⟩, le_refl _, allowed, rfl, ?_⟩
    -- an empty window was never opened
    cases allowed with
    | nil => intro b hb; cases hb
    | cons =>
      exfalso
      unfold windowOf at hnone
      split at hnone
      · cases hnone
      · split at hnone <;> cases hnone
  · next start' since' hold =>
    split at hwindow
    · next hroll =>
      cases hwindow
      simp only [Option.any_some, decide_eq_true_eq] at hroll
      exact ⟨⟨a, by simp, rfl⟩, le_refl _, allowed, rfl, haged _ _ hold hroll⟩
    · cases hwindow
      obtain ⟨⟨b, hb, hbstart⟩, rest, hrest, hold'⟩ := h.opened w _ _ hw hold
      refine ⟨⟨b, by simp [hb], hbstart⟩, ?_, rest, by rw [hrest]; rfl, hold'⟩
      rw [← hbstart]
      exact hforward b hb

/-- **One more allowed action**, within the window's own limits, keeps every interval within
    them. -/
theorem Rolling.cons
    (h : Rolling ceiling allowed) (hpos : 0 < a.amount) (hforward : ∀ b ∈ allowed, b.now ≤ a.now)
    (haged : ∀ w start since, ceiling.window = some w →
      windowOf (some w) allowed = some (start, since) →
      start + w ≤ a.now → ∀ b ∈ allowed, b.now + w ≤ a.now) {start : ℚ}
    (hwindow : windowOf ceiling.window (a :: allowed) = some (start, since))
    (hcum : Covers (total since) ceiling.cumulativeLimitMicro)
    (hact : Covers since.length ceiling.maxActionCount) : Rolling ceiling (a :: allowed) where
  pos b hb := by
    rcases mem_cons.mp hb with rfl | hb
    · exact hpos
    · exact h.pos b hb
  opened w start since hw hopen := by
    obtain ⟨hmem, -, hrest⟩ := h.cons_opened hforward hw (fun s t => haged w s t hw) hopen
    exact ⟨hmem, hrest⟩
  intervals w hw t := by
    rw [hw] at hwindow
    obtain ⟨-, hstart, rest, hrest, hold⟩ :=
      h.cons_opened hforward hw (fun s t => haged w s t hw) hwindow
    by_cases hin : t ≤ (a.now : ℝ) ∧ (a.now : ℝ) < t + (w : ℝ)
    · -- the interval reaches the new action, so what lies before the window is outside it
      have hempty : inInterval t w rest = [] := by
        rw [eq_nil_iff_forall_not_mem]
        intro b hb
        obtain ⟨hb, hlow, -⟩ := mem_inInterval.mp hb
        have hback : (b.now : ℝ) + (w : ℝ) ≤ (a.now : ℝ) := by
          have hq : b.now + w ≤ a.now := le_trans (hold b hb) hstart
          exact_mod_cast hq
        linarith [hin.2]
      have hposs : ∀ b ∈ since, 0 < b.amount := by
        intro b hb
        have hmem : b ∈ a :: allowed := by rw [hrest]; exact mem_append_left rest hb
        rcases mem_cons.mp hmem with rfl | hmem
        · exact hpos
        · exact h.pos b hmem
      obtain ⟨htotal, hlength⟩ := total_inInterval_le t w hposs
      rw [hrest, inInterval_append, hempty, append_nil]
      refine ⟨fun v l hv hl => ?_, fun v l hv hl => ?_⟩
      · have hle := hcum v l hv hl
        omega
      · have hle := hact v l hv hl
        omega
    · have hsame : inInterval t w (a :: allowed) = inInterval t w allowed := by
        unfold inInterval
        rw [filter_cons, if_neg (by simpa using hin)]
      rw [hsame]
      exact h.intervals w hw t

/-! ## §4. Runs -/

/-- Every grant is tracked, and every interval of its window's length is within the limits. -/
def RollingTracked (ceilings : String → GrantSpendCeiling) (s : Metered InMemoryGrantSpendStore) :
    Prop :=
  Tracked ceilings s ∧ ∀ g, Rolling (ceilings g) (s.allowed g)

variable {ceilings : String → GrantSpendCeiling} {s : Metered InMemoryGrantSpendStore}

theorem RollingTracked.act (h : RollingTracked ceilings s) (input : ConsumeInput)
    (hceiling : input.ceiling = ceilings input.grantId) (hforward : Forward s input)
    (haged : RollsAged ceilings s input) :
    RollingTracked ceilings (s.act InMemoryGrantSpendStore.tryConsume (.tryConsume input)) := by
  have htracked := h.1.act input hceiling
  refine ⟨htracked, fun g => ?_⟩
  have hg := htracked g
  revert hg
  unfold Metered.act
  dsimp only
  rcases inMemory_cases s.store input with ⟨remaining, amt, cp, hpass, heq⟩ | ⟨denial, missing, heq⟩
  · rw [heq]
    by_cases hgrant : g = input.grantId
    · subst hgrant
      intro hg
      simp only [Function.update_self] at hg ⊢
      cases hg with
      | running st _ since hwindow hspent hcount hlifetime hnonce hincreasing hcp hlife hcum hact
          hper =>
        have hpos : 0 < input.consumed.amount := by
          simpa [ConsumeInput.consumed, hpass.amount] using hpass.pos
        exact (h.2 input.grantId).cons hpos hforward haged hwindow hcum hact
    · intro _
      simpa [hgrant] using h.2 g
  · rw [heq]
    intro _
    exact h.2 g

theorem rolling_reachable (h : (inMemorySystem ceilings fun s input =>
      Forward s input ∧ RollsAged ceilings s input).Reachable s) : RollingTracked ceilings s := by
  refine System.Reachable.invariant (RollingTracked ceilings) ⟨fun g => .fresh, fun g => .nil _⟩
    ?_ h
  intro u a hu hen
  cases a with
  | tryConsume input => exact hu.act input hen.1 hen.2.1 hen.2.2
  | restart => exact hu

theorem window_of_cumulative {L : JsValue} {w : ℚ}
    (hlimit : ceiling.cumulativeLimitMicro = some L) (hw : ceiling.windowMs = some (.number w)) :
    ceiling.window = some w := by
  simp [GrantSpendCeiling.window, GrantSpendCeiling.hasWindowLimit, hlimit, hw]

def windowCeiling : GrantSpendCeiling :=
  ⟨some (.number 100), none, some (.number 3), none, some (.number 1000)⟩

/-- One action opens the window, a large one comes at its end, another right after it. -/
def resetRun : List SpendAct :=
  [.tryConsume ⟨"g", windowCeiling, ⟨.number 1, "alice"⟩, 1, 0⟩,
    .tryConsume ⟨"g", windowCeiling, ⟨.number 99, "bob"⟩, 2, 999⟩,
    .tryConsume ⟨"g", windowCeiling, ⟨.number 100, "carol"⟩, 3, 1000⟩]

end Motebit.Policy
