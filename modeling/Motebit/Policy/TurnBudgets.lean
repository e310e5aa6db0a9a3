/-
  Motebit.Policy.TurnBudgets — THE BUDGET OF A TURN, under a reset that all turns share.

  Translated from `createTurnContext` and `recordToolCall` of
  `packages/policy/src/policy-gate.ts`, over the gate of `Policy.Gate`.  One gate serves any
  number of turns; a clock that never runs back drives them.  Every allowed call is kept with
  its time, the context it was judged by, and whether its check found the reset due.

  Main results: `validate_allowed`, `turn_budgets`.
-/

import Motebit.Lib.Transition
import Motebit.Policy.Gate

namespace Motebit.Policy

open Motebit.Lib List
open PolicyGate

/-! ## §1. Turns -/

def recordToolCall (ctx : TurnContext) (cost : Int) : TurnContext :=
  { ctx with
    toolCallCount := ctx.toolCallCount + 1
    costAccumulated := ctx.costAccumulated + cost }

/-- `createTurnContext`; the runtime adds what it knows of the caller. -/
def TurnContext.CreatedAt (now : Int) (ctx : TurnContext) : Prop :=
  ctx.toolCallCount = 0 ∧ ctx.costAccumulated = 0 ∧ ctx.turnStartMs = now

instance (now : Int) (ctx : TurnContext) : Decidable (ctx.CreatedAt now) :=
  inferInstanceAs (Decidable (_ ∧ _))

def PolicyDecision.isAllowed : PolicyDecision → Bool
  | .denied _ => false
  | .allowed .. => true

def PolicyGate.shouldReset (gate : PolicyGate) (now : Int) : Bool :=
  0 < gate.budget.resetAfterSeconds &&
    gate.budget.resetAfterSeconds * 1000 ≤ now - gate.lastResetAt

/-- A call that was allowed, with the context it was judged by. -/
structure AllowedCall where
  turn : Nat
  time : Int
  before : TurnContext
  reset : Bool
  deriving DecidableEq

/-- A gate, the clock and the turns it serves. -/
structure Turns where
  gate : PolicyGate
  now : Int
  turns : List TurnContext
  calls : List AllowedCall

inductive TurnAction
  | tick (ms : Int)
  | createTurnContext (ctx : TurnContext)
  | call (turn : Nat) (tool : ToolDefinition) (args : ToolArgs) (noApprovalChannel : Bool)
      (cost : Int)

/-- `validate`, and `recordToolCall` where the call is allowed. -/
def Turns.call (hostname : String → Option String) (s : Turns) (turn : Nat) (ctx : TurnContext)
    (tool : ToolDefinition) (args : ToolArgs) (noApprovalChannel : Bool) (cost : Int) : Turns :=
  let (decision, gate) := s.gate.validate hostname s.now tool args ctx noApprovalChannel
  if decision.isAllowed then
    { s with
      gate
      turns := s.turns.set turn (recordToolCall ctx cost)
      calls := s.calls ++ [⟨turn, s.now, ctx, s.gate.shouldReset s.now⟩] }
  else { s with gate }

/-- The turns of one gate, constructed at `started`. -/
def turnSystem (hostname : String → Option String) (config : PolicyConfig) (budget : BudgetConfig)
    (started : Int) : System Turns TurnAction where
  init := ⟨⟨config, budget, started, fun _ => none⟩, started, [], []⟩
  enabled s
    | .tick ms => 0 ≤ ms
    | .createTurnContext ctx => ctx.CreatedAt s.now
    | .call turn .. => turn < s.turns.length
  apply s
    | .tick ms => { s with now := s.now + ms }
    | .createTurnContext ctx => { s with turns := s.turns ++ [ctx] }
    | .call turn tool args noApprovalChannel cost =>
      match s.turns[turn]? with
      | none => s
      | some ctx => s.call hostname turn ctx tool args noApprovalChannel cost

/-! ## §2. One check -/

/-- The three caps at a call. -/
def WithinLimits (budget : BudgetConfig) (c : AllowedCall) : Prop :=
  c.before.toolCallCount < budget.maxCallsPerTurn ∧
    c.time < c.before.turnStartMs + budget.maxTurnDurationMs ∧
    (0 < budget.maxCostPerTurn → c.before.costAccumulated < budget.maxCostPerTurn)

theorem checkBudget_lastResetAt (gate : PolicyGate) (now : Int) (ctx : TurnContext) :
    (gate.checkBudget now ctx).2 = if gate.shouldReset now then now else gate.lastResetAt := by
  unfold checkBudget shouldReset
  simp only [Bool.and_eq_true, decide_eq_true_eq]

variable {gate : PolicyGate} {ctx : TurnContext} {now : Int}

theorem checkBudget_ok
    {remaining : BudgetRemaining} (h : (gate.checkBudget now ctx).1 = .ok remaining)
    (hreset : gate.shouldReset now = false) (turn : Nat) :
    WithinLimits gate.budget ⟨turn, now, ctx, false⟩ := by
  have hdue : ¬ (0 < gate.budget.resetAfterSeconds ∧
      gate.budget.resetAfterSeconds * 1000 ≤ now - gate.lastResetAt) := by
    intro hdue
    unfold shouldReset at hreset
    simp [hdue.1, hdue.2] at hreset
  unfold checkBudget at h
  simp only [if_neg hdue] at h
  split_ifs at h with hcalls htime hcost hcap
  all_goals
    unfold WithinLimits
    dsimp only
    omega

theorem validate_gate (hostname : String → Option String) (gate : PolicyGate) (now : Int)
    (tool : ToolDefinition) (args : ToolArgs) (ctx : TurnContext) (noApprovalChannel : Bool) :
    (gate.validate hostname now tool args ctx noApprovalChannel).2.budget = gate.budget ∧
      ((gate.validate hostname now tool args ctx noApprovalChannel).2.lastResetAt
          = gate.lastResetAt ∨
        gate.shouldReset now = true ∧
          (gate.validate hostname now tool args ctx noApprovalChannel).2.lastResetAt = now) := by
  unfold validate
  dsimp only
  split
  · refine ⟨rfl, ?_⟩
    rw [checkBudget_lastResetAt]
    cases hreset : gate.shouldReset now with
    | true => exact .inr ⟨rfl, rfl⟩
    | false => exact .inl rfl
  · exact ⟨rfl, Or.inl rfl⟩

/-- **What an allowed call says about its budget**: the reset was due and is taken, or the three
    caps hold. -/
theorem validate_allowed {hostname : String → Option String}
    {tool : ToolDefinition} {args : ToolArgs} {noApprovalChannel : Bool}
    (h : (gate.validate hostname now tool args ctx noApprovalChannel).1.isAllowed = true) :
    (gate.shouldReset now = true →
      (gate.validate hostname now tool args ctx noApprovalChannel).2.lastResetAt = now) ∧
    (gate.shouldReset now = false → ∀ turn, WithinLimits gate.budget ⟨turn, now, ctx, false⟩) := by
  have hturn : ∃ remaining,
      gate.turnDenial hostname now (gate.profileOf tool) tool args ctx = .ok remaining := by
    have heval : (gate.evaluate hostname now (gate.profileOf tool) tool args ctx
        noApprovalChannel).isAllowed = true := h
    unfold evaluate at heval
    cases hdenial : gate.turnDenial hostname now (gate.profileOf tool) tool args ctx with
    | error =>
      rw [hdenial] at heval
      cases heval
    | ok remaining => exact ⟨remaining, rfl⟩
  obtain ⟨remaining, hremaining⟩ := hturn
  unfold turnDenial at hremaining
  cases hlist : gate.listOrScopeDenial tool ctx with
  | some => simp [hlist] at hremaining
  | none =>
    cases hrisk : gate.riskDenial (gate.profileOf tool) tool with
    | some => simp [hlist, hrisk] at hremaining
    | none =>
      cases hbudget : (gate.checkBudget now ctx).1 with
      | error => simp [hlist, hrisk, hbudget] at hremaining
      | ok =>
        constructor
        · intro hreset
          have hlast := checkBudget_lastResetAt gate now ctx
          rw [hreset, if_pos rfl] at hlast
          unfold validate classify
          simp [hlist, hrisk, hlast]
        · exact fun hreset turn => checkBudget_ok hbudget hreset turn

/-! ## §3. Every run -/

def Turns.callsOf (s : Turns) (turn : Nat) : List AllowedCall :=
  s.calls.filter fun c => c.turn = turn

/-- Its calls whose check found the reset due. -/
def Turns.resetsOf (s : Turns) (turn : Nat) : List AllowedCall :=
  (s.callsOf turn).filter AllowedCall.reset

/-- What a run keeps. -/
structure Kept (budget : BudgetConfig) (s : Turns) : Prop where
  config : s.gate.budget = budget
  counted : ∀ turn ctx, s.turns[turn]? = some ctx →
    ctx.toolCallCount = ((s.callsOf turn).length : Int)
  inTurn : ∀ c ∈ s.calls, ∃ ctx, s.turns[c.turn]? = some ctx ∧
    ctx.turnStartMs = c.before.turnStartMs
  within : ∀ c ∈ s.calls, c.reset = false → WithinLimits budget c
  capped : ∀ turn, ((s.callsOf turn).length : Int) ≤
    max 0 budget.maxCallsPerTurn + (s.resetsOf turn).length
  due : ∀ c ∈ s.calls, c.reset = true →
    0 < budget.resetAfterSeconds ∧ c.time ≤ s.gate.lastResetAt
  spaced : (s.calls.filter AllowedCall.reset).Pairwise fun c c' =>
    c.time + budget.resetAfterSeconds * 1000 ≤ c'.time

section

variable {hostname : String → Option String} {config : PolicyConfig} {budget : BudgetConfig}
  {started : Int} {s : Turns}

theorem Kept.init : Kept budget (turnSystem hostname config budget started).init where
  config := rfl
  counted := by simp [turnSystem]
  inTurn := by simp [turnSystem]
  within := by simp [turnSystem]
  capped turn := by
    show (0 : Int) ≤ max 0 budget.maxCallsPerTurn + 0
    omega
  due := by simp [turnSystem]
  spaced := List.Pairwise.nil

theorem Kept.createTurnContext (h : Kept budget s)
    (hnew : ctx.CreatedAt now) : Kept budget { s with turns := s.turns ++ [ctx] } := by
  -- every call is of an earlier turn
  have hearlier : ∀ c ∈ s.calls, c.turn < s.turns.length := by
    intro c hc
    obtain ⟨ctx', hctx', -⟩ := h.inTurn c hc
    exact (List.getElem?_eq_some_iff.mp hctx').1
  constructor
  · exact h.config
  · intro turn ctx' hctx'
    by_cases hlt : turn < s.turns.length
    · rw [getElem?_append_left hlt] at hctx'
      exact h.counted turn ctx' hctx'
    · rw [getElem?_append_right (by omega)] at hctx'
      have heq : ctx = ctx' := by
        rw [getElem?_singleton] at hctx'
        split_ifs at hctx'
        exact Option.some.inj hctx'
      have hnone : s.callsOf turn = [] := by
        apply filter_eq_nil_iff.mpr
        intro c hc
        have := hearlier c hc
        simp only [decide_eq_true_eq]
        omega
      show ctx'.toolCallCount = ((s.callsOf turn).length : Int)
      rw [hnone, ← heq]
      exact hnew.1
  · intro c hc
    obtain ⟨ctx', hctx', hstart⟩ := h.inTurn c hc
    refine ⟨ctx', ?_, hstart⟩
    rw [getElem?_append_left (hearlier c hc)]
    exact hctx'
  · exact h.within
  · exact h.capped
  · exact h.due
  · exact h.spaced

theorem Kept.denied (h : Kept budget s) (hbudget : gate.budget = s.gate.budget)
    (hreset : gate.lastResetAt = s.gate.lastResetAt ∨
      s.gate.shouldReset s.now = true ∧ gate.lastResetAt = s.now) :
    Kept budget { s with gate } where
  __ := h
  config := hbudget.trans h.config
  due c hc hdue := by
    obtain ⟨hpos, hle⟩ := h.due c hc hdue
    refine ⟨hpos, ?_⟩
    show c.time ≤ gate.lastResetAt
    rcases hreset with hsame | ⟨hshould, hnow⟩
    · omega
    · unfold shouldReset at hshould
      simp only [Bool.and_eq_true, decide_eq_true_eq] at hshould
      omega

theorem callsOf_append (s : Turns) (c : AllowedCall) (turn : Nat) :
    (s.calls ++ [c]).filter (fun c => decide (c.turn = turn))
      = s.callsOf turn ++ if c.turn = turn then [c] else [] := by
  by_cases hturn : c.turn = turn <;> simp [Turns.callsOf, hturn]

theorem Kept.allowed (h : Kept budget s) {turn : Nat}
    {cost : Int} (hctx : s.turns[turn]? = some ctx) (hbudget : gate.budget = s.gate.budget)
    (hreset : s.gate.shouldReset s.now = true → gate.lastResetAt = s.now)
    (hkept : s.gate.shouldReset s.now = false → gate.lastResetAt = s.gate.lastResetAt)
    (hwithin : s.gate.shouldReset s.now = false → WithinLimits budget ⟨turn, s.now, ctx, false⟩) :
    Kept budget
      { s with
        gate
        turns := s.turns.set turn (recordToolCall ctx cost)
        calls := s.calls ++ [⟨turn, s.now, ctx, s.gate.shouldReset s.now⟩] } := by
  have hlt : turn < s.turns.length := (List.getElem?_eq_some_iff.mp hctx).1
  have hcount := h.counted turn ctx hctx
  -- an earlier reset lies before this call, and before its own reset by the interval
  have hlast : ∀ c ∈ s.calls, c.reset = true → c.time ≤ gate.lastResetAt ∧
      (s.gate.shouldReset s.now = true → c.time + budget.resetAfterSeconds * 1000 ≤ s.now) := by
    intro c hc hdue
    obtain ⟨hpos, hle⟩ := h.due c hc hdue
    cases hshould : s.gate.shouldReset s.now with
    | true =>
      have hnow := hreset hshould
      unfold shouldReset at hshould
      rw [h.config] at hshould
      simp only [Bool.and_eq_true, decide_eq_true_eq] at hshould
      constructor
      · omega
      · intro _
        omega
    | false =>
      have hsame := hkept hshould
      constructor
      · omega
      · nofun
  constructor
  · exact hbudget.trans h.config
  · intro turn' ctx' hctx'
    unfold Turns.callsOf
    rw [callsOf_append]
    by_cases hturn : turn = turn'
    · subst hturn
      rw [getElem?_set_self hlt] at hctx'
      cases hctx'
      simp only [if_true, length_append, length_singleton]
      show ctx.toolCallCount + 1 = _
      omega
    · rw [getElem?_set_ne hturn] at hctx'
      simp only [if_neg hturn, append_nil]
      exact h.counted turn' ctx' hctx'
  · intro c hc
    rcases mem_append.mp hc with hold | hnew
    · obtain ⟨ctx', hctx', hstart⟩ := h.inTurn c hold
      by_cases hturn : turn = c.turn
      · refine ⟨recordToolCall ctx cost, ?_, ?_⟩
        · rw [← hturn, getElem?_set_self hlt]
        · rw [← hturn, hctx] at hctx'
          cases hctx'
          exact hstart
      · exact ⟨ctx', by rw [getElem?_set_ne hturn]; exact hctx', hstart⟩
    · rw [mem_singleton.mp hnew]
      exact ⟨recordToolCall ctx cost, getElem?_set_self hlt, rfl⟩
  · intro c hc hno
    rcases mem_append.mp hc with hold | hnew
    · exact h.within c hold hno
    · rw [mem_singleton.mp hnew] at hno ⊢
      exact hwithin hno
  · intro turn'
    have hcap := h.capped turn'
    have hcalls := callsOf_append s ⟨turn, s.now, ctx, s.gate.shouldReset s.now⟩ turn'
    unfold Turns.resetsOf at hcap ⊢
    show ((List.filter _ _).length : Int) ≤ _ + ((List.filter _ (List.filter _ _)).length : Int)
    rw [hcalls, filter_append, length_append, length_append]
    by_cases hturn : turn = turn'
    · subst hturn
      rw [if_pos rfl]
      cases hshould : s.gate.shouldReset s.now with
      | true =>
        rw [filter_cons_of_pos (by rfl), filter_nil, length_singleton]
        omega
      | false =>
        have hroom := (hwithin hshould).1
        dsimp only at hroom
        rw [length_singleton]
        omega
    · rw [if_neg hturn, filter_nil, length_nil]
      omega
  · intro c hc hdue
    rcases mem_append.mp hc with hold | hnew
    · exact ⟨(h.due c hold hdue).1, (hlast c hold hdue).1⟩
    · rw [mem_singleton.mp hnew] at hdue ⊢
      dsimp only at hdue ⊢
      have hnow := hreset hdue
      unfold shouldReset at hdue
      rw [h.config] at hdue
      simp only [Bool.and_eq_true, decide_eq_true_eq] at hdue
      exact ⟨hdue.1, by omega⟩
  · rw [filter_append]
    apply pairwise_append.mpr
    refine ⟨h.spaced, ?_, ?_⟩
    · cases hshould : s.gate.shouldReset s.now <;> simp
    · intro c hc c' hc'
      obtain ⟨hold, hdue⟩ := mem_filter.mp hc
      obtain ⟨hnew, hdue'⟩ := mem_filter.mp hc'
      rw [mem_singleton.mp hnew] at hdue' ⊢
      exact (hlast c hold hdue).2 hdue'

theorem Kept.step (h : Kept budget s) {a : TurnAction}
    (hen : (turnSystem hostname config budget started).enabled s a) :
    Kept budget ((turnSystem hostname config budget started).apply s a) := by
  cases a with
  | tick => exact { h with }
  | createTurnContext => exact h.createTurnContext hen
  | call turn tool args noApprovalChannel cost =>
    show Kept budget (match s.turns[turn]? with
      | none => s
      | some ctx => s.call hostname turn ctx tool args noApprovalChannel cost)
    cases hctx : s.turns[turn]? with
    | none => exact h
    | some ctx =>
      obtain ⟨hbudget, hreset⟩ :=
        validate_gate hostname s.gate s.now tool args ctx noApprovalChannel
      unfold Turns.call
      cases hallowed : (s.gate.validate hostname s.now tool args ctx
          noApprovalChannel).1.isAllowed with
      | false =>
        simp only [hallowed, Bool.false_eq_true, if_false]
        exact h.denied hbudget hreset
      | true =>
        obtain ⟨hdue, hcaps⟩ := validate_allowed hallowed
        simp only [hallowed, if_true]
        apply h.allowed hctx hbudget hdue
        · intro hno
          rcases hreset with hsame | ⟨hshould, -⟩
          · exact hsame
          · rw [hno] at hshould
            cases hshould
        · intro hno
          rw [← h.config]
          exact hcaps hno turn

theorem kept_of_reachable (h : (turnSystem hostname config budget started).Reachable s) :
    Kept budget s :=
  System.Reachable.invariant (Kept budget) Kept.init (fun _ _ hkept hen => hkept.step hen) h

end

/-- **The caps of a turn in every run.**  A call whose check does not find the reset due is
    within all three; a turn is allowed no more calls than its cap and its resets; the checks
    that find the reset due lie an interval apart; and without a reset interval the caps hold
    in every run. -/
theorem turn_budgets {hostname : String → Option String} {config : PolicyConfig}
    {budget : BudgetConfig} {started : Int} {s : Turns}
    (h : (turnSystem hostname config budget started).Reachable s) :
    (∀ turn ctx, s.turns[turn]? = some ctx → ctx.toolCallCount = ((s.callsOf turn).length : Int)) ∧
    (∀ c ∈ s.calls, c.reset = false → WithinLimits budget c) ∧
    (∀ turn, ((s.callsOf turn).length : Int) ≤
      max 0 budget.maxCallsPerTurn + (s.resetsOf turn).length) ∧
    ((s.calls.filter AllowedCall.reset).Pairwise fun c c' =>
      c.time + budget.resetAfterSeconds * 1000 ≤ c'.time) ∧
    (budget.resetAfterSeconds ≤ 0 → (∀ c ∈ s.calls, WithinLimits budget c) ∧
      ∀ turn, ((s.callsOf turn).length : Int) ≤ max 0 budget.maxCallsPerTurn) := by
  have hkept := kept_of_reachable h
  refine ⟨hkept.counted, hkept.within, hkept.capped, hkept.spaced, ?_⟩
  intro hnever
  have hno : ∀ c ∈ s.calls, c.reset = false := by
    intro c hc
    by_contra hreset
    have hpos := (hkept.due c hc (by simpa using hreset)).1
    omega
  refine ⟨fun c hc => hkept.within c hc (hno c hc), ?_⟩
  intro turn
  have hcap := hkept.capped turn
  have hnone : s.resetsOf turn = [] := by
    apply filter_eq_nil_iff.mpr
    intro c hc
    rw [hno c (mem_filter.mp hc).1]
    decide
  rw [hnone] at hcap
  simpa using hcap

/-- One call of cost 1 within half a second, and a reset every second. -/
def tightBudget : BudgetConfig := ⟨1, 500, 1, 1⟩

def openConfig : PolicyConfig := ⟨true, none, none, none, none, none, none, none, none, none⟩

def readPage : ToolDefinition := ⟨"read", "Read a page", none, some .R0_READ, some .PUBLIC, none⟩

/-- A turn that calls at once, and again when the reset is due. -/
def callTwice : List TurnAction :=
  [.createTurnContext ⟨0, 0, 0, none, none, none, none, false⟩,
    .call 0 readPage ⟨none, none⟩ false 1, .tick 1000, .call 0 readPage ⟨none, none⟩ false 1]

theorem callTwice_reachable : (turnSystem (fun _ => none) openConfig tightBudget 0).Reachable
    ((turnSystem (fun _ => none) openConfig tightBudget 0).run
      (turnSystem (fun _ => none) openConfig tightBudget 0).init callTwice) := by
  apply System.reachableFrom_run
  refine ⟨⟨rfl, rfl, rfl⟩, ?_, ?_, ?_, trivial⟩
  · show 0 < 1
    decide
  · show (0 : Int) ≤ 1000
    decide
  · show 0 < List.length _
    decide +kernel

/-- **The reset exceeds the caps**: a run in which a turn is allowed two calls where its cap is
    one, the second behind its time and at its cost. -/
theorem callTwice_exceeds : (turnSystem (fun _ => none) openConfig tightBudget 0).Reachable
      ((turnSystem (fun _ => none) openConfig tightBudget 0).run
        (turnSystem (fun _ => none) openConfig tightBudget 0).init callTwice) ∧
    ((turnSystem (fun _ => none) openConfig tightBudget 0).run
        (turnSystem (fun _ => none) openConfig tightBudget 0).init callTwice).calls =
      [⟨0, 0, ⟨0, 0, 0, none, none, none, none, false⟩, false⟩,
        ⟨0, 1000, ⟨1, 0, 1, none, none, none, none, false⟩, true⟩] := by
  exact ⟨callTwice_reachable, by decide +kernel⟩

/-- The cap of that turn in that run. -/
theorem turn_budgets_callTwice :
    ((((turnSystem (fun _ => none) openConfig tightBudget 0).run
        (turnSystem (fun _ => none) openConfig tightBudget 0).init callTwice).callsOf 0).length
        : Int) ≤ max 0 tightBudget.maxCallsPerTurn +
      (((turnSystem (fun _ => none) openConfig tightBudget 0).run
        (turnSystem (fun _ => none) openConfig tightBudget 0).init callTwice).resetsOf 0).length :=
  (turn_budgets callTwice_reachable).2.2.1 0

end Motebit.Policy
