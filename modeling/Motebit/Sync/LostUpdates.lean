/-
  Motebit.Sync.LostUpdates — WHEN CONVERSATION AND PLAN SYNC LOSE NO UPDATE.

  Both engines keep one wall-clock value as their cursor, taken at the end of a cycle of several
  requests, and compare it with stamps made by the writers.

  Main results: `sync_loses_nothing`, `sync_loses_updates`.
-/

import Motebit.Sync.PlanCycles
import Motebit.Sync.ConversationCycles

namespace Motebit.Sync

open Motebit.Lib List

/-! ## §1. Timely runs -/

/-- **No update is lost** in a run whose steps are all timely. -/
theorem sync_loses_nothing (motebitId : String) :
    (∀ s, (PlanCycles.timely motebitId).Reachable s →
      ∀ d, PlanCycles.NoneLost motebitId s.relay (s.device d)) ∧
    (∀ s, (ConversationCycles.timely motebitId).Reachable s →
      ∀ d, ConversationCycles.NoneLost s.relay (s.device d)) :=
  ⟨fun _ h => PlanCycles.planCycles_safe motebitId h,
    fun _ h => ConversationCycles.conversationCycles_safe motebitId h⟩

def planSynced : List PlanCycles.Act :=
  [.tick 1, .writePlan 0 (planVersion "a" 1), .sync 0 0, .lands 0 0, .pushed 0 0, .serves 0 0,
    .pulled 0 0, .serves 0 0, .pulled 0 0]

def message : SyncConversationMessage where
  message_id := "x"
  conversation_id := "c"
  motebit_id := "m"
  role := "user"
  content := "hi"
  tool_calls := none
  tool_call_id := none
  created_at := 1
  token_estimate := 1
  sensitivity := none

/-- A device appends a message to a new conversation, and syncs. -/
def messageSynced : List ConversationCycles.Act :=
  [.createConversation 0 "c", .tick 1, .appendMessage 0 message, .sync 0 0, .lands 0 0,
    .pushed 0 0, .lands 0 0, .pushed 0 0, .serves 0 0, .pulled 0 0, .serves 0 0, .pulled 0 0]

theorem planSynced_reachable :
    (PlanCycles.timely "m").Reachable ((PlanCycles.timely "m").run PlanCycles.start planSynced) := by
  apply System.reachableFrom_run
  refine ⟨⟨?_, trivial⟩, ⟨rfl, ?_, fun _ => rfl⟩, ⟨rfl, trivial⟩, ⟨trivial, ?_⟩,
    ⟨trivial, trivial⟩, ⟨trivial, trivial⟩, ⟨trivial, trivial⟩, ⟨trivial, trivial⟩,
    ⟨trivial, trivial⟩, trivial⟩
  · show (0 : ℚ) ≤ 1
    decide
  · show (0 : ℚ) < 1
    decide
  · intro c hc e he
    cases hc
    intro r hr
    right
    obtain rfl := mem_singleton.mp (show r ∈ [planVersion "a" 1] from hr)
    -- every other device is still blank
    cases e with
    | zero => exact absurd rfl he
    | succ =>
      refine ⟨show (0 : ℚ) < 1 by decide, ?_⟩
      intro _ _ h
      cases h

theorem messageSynced_reachable : (ConversationCycles.timely "m").Reachable
      ((ConversationCycles.timely "m").run ConversationCycles.start messageSynced) := by
  apply System.reachableFrom_run
  refine ⟨⟨rfl, trivial⟩, ⟨?_, trivial⟩, ⟨⟨rfl, ?_, ?_⟩, ?_, fun _ => rfl⟩, ⟨rfl, trivial⟩,
    ⟨trivial, ?_⟩, ⟨trivial, trivial⟩, ⟨trivial, ?_⟩, ⟨trivial, trivial⟩, ⟨trivial, trivial⟩,
    ⟨trivial, trivial⟩, ⟨trivial, trivial⟩, ⟨trivial, trivial⟩, trivial⟩
  · show (0 : ℚ) ≤ 1
    decide
  · exact forall_mem_nil _
  · exact ⟨⟨"c", "m", 0, 0, none, none, 0⟩, rfl, rfl⟩
  · show (0 : ℚ) < 1
    decide
  · intro c hc e he
    cases hc
    trivial
  · intro c hc e he
    obtain rfl := Option.some.inj hc
    intro m hm
    right
    obtain rfl := mem_singleton.mp (show m ∈ [message] from hm)
    cases e with
    | zero => exact absurd rfl he
    | succ =>
      refine ⟨show (0 : ℚ) < 1 by decide, ?_⟩
      intro _ _ h
      cases h

theorem sync_loses_nothing_one :
    planVersion "a" 1 ∈ ((PlanCycles.timely "m").run PlanCycles.start planSynced).relay.plans ∧
      message ∈ ((ConversationCycles.timely "m").run ConversationCycles.start
        messageSynced).relay.messages := by
  constructor
  · have hcursor : (planVersion "a" 1).updated_at ≤ (((PlanCycles.timely "m").run
        PlanCycles.start planSynced).device 0).lastSyncTimestamp := by decide +kernel
    exact ((sync_loses_nothing "m").1 _ planSynced_reachable 0).plansPushed "p"
      (planVersion "a" 1) (by decide +kernel) rfl hcursor
  · have hcursor : message.created_at ≤ (((ConversationCycles.timely "m").run
        ConversationCycles.start messageSynced).device 0).lastSyncTimestamp := by decide +kernel
    exact ((sync_loses_nothing "m").2 _ messageSynced_reachable 0).pushed "x" message
      (by decide +kernel) hcursor

/-! ## §2. Late writes and late pushes -/

/-- The plan is written while the cycle waits for the relay's plans. -/
def writtenLate : List PlanCycles.Act :=
  [.sync 0 0, .tick 1, .writePlan 0 (planVersion "a" 1), .serves 0 0, .pulled 0 0, .serves 0 0,
    .pulled 0 0]

theorem writtenLate_reachable : (PlanCycles.engines "m").Reachable
      ((PlanCycles.engines "m").run PlanCycles.start writtenLate) := by
  apply System.reachableFrom_run
  refine ⟨rfl, ?_, rfl, trivial, trivial, trivial, trivial, trivial⟩
  show (0 : ℚ) ≤ 1
  decide

theorem writtenLate_idle (d i : Nat) :
    (((PlanCycles.engines "m").run PlanCycles.start writtenLate).device d).cycles i = none := by
  cases d with
  | zero => cases i <;> rfl
  | succ => rfl

/-- Device 0 has announced the message's conversation when device 1 syncs; the message lands
    behind it, and the next cycle of device 1 does not ask for it. -/
def pushedLate : List ConversationCycles.Act :=
  [.createConversation 0 "c", .tick 1, .appendMessage 0 message, .sync 0 0, .lands 0 0,
    .pushed 0 0, .tick 2, .sync 1 0, .serves 1 0, .pulled 1 0, .serves 1 0, .pulled 1 0,
    .lands 0 0, .pushed 0 0, .serves 0 0, .pulled 0 0, .serves 0 0, .pulled 0 0,
    .sync 1 0, .serves 1 0, .pulled 1 0]

theorem pushedLate_reachable : (ConversationCycles.engines "m").Reachable
      ((ConversationCycles.engines "m").run ConversationCycles.start pushedLate) := by
  apply System.reachableFrom_run
  refine ⟨rfl, ?_, ⟨rfl, ?_, ?_⟩, rfl, trivial, trivial, ?_, rfl, trivial, trivial, trivial,
    trivial, trivial, trivial, trivial, trivial, trivial, trivial, rfl, trivial, trivial, trivial⟩
  · show (0 : ℚ) ≤ 1
    decide
  · exact forall_mem_nil _
  · exact ⟨⟨"c", "m", 0, 0, none, none, 0⟩, rfl, rfl⟩
  · show (1 : ℚ) ≤ 2
    decide

theorem pushedLate_idle (d i : Nat) :
    (((ConversationCycles.engines "m").run ConversationCycles.start pushedLate).device
      d).cycles i = none := by
  cases d with
  | zero => cases i <;> rfl
  | succ d =>
    cases d with
    | zero => cases i <;> rfl
    | succ => rfl

/-- **Updates are lost**: with no cycle in flight, a plan at the cursor was never pushed, and a
    message the relay held when a cycle began was not pulled by it. -/
theorem sync_loses_updates :
    (∃ s, (PlanCycles.engines "m").Reachable s ∧ (∀ d i, (s.device d).cycles i = none) ∧
      ∃ d, ¬ PlanCycles.NoneLost "m" s.relay (s.device d)) ∧
    (∃ s, (ConversationCycles.engines "m").Reachable s ∧ (∀ d i, (s.device d).cycles i = none) ∧
      ∃ d, ¬ ConversationCycles.NoneLost s.relay (s.device d)) := by
  refine ⟨⟨_, writtenLate_reachable, writtenLate_idle, 0, ?_⟩,
    ⟨_, pushedLate_reachable, pushedLate_idle, 1, ?_⟩⟩
  · intro hnone
    have hpushed := hnone.plansPushed "p" (planVersion "a" 1) (by decide +kernel) rfl
      (by decide +kernel)
    exact absurd hpushed not_mem_nil
  · intro hnone
    have hbegan : message ∈ (((ConversationCycles.engines "m").run ConversationCycles.start
        pushedLate).device 1).lastBegan.messages := by decide +kernel
    have hpulled := hnone.pulled message hbegan
    revert hpulled
    decide +kernel

end Motebit.Sync
