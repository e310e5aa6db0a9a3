/-
  Motebit.Sync.Stores — THE CONVERSATION AND PLAN STORES A SYNC CYCLE READS AND WRITES.

  Translated from `packages/protocol/src/index.ts` (the rows),
  `packages/sync-engine/src/conversation-sync.ts` (`InMemoryConversationSyncStore`) and
  `packages/sync-engine/src/plan-sync.ts` (`STEP_STATUS_ORDER`, `InMemoryPlanSyncStore`).
  Numbers are the finite ones a row on the wire can carry.

  Main results: `get_upsertPlan`, `get_upsertStep`, `get_upsertConversation`,
  `mem_getPlansSince`, `mem_getStepsSince`.
-/

import Motebit.Lib.JsMap
import Motebit.Lib.Latest
import Motebit.Lib.Sort
import Mathlib.Data.Prod.Lex
import Mathlib.Algebra.Order.Ring.Rat

namespace Motebit.Sync

open Motebit.Lib List

/-! ## §1. Rows -/

structure SyncConversation where
  conversation_id : String
  motebit_id : String
  started_at : ℚ
  last_active_at : ℚ
  title : Option String
  summary : Option String
  message_count : ℚ
  deriving DecidableEq

structure SyncConversationMessage where
  message_id : String
  conversation_id : String
  motebit_id : String
  role : String
  content : String
  tool_calls : Option String
  tool_call_id : Option String
  created_at : ℚ
  token_estimate : ℚ
  sensitivity : Option String
  deriving DecidableEq

inductive PlanStatus
  | active
  | completed
  | failed
  | paused
  deriving DecidableEq

inductive StepStatus
  | pending
  | running
  | completed
  | failed
  | skipped
  deriving DecidableEq

structure SyncPlan where
  plan_id : String
  goal_id : String
  motebit_id : String
  title : String
  status : PlanStatus
  created_at : ℚ
  updated_at : ℚ
  current_step_index : ℚ
  total_steps : ℚ
  proposal_id : Option String
  collaborative : ℚ
  deriving DecidableEq

structure SyncPlanStep where
  step_id : String
  plan_id : String
  motebit_id : String
  ordinal : ℚ
  description : String
  prompt : String
  depends_on : String
  optional : Bool
  status : StepStatus
  required_capabilities : Option String
  delegation_task_id : Option String
  assigned_motebit_id : Option String
  result_summary : Option String
  error_message : Option String
  tool_calls_made : ℚ
  started_at : Option ℚ
  completed_at : Option ℚ
  retry_count : ℚ
  updated_at : ℚ
  deriving DecidableEq

/-- `STEP_STATUS_ORDER`; the `?? 0` beside it is for a status outside the enumeration. -/
def STEP_STATUS_ORDER : StepStatus → Nat
  | .pending => 0
  | .running => 1
  | .completed => 2
  | .failed => 2
  | .skipped => 2

/-! ## §2. Plans and steps -/

structure InMemoryPlanSyncStore where
  plans : JsMap String SyncPlan
  steps : JsMap String SyncPlanStep

namespace InMemoryPlanSyncStore

def getPlansSince (store : InMemoryPlanSyncStore) (motebitId : String) (since : ℚ) :
    List SyncPlan :=
  sortOn SyncPlan.updated_at ((store.plans.map Prod.snd).filter fun p =>
    decide (p.motebit_id = motebitId) && decide (p.updated_at > since))

def getStepsSince (store : InMemoryPlanSyncStore) (motebitId : String) (since : ℚ) :
    List SyncPlanStep :=
  sortOn SyncPlanStep.updated_at ((store.steps.map Prod.snd).filter fun s =>
    decide (s.motebit_id = motebitId) && decide (s.updated_at > since))

def upsertPlan (store : InMemoryPlanSyncStore) (plan : SyncPlan) : InMemoryPlanSyncStore :=
  match store.plans.get plan.plan_id with
  | none => { store with plans := store.plans.set plan.plan_id plan }
  | some existing =>
    if plan.updated_at ≥ existing.updated_at then
      { store with plans := store.plans.set plan.plan_id plan }
    else store

def upsertStep (store : InMemoryPlanSyncStore) (step : SyncPlanStep) : InMemoryPlanSyncStore :=
  match store.steps.get step.step_id with
  | none => { store with steps := store.steps.set step.step_id step }
  | some existing =>
    if STEP_STATUS_ORDER step.status < STEP_STATUS_ORDER existing.status then store
    else if STEP_STATUS_ORDER step.status = STEP_STATUS_ORDER existing.status ∧
        step.updated_at < existing.updated_at then store
    else { store with steps := store.steps.set step.step_id step }

end InMemoryPlanSyncStore

/-! ## §3. Conversations and messages -/

structure InMemoryConversationSyncStore where
  conversations : JsMap String SyncConversation
  messages : JsMap String SyncConversationMessage

namespace InMemoryConversationSyncStore

def getConversationsSince (store : InMemoryConversationSyncStore) (motebitId : String)
    (since : ℚ) : List SyncConversation :=
  sortOn SyncConversation.last_active_at ((store.conversations.map Prod.snd).filter fun c =>
    decide (c.motebit_id = motebitId) && decide (c.last_active_at > since))

def getMessagesSince (store : InMemoryConversationSyncStore) (conversationId : String)
    (since : ℚ) : List SyncConversationMessage :=
  sortOn SyncConversationMessage.created_at ((store.messages.map Prod.snd).filter fun m =>
    decide (m.conversation_id = conversationId) && decide (m.created_at > since))

/-- What `upsertConversation` writes over a row it finds. -/
def merged (existing conv : SyncConversation) : SyncConversation :=
  if conv.last_active_at ≥ existing.last_active_at then
    { existing with
      last_active_at := conv.last_active_at
      title := conv.title
      summary := conv.summary
      message_count := max conv.message_count existing.message_count }
  else
    { existing with
      last_active_at := max conv.last_active_at existing.last_active_at
      message_count := max conv.message_count existing.message_count }

def upsertConversation (store : InMemoryConversationSyncStore) (conv : SyncConversation) :
    InMemoryConversationSyncStore :=
  match store.conversations.get conv.conversation_id with
  | none => { store with conversations := store.conversations.set conv.conversation_id conv }
  | some existing =>
    { store with
      conversations := store.conversations.set conv.conversation_id (merged existing conv) }

def upsertMessage (store : InMemoryConversationSyncStore) (msg : SyncConversationMessage) :
    InMemoryConversationSyncStore :=
  match store.messages.get msg.message_id with
  | none => { store with messages := store.messages.set msg.message_id msg }
  | some _ => store

end InMemoryConversationSyncStore

/-! ## §4. One upsert -/

namespace InMemoryPlanSyncStore

variable (store : InMemoryPlanSyncStore)

/-- **A plan row is a register** that keeps the latest version. -/
theorem get_upsertPlan (plan : SyncPlan) (id : String) : (store.upsertPlan plan).plans.get id =
      if plan.plan_id = id then settle SyncPlan.updated_at (store.plans.get id) plan
      else store.plans.get id := by
  by_cases hid : plan.plan_id = id
  · subst hid
    unfold upsertPlan
    cases hget : store.plans.get plan.plan_id with
    | none => simp [settle]
    | some existing =>
      by_cases hle : existing.updated_at ≤ plan.updated_at
      · simp [settle, hle]
      · simp [settle, hle, hget]
  · rw [if_neg hid]
    have hne : id ≠ plan.plan_id := fun h => hid h.symm
    unfold upsertPlan
    split
    · simp [hne]
    · split
      · simp [hne]
      · rfl

@[simp] theorem upsertPlan_steps (plan : SyncPlan) : (store.upsertPlan plan).steps = store.steps := by
  unfold upsertPlan
  split
  · rfl
  · split <;> rfl

/-- The order of step versions: the tier, and within a tier the time. -/
def stepKey (s : SyncPlanStep) : ℕ ×ₗ ℚ := toLex (STEP_STATUS_ORDER s.status, s.updated_at)

variable {s t : SyncPlanStep}

theorem stepKey_le :
    stepKey s ≤ stepKey t ↔ STEP_STATUS_ORDER s.status < STEP_STATUS_ORDER t.status ∨
      STEP_STATUS_ORDER s.status = STEP_STATUS_ORDER t.status ∧ s.updated_at ≤ t.updated_at :=
  Prod.Lex.toLex_le_toLex

theorem tier_le (h : stepKey s ≤ stepKey t) :
    STEP_STATUS_ORDER s.status ≤ STEP_STATUS_ORDER t.status := by
  rcases stepKey_le.mp h with h | ⟨h, -⟩ <;> omega

/-- **A step row is a register** that keeps the latest version of the highest tier. -/
theorem get_upsertStep (step : SyncPlanStep) (id : String) : (store.upsertStep step).steps.get id =
      if step.step_id = id then settle stepKey (store.steps.get id) step
      else store.steps.get id := by
  by_cases hid : step.step_id = id
  · subst hid
    rw [if_pos rfl]
    unfold upsertStep
    cases hget : store.steps.get step.step_id with
    | none => simp [settle]
    | some existing =>
      dsimp only
      by_cases hle : stepKey existing ≤ stepKey step
      · have hkeep := stepKey_le.mp hle
        rw [if_neg (by omega), if_neg]
        · simp [settle, hle]
        · rintro ⟨htier, hlt⟩
          rcases hkeep with hkeep | ⟨-, hkeep⟩
          · omega
          · exact absurd hlt (not_lt.mpr hkeep)
      · have hreturn : settle stepKey (some existing) step = some existing := if_neg hle
        rw [stepKey_le, not_or, not_and, not_lt, not_le] at hle
        rw [hreturn]
        by_cases htier : STEP_STATUS_ORDER step.status < STEP_STATUS_ORDER existing.status
        · rw [if_pos htier, hget]
        · have heq : STEP_STATUS_ORDER existing.status = STEP_STATUS_ORDER step.status := by omega
          rw [if_neg htier, if_pos ⟨heq.symm, hle.2 heq⟩, hget]
  · rw [if_neg hid]
    have hne : id ≠ step.step_id := fun h => hid h.symm
    unfold upsertStep
    split
    · simp [hne]
    · split
      · rfl
      · split
        · rfl
        · simp [hne]

@[simp] theorem upsertStep_plans (step : SyncPlanStep) :
    (store.upsertStep step).plans = store.plans := by
  unfold upsertStep
  split
  · rfl
  · split
    · rfl
    · split <;> rfl

end InMemoryPlanSyncStore

namespace InMemoryConversationSyncStore

variable (store : InMemoryConversationSyncStore)

theorem get_upsertConversation (conv : SyncConversation) (id : String) :
    (store.upsertConversation conv).conversations.get id =
      if conv.conversation_id = id then
        some ((store.conversations.get id).elim conv fun existing => merged existing conv)
      else store.conversations.get id := by
  by_cases hid : conv.conversation_id = id
  · subst hid
    unfold upsertConversation
    cases store.conversations.get conv.conversation_id with
    | none | some => simp
  · rw [if_neg hid]
    have hne : id ≠ conv.conversation_id := fun h => hid h.symm
    unfold upsertConversation
    split <;> simp [hne]

@[simp] theorem upsertConversation_messages (conv : SyncConversation) :
    (store.upsertConversation conv).messages = store.messages := by
  unfold upsertConversation
  split <;> rfl

theorem get_upsertMessage (msg : SyncConversationMessage) (id : String) :
    (store.upsertMessage msg).messages.get id =
      if msg.message_id = id then some ((store.messages.get id).getD msg)
      else store.messages.get id := by
  by_cases hid : msg.message_id = id
  · subst hid
    unfold upsertMessage
    cases hget : store.messages.get msg.message_id with
    | none => simp
    | some => simp [hget]
  · rw [if_neg hid]
    have hne : id ≠ msg.message_id := fun h => hid h.symm
    unfold upsertMessage
    split
    · simp [hne]
    · rfl

@[simp] theorem upsertMessage_conversations (msg : SyncConversationMessage) :
    (store.upsertMessage msg).conversations = store.conversations := by
  unfold upsertMessage
  split <;> rfl

theorem merged_facts (existing conv : SyncConversation) :
    (merged existing conv).conversation_id = existing.conversation_id ∧
      (merged existing conv).motebit_id = existing.motebit_id ∧
      existing.last_active_at ≤ (merged existing conv).last_active_at := by
  unfold merged
  split
  · rename_i hle
    exact ⟨rfl, rfl, hle⟩
  · exact ⟨rfl, rfl, le_max_right _ _⟩

end InMemoryConversationSyncStore

/-! ## §5. Rows under their own ids -/

/-- Distinct keys, each row under its own id. -/
structure Listed {ρ : Type} (id : ρ → String) (ok : ρ → Prop) (map : JsMap String ρ) : Prop where
  nodup : map.keys.Nodup
  rows : ∀ e ∈ map, e.1 = id e.2 ∧ ok e.2

namespace Listed

variable {ρ : Type} {id : ρ → String} {ok : ρ → Prop} {map : JsMap String ρ}

theorem nil : Listed id ok [] := ⟨nodup_nil, nofun⟩

theorem mono {ok' : ρ → Prop} (h : Listed id ok map) (hok : ∀ r, ok r → ok' r) :
    Listed id ok' map :=
  ⟨h.nodup, fun e he => ⟨(h.rows e he).1, hok _ (h.rows e he).2⟩⟩

theorem set (h : Listed id ok map) {r : ρ} (hr : ok r) : Listed id ok (map.set (id r) r) := by
  refine ⟨JsMap.keys_set_nodup h.nodup (id r) r, ?_⟩
  intro e he
  rcases mem_upsertBy.mp he with rfl | ⟨he, -⟩
  · exact ⟨rfl, hr⟩
  · exact h.rows e he

theorem get (h : Listed id ok map) {r : ρ} (hr : r ∈ map.map Prod.snd) :
    map.get (id r) = some r ∧ ok r := by
  obtain ⟨e, he, rfl⟩ := mem_map.mp hr
  obtain ⟨hid, hok⟩ := h.rows e he
  exact ⟨(JsMap.get_eq_some h.nodup).mpr (hid ▸ he), hok⟩

theorem id_of_get (h : Listed id ok map) {k : String} {r : ρ} (hget : map.get k = some r) :
    k = id r :=
  (h.rows (k, r) (JsMap.mem_of_get hget)).1

end Listed

theorem mem_values {ρ : Type} {map : JsMap String ρ} {k : String} {r : ρ}
    (h : map.get k = some r) : r ∈ map.map Prod.snd :=
  mem_map.mpr ⟨(k, r), JsMap.mem_of_get h, rfl⟩

namespace InMemoryPlanSyncStore

variable {store : InMemoryPlanSyncStore} {motebitId : String}

theorem mem_getPlansSince {since : ℚ} {p : SyncPlan} :
    p ∈ store.getPlansSince motebitId since ↔
      p ∈ store.plans.map Prod.snd ∧ p.motebit_id = motebitId ∧ since < p.updated_at := by
  unfold getPlansSince
  simp

theorem mem_getStepsSince {since : ℚ} {s : SyncPlanStep} :
    s ∈ store.getStepsSince motebitId since ↔
      s ∈ store.steps.map Prod.snd ∧ s.motebit_id = motebitId ∧ since < s.updated_at := by
  unfold getStepsSince
  simp

theorem listed_upsertPlan {ok : SyncPlan → Prop} (h : Listed SyncPlan.plan_id ok store.plans)
    {plan : SyncPlan} (hplan : ok plan) :
    Listed SyncPlan.plan_id ok (store.upsertPlan plan).plans := by
  unfold upsertPlan
  split
  · exact h.set hplan
  · split
    · exact h.set hplan
    · exact h

theorem listed_upsertStep {ok : SyncPlanStep → Prop}
    (h : Listed SyncPlanStep.step_id ok store.steps) {step : SyncPlanStep} (hstep : ok step) :
    Listed SyncPlanStep.step_id ok (store.upsertStep step).steps := by
  unfold upsertStep
  split
  · exact h.set hstep
  · split
    · exact h
    · split
      · exact h
      · exact h.set hstep

end InMemoryPlanSyncStore

namespace InMemoryConversationSyncStore

variable {store : InMemoryConversationSyncStore}

theorem mem_getConversationsSince {motebitId : String} {since : ℚ} {c : SyncConversation} :
    c ∈ store.getConversationsSince motebitId since ↔
      c ∈ store.conversations.map Prod.snd ∧ c.motebit_id = motebitId ∧
        since < c.last_active_at := by
  unfold getConversationsSince
  simp

theorem mem_getMessagesSince {conversationId : String} {since : ℚ} {m : SyncConversationMessage} :
    m ∈ store.getMessagesSince conversationId since ↔
      m ∈ store.messages.map Prod.snd ∧ m.conversation_id = conversationId ∧
        since < m.created_at := by
  unfold getMessagesSince
  simp

theorem listed_upsertConversation {ok : SyncConversation → Prop}
    (h : Listed SyncConversation.conversation_id ok store.conversations) {conv : SyncConversation}
    (hconv : ok conv) (hmerged : ∀ existing, ok existing → ok (merged existing conv)) :
    Listed SyncConversation.conversation_id ok (store.upsertConversation conv).conversations := by
  unfold upsertConversation
  cases hget : store.conversations.get conv.conversation_id with
  | none => exact h.set hconv
  | some existing =>
    have hid := h.id_of_get hget
    have hset := h.set (hmerged existing (h.get (mem_values hget)).2)
    rwa [(merged_facts existing conv).1, ← hid] at hset

theorem listed_upsertMessage {ok : SyncConversationMessage → Prop}
    (h : Listed SyncConversationMessage.message_id ok store.messages)
    {msg : SyncConversationMessage} (hmsg : ok msg) :
    Listed SyncConversationMessage.message_id ok (store.upsertMessage msg).messages := by
  unfold upsertMessage
  split
  · exact h.set hmsg
  · exact h

end InMemoryConversationSyncStore

end Motebit.Sync
