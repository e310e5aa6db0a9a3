/-
  Motebit.Sync.Upserts — REPLICAS THAT SEE THE SAME VERSIONS.

  Adds `packages/persistence/src/index.ts` (`SqliteConversationStore.upsertConversation`) to
  the stores of `Motebit.Sync.Stores`.  Versions arrive in any order and any number of times.
  A plan or a step row is one register; a conversation row is a register for its title and
  summary, two maxima, and columns the first version settles.

  Main results: `converges_conversation`, `converges_plan`, `converges_step`, `sqlite_agrees`,
  `upserts_converge`.
-/

import Motebit.Sync.Stores

namespace Motebit.Sync

open Motebit.Lib List InMemoryPlanSyncStore InMemoryConversationSyncStore

/-! ## §1. The SQLite conversation store -/

/-- A row of `conversations`, under the names `rowToConversation` gives its columns. -/
structure Conversation where
  conversationId : String
  motebitId : String
  startedAt : ℚ
  lastActiveAt : ℚ
  title : Option String
  summary : Option String
  messageCount : ℚ
  deriving DecidableEq

/-- `SqliteConversationSyncStoreAdapter`: a version off the wire under those names. -/
def toConversation (conv : SyncConversation) : Conversation where
  conversationId := conv.conversation_id
  motebitId := conv.motebit_id
  startedAt := conv.started_at
  lastActiveAt := conv.last_active_at
  title := conv.title
  summary := conv.summary
  messageCount := conv.message_count

/-- The table, with its primary key. -/
structure SqliteConversationStore where
  conversations : List Conversation
  primaryKey : (conversations.map Conversation.conversationId).Nodup

namespace SqliteConversationStore

/-- `ON CONFLICT(conversation_id) DO UPDATE SET …`. -/
def onConflict (excluded row : Conversation) : Conversation :=
  { row with
    lastActiveAt := max excluded.lastActiveAt row.lastActiveAt
    title := if excluded.lastActiveAt ≥ row.lastActiveAt then excluded.title else row.title
    summary := if excluded.lastActiveAt ≥ row.lastActiveAt then excluded.summary else row.summary
    messageCount := max excluded.messageCount row.messageCount }

def hasId (id : String) (row : Conversation) : Bool := row.conversationId == id

variable {t : List Conversation}

theorem nodup_insert (h : (t.map Conversation.conversationId).Nodup) {conv : Conversation}
    (hfree : t.any (hasId conv.conversationId) ≠ true) :
    ((t ++ [conv]).map Conversation.conversationId).Nodup := by
  rw [map_append, nodup_append]
  refine ⟨h, by simp, ?_⟩
  intro a ha b hb heq
  obtain ⟨row, hrow, rfl⟩ := mem_map.mp ha
  obtain rfl : b = conv.conversationId := by simpa using hb
  exact hfree (any_eq_true.mpr ⟨row, hrow, by simpa [hasId] using heq⟩)

theorem nodup_update (h : (t.map Conversation.conversationId).Nodup) (conv : Conversation) :
    ((updateWhere (hasId conv.conversationId) (onConflict conv) t).map
      Conversation.conversationId).Nodup := by
  have hkeys : ∀ row, (onConflict conv row).conversationId = row.conversationId := fun _ => rfl
  rw [map_updateWhere t hkeys]
  exact h

def upsertConversation (store : SqliteConversationStore) (conv : Conversation) :
    SqliteConversationStore :=
  if h : store.conversations.any (hasId conv.conversationId) = true then
    ⟨updateWhere (hasId conv.conversationId) (onConflict conv) store.conversations,
      nodup_update store.primaryKey conv⟩
  else ⟨store.conversations ++ [conv], nodup_insert store.primaryKey h⟩

def getConversation (store : SqliteConversationStore) (conversationId : String) :
    Option Conversation :=
  store.conversations.find? (hasId conversationId)

theorem getConversation_upsertConversation (store : SqliteConversationStore)
    (conv : Conversation) (id : String) : (store.upsertConversation conv).getConversation id =
      if conv.conversationId = id then some ((store.getConversation id).elim conv (onConflict conv))
      else store.getConversation id := by
  unfold upsertConversation getConversation
  split
  · next hany =>
    show (updateWhere _ _ store.conversations).find? _ = _
    have hkeys : ∀ row, hasId id (onConflict conv row) = hasId id row := fun _ => rfl
    rw [find?_updateWhere store.conversations hkeys]
    by_cases hid : conv.conversationId = id
    · subst hid
      cases hfind : store.conversations.find? (hasId conv.conversationId) with
      | none =>
        obtain ⟨row, hrow, hhas⟩ := any_eq_true.mp hany
        exact absurd hhas (find?_eq_none.mp hfind row hrow)
      | some =>
        have hhas := find?_some hfind
        simp [hhas]
    · rw [if_neg hid]
      cases hfind : store.conversations.find? (hasId id) with
      | none => rfl
      | some row =>
        have hhas : row.conversationId = id := by simpa [hasId] using find?_some hfind
        have hother : hasId conv.conversationId row = false := by
          simpa [hasId, hhas] using fun h : id = conv.conversationId => hid h.symm
        simp [hother]
  · next hany =>
    show (store.conversations ++ [conv]).find? _ = _
    by_cases hid : conv.conversationId = id
    · subst hid
      have hnone : store.conversations.find? (hasId conv.conversationId) = none := by
        rw [find?_eq_none]
        intro row hrow hhas
        exact hany (any_eq_true.mpr ⟨row, hrow, hhas⟩)
      simp [hnone, hasId]
    · simp [hid, hasId]

end SqliteConversationStore

/-! ## §2. A conversation row -/

open InMemoryConversationSyncStore (merged)

/-- One version on a conversation row. -/
def writeConversation (held : Option SyncConversation) (conv : SyncConversation) :
    Option SyncConversation :=
  some (held.elim conv fun existing => merged existing conv)

/-- The columns the newest version gives. -/
def headline (c : SyncConversation) : ℚ × Option String × Option String :=
  (c.last_active_at, c.title, c.summary)

/-- The columns the first version gives. -/
def origin (c : SyncConversation) : String × String × ℚ :=
  (c.conversation_id, c.motebit_id, c.started_at)

theorem eq_of_columns {c d : SyncConversation} (horigin : origin c = origin d)
    (hheadline : headline c = headline d) (hcount : c.message_count = d.message_count) : c = d := by
  obtain ⟨⟩ := d
  obtain ⟨rfl, rfl, rfl⟩ := horigin
  obtain ⟨rfl, rfl, rfl⟩ := hheadline
  subst hcount
  rfl

theorem headline_merged (existing conv : SyncConversation) : headline (merged existing conv) =
      if existing.last_active_at ≤ conv.last_active_at then headline conv
      else headline existing := by
  unfold merged
  by_cases hle : existing.last_active_at ≤ conv.last_active_at
  · rw [if_pos hle, if_pos hle]
    rfl
  · rw [if_neg hle, if_neg hle]
    simp [headline, max_eq_right (not_le.mp hle).le]

theorem message_count_merged (existing conv : SyncConversation) :
    (merged existing conv).message_count = max conv.message_count existing.message_count := by
  unfold merged
  split <;> rfl

theorem origin_merged (existing conv : SyncConversation) :
    origin (merged existing conv) = origin existing := by
  unfold merged
  split <;> rfl

def conversationRow (held : Option SyncConversation) (l : List SyncConversation) :
    Option SyncConversation :=
  l.foldl writeConversation held

section

variable (held : Option SyncConversation)

/-- **Title and summary are a register** keyed by `last_active_at`. -/
theorem headline_conversationRow (l : List SyncConversation) :
    (conversationRow held l).map headline =
      deliver Prod.fst (held.map headline) (l.map headline) := by
  unfold conversationRow deliver
  induction l generalizing held with
  | nil => rfl
  | cons conv l ih =>
    rw [foldl_cons, ih, map_cons, foldl_cons]
    congr 1
    cases held with
    | none => rfl
    | some existing =>
      show some (headline (merged existing conv)) = settle Prod.fst (some (headline existing)) _
      rw [headline_merged]
      by_cases hle : existing.last_active_at ≤ conv.last_active_at
      · simp [settle, headline, hle]
      · simp [settle, headline, hle]

theorem message_count_conversationRow (l : List SyncConversation) :
    (conversationRow held l).map SyncConversation.message_count =
      deliver (fun n => n) (held.map SyncConversation.message_count)
        (l.map SyncConversation.message_count) := by
  unfold conversationRow deliver
  induction l generalizing held with
  | nil => rfl
  | cons conv l ih =>
    rw [foldl_cons, ih, map_cons, foldl_cons]
    congr 1
    cases held with
    | none => rfl
    | some existing =>
      show some (merged existing conv).message_count = settle _ (some existing.message_count) _
      rw [message_count_merged]
      by_cases hle : existing.message_count ≤ conv.message_count
      · simp [settle, hle]
      · simp [settle, hle, (not_le.mp hle).le]

theorem origin_conversationRow (l : List SyncConversation) :
    (conversationRow held l).map origin = (held.or l.head?).map origin := by
  unfold conversationRow
  induction l generalizing held with
  | nil => cases held <;> rfl
  | cons conv l ih =>
    rw [foldl_cons, ih]
    cases held with
    | none => rfl
    | some existing => exact congrArg some (origin_merged existing conv)

/-- The columns of the first version converge when every version agrees on them, or there is a
    row already. -/
theorem converges_origin (versions : List SyncConversation) :
    Converges (fun l => (held.or l.head?).map origin) versions ↔
      held = none → ∀ c ∈ versions, ∀ d ∈ versions, origin c = origin d := by
  constructor
  · rintro h rfl c hc d hd
    -- all versions, either of the two first
    have hfirst : ∀ a ∈ versions, ∀ v, v ∈ a :: versions ↔ v ∈ versions := by
      intro a ha v
      rw [mem_cons]
      exact ⟨fun hv => hv.elim (fun heq => heq ▸ ha) fun h => h, Or.inr⟩
    have hsame := h (c :: versions) (d :: versions) (hfirst c hc) (hfirst d hd)
    simpa using hsame
  · intro h l₁ l₂ h₁ h₂
    cases held with
    | some => rfl
    | none =>
      cases l₁ with
      | nil =>
        have hempty : l₂ = [] := by
          apply eq_nil_iff_forall_not_mem.mpr
          intro v hv
          exact absurd ((h₁ v).mpr ((h₂ v).mp hv)) not_mem_nil
        rw [hempty]
      | cons a =>
        cases l₂ with
        | nil => exact absurd ((h₂ a).mpr ((h₁ a).mp mem_cons_self)) not_mem_nil
        | cons b =>
          exact congrArg some (h rfl a ((h₁ a).mp mem_cons_self) b ((h₂ b).mp mem_cons_self))

end

/-- The condition under which a conversation row converges. -/
structure Reconciled (held : Option SyncConversation) (versions : List SyncConversation) :
    Prop where
  origin : held = none → ∀ c ∈ versions, ∀ d ∈ versions, origin c = origin d
  untied : Untied SyncConversation.last_active_at headline held versions

theorem converges_conversationRow (held : Option SyncConversation)
    (versions : List SyncConversation) :
    Converges (conversationRow held) versions ↔ Reconciled held versions := by
  constructor
  · intro h
    have horigin := h.map fun row => row.map origin
    simp only [origin_conversationRow] at horigin
    have hheadline := h.map fun row => row.map headline
    simp only [headline_conversationRow] at hheadline
    exact ⟨(converges_origin held versions).mp horigin,
      (converges_deliver Prod.fst headline held versions).mp hheadline⟩
  · intro h l₁ l₂ h₁ h₂
    have horigin := (converges_origin held versions).mpr h.origin l₁ l₂ h₁ h₂
    have hheadline := (converges_deliver Prod.fst headline held versions).mpr h.untied l₁ l₂ h₁ h₂
    -- two versions of one count cannot differ in it
    have hcount := (converges_deliver (fun n : ℚ => n) SyncConversation.message_count held
      versions).mpr (fun v w hv hw => le_antisymm (hw.latest v hv.mem) (hv.latest w hw.mem))
      l₁ l₂ h₁ h₂
    dsimp only at horigin hheadline hcount
    rw [← origin_conversationRow, ← origin_conversationRow] at horigin
    rw [← headline_conversationRow, ← headline_conversationRow] at hheadline
    rw [← message_count_conversationRow, ← message_count_conversationRow] at hcount
    cases hrow : conversationRow held l₁ with
    | none =>
      rw [hrow, Option.map_none, eq_comm, Option.map_eq_none_iff] at horigin
      exact horigin.symm
    | some =>
      cases hrow' : conversationRow held l₂ with
      | none => rw [hrow, hrow'] at horigin; cases horigin
      | some =>
        rw [hrow, hrow'] at horigin hheadline hcount
        exact congrArg some (eq_of_columns (Option.some.inj horigin) (Option.some.inj hheadline)
          (Option.some.inj hcount))

/-! ## §3. Stores -/

theorem foldl_rows {σ α : Type} (deliverTo : σ → α → σ) (row : σ → String → Option α)
    (id : α → String) (write : Option α → α → Option α)
    (hone : ∀ store v k, row (deliverTo store v) k =
      if id v = k then write (row store k) v else row store k)
    (store : σ) (l : List α) (k : String) :
    row (l.foldl deliverTo store) k = (l.filter fun v => id v = k).foldl write (row store k) := by
  induction l generalizing store with
  | nil => rfl
  | cons v l ih =>
    rw [foldl_cons, ih, hone]
    by_cases hk : id v = k
    · rw [if_pos hk, filter_cons_of_pos (by simpa using hk), foldl_cons]
    · rw [if_neg hk, filter_cons_of_neg (by simpa using hk)]

theorem get_foldl_upsertPlan (store : InMemoryPlanSyncStore) (l : List SyncPlan) (id : String) :
    (l.foldl upsertPlan store).plans.get id =
      deliver SyncPlan.updated_at (store.plans.get id) (l.filter fun p => p.plan_id = id) :=
  foldl_rows upsertPlan (fun s => s.plans.get) SyncPlan.plan_id
    (settle SyncPlan.updated_at) (fun s p k => s.get_upsertPlan p k) store l id

theorem get_foldl_upsertStep (store : InMemoryPlanSyncStore) (l : List SyncPlanStep) (id : String) :
    (l.foldl upsertStep store).steps.get id = deliver stepKey (store.steps.get id)
        (l.filter fun s => s.step_id = id) :=
  foldl_rows upsertStep (fun s => s.steps.get) SyncPlanStep.step_id
    (settle stepKey) (fun s t k => s.get_upsertStep t k) store l id

theorem get_foldl_upsertConversation (store : InMemoryConversationSyncStore)
    (l : List SyncConversation) (id : String) :
    (l.foldl upsertConversation store).conversations.get id =
      conversationRow (store.conversations.get id) (l.filter fun c => c.conversation_id = id) :=
  foldl_rows upsertConversation (fun s => s.conversations.get)
    SyncConversation.conversation_id writeConversation
    (fun s c k => s.get_upsertConversation c k) store l id

/-- **A plan row converges** exactly when no two of its latest versions differ. -/
theorem converges_plan (store : InMemoryPlanSyncStore) (id : String) (versions : List SyncPlan) :
    Converges (fun l => (l.foldl upsertPlan store).plans.get id) versions ↔
      Untied SyncPlan.updated_at (fun p => p) (store.plans.get id)
        (versions.filter fun p => p.plan_id = id) := by
  simp only [get_foldl_upsertPlan]
  rw [converges_filter, converges_deliver_self]

/-- **A step row converges** exactly when no two of its latest versions differ. -/
theorem converges_step (store : InMemoryPlanSyncStore) (id : String)
    (versions : List SyncPlanStep) :
    Converges (fun l => (l.foldl upsertStep store).steps.get id) versions ↔
      Untied stepKey (fun s => s) (store.steps.get id)
        (versions.filter fun s => s.step_id = id) := by
  simp only [get_foldl_upsertStep]
  rw [converges_filter, converges_deliver_self]

/-- **A conversation row converges** exactly when its latest versions agree on title and
    summary, and all on the columns the first one settles. -/
theorem converges_conversation (store : InMemoryConversationSyncStore) (id : String)
    (versions : List SyncConversation) :
    Converges (fun l => (l.foldl upsertConversation store).conversations.get id) versions ↔
      Reconciled (store.conversations.get id)
        (versions.filter fun c => c.conversation_id = id) := by
  simp only [get_foldl_upsertConversation]
  rw [converges_filter, converges_conversationRow]

/-- **No step falls back** to a lower tier. -/
theorem tier_foldl_upsertStep (store : InMemoryPlanSyncStore) (l : List SyncPlanStep)
    {id : String} {s : SyncPlanStep} (h : store.steps.get id = some s) :
    ∃ t, (l.foldl upsertStep store).steps.get id = some t ∧
      STEP_STATUS_ORDER s.status ≤ STEP_STATUS_ORDER t.status := by
  rw [get_foldl_upsertStep, h]
  rcases deliver_cases stepKey (some s) (l.filter fun s => s.step_id = id)
    with ⟨t, ht, hlatest⟩ | ⟨hsame, -⟩
  · exact ⟨t, ht, tier_le (hlatest.held s rfl)⟩
  · exact ⟨s, hsame, Nat.le_refl _⟩

theorem onConflict_toConversation (existing conv : SyncConversation) :
    SqliteConversationStore.onConflict (toConversation conv) (toConversation existing) =
      toConversation (merged existing conv) := by
  unfold merged SqliteConversationStore.onConflict toConversation
  by_cases hle : existing.last_active_at ≤ conv.last_active_at
  · simp [hle]
  · simp [hle]

/-- **The SQLite store ends with the same rows** as the in-memory store. -/
theorem sqlite_agrees (mem : InMemoryConversationSyncStore) (sql : SqliteConversationStore)
    (l : List SyncConversation) (id : String)
    (h : sql.getConversation id = (mem.conversations.get id).map toConversation) :
    ((l.map toConversation).foldl SqliteConversationStore.upsertConversation
        sql).getConversation id =
      ((l.foldl upsertConversation mem).conversations.get id).map toConversation := by
  induction l generalizing mem sql with
  | nil => exact h
  | cons conv l ih =>
    apply ih
    rw [SqliteConversationStore.getConversation_upsertConversation, get_upsertConversation]
    show (if conv.conversation_id = id then _ else _) = _
    by_cases hid : conv.conversation_id = id
    · rw [if_pos hid, if_pos hid, h]
      cases mem.conversations.get id with
      | none => rfl
      | some existing => exact congrArg some (onConflict_toConversation existing conv)
    · rw [if_neg hid, if_neg hid, h]

/-- **Upserts converge** exactly where the latest versions of a row are not tied; no step falls
    back; the two conversation stores end with the same rows. -/
theorem upserts_converge (id : String) :
    (∀ (store : InMemoryConversationSyncStore) (versions : List SyncConversation),
      Converges (fun l => (l.foldl InMemoryConversationSyncStore.upsertConversation
          store).conversations.get id) versions ↔
        Reconciled (store.conversations.get id)
          (versions.filter fun c => c.conversation_id = id)) ∧
    (∀ (store : InMemoryPlanSyncStore) (versions : List SyncPlan),
      Converges (fun l => (l.foldl InMemoryPlanSyncStore.upsertPlan store).plans.get id)
          versions ↔
        Untied SyncPlan.updated_at (fun p => p) (store.plans.get id)
          (versions.filter fun p => p.plan_id = id)) ∧
    (∀ (store : InMemoryPlanSyncStore) (versions : List SyncPlanStep),
      Converges (fun l => (l.foldl InMemoryPlanSyncStore.upsertStep store).steps.get id)
          versions ↔
        Untied InMemoryPlanSyncStore.stepKey (fun s => s) (store.steps.get id)
          (versions.filter fun s => s.step_id = id)) ∧
    (∀ (store : InMemoryPlanSyncStore) (l : List SyncPlanStep) (s : SyncPlanStep),
      store.steps.get id = some s →
        ∃ t, (l.foldl InMemoryPlanSyncStore.upsertStep store).steps.get id = some t ∧
          STEP_STATUS_ORDER s.status ≤ STEP_STATUS_ORDER t.status) ∧
    ∀ (mem : InMemoryConversationSyncStore) (sql : SqliteConversationStore)
      (l : List SyncConversation),
      sql.getConversation id = (mem.conversations.get id).map toConversation →
        ((l.map toConversation).foldl SqliteConversationStore.upsertConversation
            sql).getConversation id = ((l.foldl InMemoryConversationSyncStore.upsertConversation
            mem).conversations.get id).map toConversation :=
  ⟨fun store => converges_conversation store id, fun store => converges_plan store id,
    fun store => converges_step store id, fun store l _ h => tier_foldl_upsertStep store l h,
    fun mem sql l => sqlite_agrees mem sql l id⟩

def planVersion (title : String) (updated_at : ℚ) : SyncPlan where
  plan_id := "p"
  goal_id := "g"
  motebit_id := "m"
  title := title
  status := .active
  created_at := 0
  updated_at := updated_at
  current_step_index := 0
  total_steps := 1
  proposal_id := none
  collaborative := 0

def stepVersion (status : StepStatus) (updated_at : ℚ) : SyncPlanStep where
  step_id := "s"
  plan_id := "p"
  motebit_id := "m"
  ordinal := 0
  description := ""
  prompt := ""
  depends_on := "[]"
  optional := false
  status := status
  required_capabilities := none
  delegation_task_id := none
  assigned_motebit_id := none
  result_summary := none
  error_message := none
  tool_calls_made := 0
  started_at := none
  completed_at := none
  retry_count := 0
  updated_at := updated_at

def conversationVersion (title : String) (last_active_at : ℚ) : SyncConversation where
  conversation_id := "c"
  motebit_id := "m"
  started_at := 0
  last_active_at := last_active_at
  title := some title
  summary := none
  message_count := 1

/-- Two plan versions of different times converge; a finished step stays finished; SQLite agrees
    on a tie. -/
theorem upserts_converge_two :
    Converges (fun l => (l.foldl InMemoryPlanSyncStore.upsertPlan ⟨[], []⟩).plans.get "p")
        [planVersion "a" 1, planVersion "b" 2] ∧
      (∃ t, ([stepVersion .running 2].foldl InMemoryPlanSyncStore.upsertStep
          ⟨[], [("s", stepVersion .completed 1)]⟩).steps.get "s" = some t ∧ 2 ≤
            STEP_STATUS_ORDER t.status) ∧
      (([conversationVersion "a" 1, conversationVersion "b" 1].map toConversation).foldl
          SqliteConversationStore.upsertConversation ⟨[], nodup_nil⟩).getConversation "c" =
        (([conversationVersion "a" 1, conversationVersion "b" 1].foldl
          InMemoryConversationSyncStore.upsertConversation ⟨[], []⟩).conversations.get "c").map
            toConversation := by
  refine ⟨((upserts_converge "p").2.1 ⟨[], []⟩ _).mpr ?_,
    (upserts_converge "s").2.2.2.1 _ _ (stepVersion .completed 1) rfl,
    (upserts_converge "c").2.2.2.2 ⟨[], []⟩ _ _ rfl⟩
  -- the first is not latest beside the second
  have hlatest : ∀ v, IsLatest SyncPlan.updated_at none
      [planVersion "a" 1, planVersion "b" 2] v → v = planVersion "b" 2 := by
    intro v hv
    rcases mem_cons.mp hv.mem with rfl | hb
    · have hle : (2 : ℚ) ≤ 1 := hv.latest (planVersion "b" 2) (by simp)
      cases hle
    · exact mem_singleton.mp hb
  intro v w hv hw
  exact (hlatest v hv).trans (hlatest w hw).symm

/-- Two versions of one time do not: the one delivered last stands. -/
theorem upserts_diverge :
    ¬ Converges (fun l => (l.foldl InMemoryPlanSyncStore.upsertPlan ⟨[], []⟩).plans.get "p")
      [planVersion "a" 1, planVersion "b" 1] := by
  intro h
  have hsame := h [planVersion "a" 1, planVersion "b" 1] [planVersion "b" 1, planVersion "a" 1]
    (fun _ => Iff.rfl) (fun v => by simp [or_comm])
  revert hsame
  decide

end Motebit.Sync
