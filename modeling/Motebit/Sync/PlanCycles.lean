/-
  Motebit.Sync.PlanCycles — SYNC CYCLES FOR PLANS: devices of one identity and their relay.

  Translated from `packages/sync-engine/src/plan-sync.ts` (`PlanSyncEngine.sync`).  Any number of
  devices write plans and steps and run cycles; cycles of one device may overlap; a request may
  fail before or after the relay has served it.  The relay keeps everything pushed.

  `lastSyncTimestamp` is the time a cycle ends, taken after all its requests: what is written
  while a cycle is in flight, or pushed by another device late, is stamped at or below it.

  Main results: `planCycles_safe`.
-/

import Motebit.Lib.StampSync
import Motebit.Lib.Transition
import Motebit.Sync.Upserts

namespace Motebit.Sync.PlanCycles

open Motebit.Lib Motebit.Lib.StampSync Motebit.Sync List Function InMemoryPlanSyncStore

/-! ## §1. State -/

/-- Everything pushed. -/
structure Relay where
  plans : List SyncPlan
  steps : List SyncPlanStep

/-- What a cycle waits for. -/
inductive Phase
  /-- `await pushPlans(…)`, not stored by the relay yet. -/
  | pushingPlans (rows : List SyncPlan)
  | pushedPlans
  | pushingSteps (rows : List SyncPlanStep)
  | pushedSteps
  /-- `await pullPlans(…, since)`, not answered by the relay yet. -/
  | pullingPlans (since : ℚ)
  | pulledPlans (since : ℚ) (rows : List SyncPlan)
  | pullingSteps (since : ℚ)
  | pulledSteps (since : ℚ) (rows : List SyncPlanStep)

/-- A device: its store, its engine, the cycles in flight, and what the relay held when the last
    cycle that ended well began (history). -/
structure Device where
  store : InMemoryPlanSyncStore
  lastSyncTimestamp : ℚ
  cycles : Nat → Option (Cycle Phase Relay)
  lastBegan : Relay

structure State where
  now : ℚ
  relay : Relay
  device : Nat → Device

def State.put (s : State) (d : Nat) (dev : Device) : State :=
  { s with device := update s.device d dev }

def Device.goTo (dev : Device) (i : Nat) (began : Relay) (phase : Phase) : Device :=
  { dev with cycles := update dev.cycles i (some ⟨phase, began⟩) }

/-! ## §2. A cycle -/

/-- The cycle asks for plans. -/
def pullPlans (dev : Device) : Phase := .pullingPlans dev.lastSyncTimestamp

/-- The cycle reads the steps and pushes them, if there are any. -/
def pushSteps (motebitId : String) (dev : Device) : Phase :=
  match dev.store.getStepsSince motebitId dev.lastSyncTimestamp with
  | [] => pullPlans dev
  | rows => .pushingSteps rows

/-- `sync()`, up to its first `await`. -/
def pushPlans (motebitId : String) (dev : Device) : Phase :=
  match dev.store.getPlansSince motebitId dev.lastSyncTimestamp with
  | [] => pushSteps motebitId dev
  | rows => .pushingPlans rows

inductive Act
  | tick (now : ℚ)
  /-- The device writes a version of a plan, or of a step. -/
  | writePlan (d : Nat) (plan : SyncPlan)
  | writeStep (d : Nat) (step : SyncPlanStep)
  /-- `sync()` is called. -/
  | sync (d i : Nat)
  /-- The relay stores the push in flight. -/
  | lands (d i : Nat)
  /-- The push is answered. -/
  | pushed (d i : Nat)
  /-- The relay answers the pull in flight. -/
  | serves (d i : Nat)
  /-- The answer arrives. -/
  | pulled (d i : Nat)
  /-- The request in flight throws; the `catch` leaves `lastSyncTimestamp` as it is. -/
  | fails (d i : Nat)

/-- The relay's answers. -/
def Relay.plansSince (relay : Relay) (since : ℚ) : List SyncPlan :=
  sortOn SyncPlan.updated_at (relay.plans.filter fun p => p.updated_at > since)

def Relay.stepsSince (relay : Relay) (since : ℚ) : List SyncPlanStep :=
  sortOn SyncPlanStep.updated_at (relay.steps.filter fun s => s.updated_at > since)

def land (s : State) (d i : Nat) (dev : Device) (c : Cycle Phase Relay) : State :=
  match c.phase with
  | .pushingPlans rows =>
    { s.put d (dev.goTo i c.began .pushedPlans) with
      relay := { s.relay with plans := s.relay.plans ++ rows } }
  | .pushingSteps rows =>
    { s.put d (dev.goTo i c.began .pushedSteps) with
      relay := { s.relay with steps := s.relay.steps ++ rows } }
  | _ => s

def answerPush (motebitId : String) (dev : Device) (i : Nat) (c : Cycle Phase Relay) : Device :=
  match c.phase with
  | .pushedPlans => dev.goTo i c.began (pushSteps motebitId dev)
  | .pushedSteps => dev.goTo i c.began (pullPlans dev)
  | _ => dev

def servePull (relay : Relay) (dev : Device) (i : Nat) (c : Cycle Phase Relay) : Device :=
  match c.phase with
  | .pullingPlans since => dev.goTo i c.began (.pulledPlans since (relay.plansSince since))
  | .pullingSteps since => dev.goTo i c.began (.pulledSteps since (relay.stepsSince since))
  | _ => dev

/-- The upserts of an answer; behind the steps the cycle ends. -/
def answerPull (now : ℚ) (dev : Device) (i : Nat) (c : Cycle Phase Relay) : Device :=
  match c.phase with
  | .pulledPlans _ rows =>
    { dev with store := rows.foldl InMemoryPlanSyncStore.upsertPlan dev.store }.goTo i c.began
      (.pullingSteps dev.lastSyncTimestamp)
  | .pulledSteps _ rows =>
    { store := rows.foldl InMemoryPlanSyncStore.upsertStep dev.store
      lastSyncTimestamp := now
      cycles := update dev.cycles i none
      lastBegan := c.began }
  | _ => dev

/-- What a cycle in flight does when its request is served or answered. -/
def State.advance (s : State) (d i : Nat) (f : Device → Cycle Phase Relay → State) : State :=
  match (s.device d).cycles i with
  | some c => f (s.device d) c
  | none => s

def apply (motebitId : String) (s : State) : Act → State
  | .tick now => { s with now := now }
  | .writePlan d plan =>
    s.put d { s.device d with
      store := { (s.device d).store with
        plans := (s.device d).store.plans.set plan.plan_id plan } }
  | .writeStep d step =>
    s.put d { s.device d with
      store := { (s.device d).store with
        steps := (s.device d).store.steps.set step.step_id step } }
  | .sync d i =>
    s.put d ((s.device d).goTo i s.relay (pushPlans motebitId (s.device d)))
  | .lands d i => s.advance d i (land s d i)
  | .pushed d i => s.advance d i fun dev c => s.put d (answerPush motebitId dev i c)
  | .serves d i => s.advance d i fun dev c => s.put d (servePull s.relay dev i c)
  | .pulled d i => s.advance d i fun dev c => s.put d (answerPull s.now dev i c)
  | .fails d i =>
    s.advance d i fun dev _ => s.put d { dev with cycles := update dev.cycles i none }

/-- The clock does not run backwards; a version is stamped with the time it is written; a cycle
    begins under an unused number. -/
def enabled (s : State) : Act → Prop
  | .tick now => s.now ≤ now
  | .writePlan _ plan => plan.updated_at = s.now
  | .writeStep _ step => step.updated_at = s.now
  | .sync d i => (s.device d).cycles i = none
  | _ => True

def blank : Device := ⟨⟨[], []⟩, 0, fun _ => none, ⟨[], []⟩⟩

def start : State := ⟨0, ⟨[], []⟩, fun _ => blank⟩

/-- Devices of one identity and their relay. -/
def engines (motebitId : String) : System State Act := ⟨start, enabled, apply motebitId⟩

/-! ## §3. Runs without late writes or pushes -/

/-- The cycle has not read the steps yet. -/
def Phase.beforeSteps : Phase → Prop
  | .pushingPlans _ => True
  | .pushedPlans => True
  | _ => False

/-- The relay has answered the cycle for plans, for steps. -/
def Phase.pastPlans : Phase → Prop
  | .pulledPlans _ _ => True
  | .pullingSteps _ => True
  | .pulledSteps _ _ => True
  | _ => False

def Phase.pastSteps : Phase → Prop
  | .pulledSteps _ _ => True
  | _ => False

/-- A device may still be told of a row: it is stamped after `lastSyncTimestamp`, and no cycle
    is past the answer. -/
def StillOpen (dev : Device) (past : Phase → Prop) (stamp : ℚ) : Prop :=
  dev.lastSyncTimestamp < stamp ∧ ∀ i c, dev.cycles i = some c → ¬ past c.phase

/-- A write waits for the cycles of its device that have read, and for the clock to pass
    `lastSyncTimestamp`; a push lands rows the relay holds, or rows every other device may still
    be told of. -/
def Timely (s : State) : Act → Prop
  | .writePlan d _ =>
    (s.device d).lastSyncTimestamp < s.now ∧ ∀ i, (s.device d).cycles i = none
  | .writeStep d _ =>
    (s.device d).lastSyncTimestamp < s.now ∧
      ∀ i c, (s.device d).cycles i = some c → c.phase.beforeSteps
  | .lands d i => ∀ c, (s.device d).cycles i = some c → ∀ e, e ≠ d →
      match c.phase with
      | .pushingPlans rows => ∀ r ∈ rows, r ∈ s.relay.plans ∨
          StillOpen (s.device e) Phase.pastPlans r.updated_at
      | .pushingSteps rows => ∀ r ∈ rows, r ∈ s.relay.steps ∨
          StillOpen (s.device e) Phase.pastSteps r.updated_at
      | _ => True
  | _ => True

/-- Every write and every push is timely. -/
def timely (motebitId : String) : System State Act :=
  ⟨start, fun s a => enabled s a ∧ Timely s a, apply motebitId⟩

/-! ## §4. The two views of a device -/

/-- How far a cycle is with the plans. -/
def planLeg : Phase → Leg SyncPlan ℚ
  | .pushingPlans rows => .sending (· ∈ rows) rows
  | .pulledPlans since rows => .served since (· ∈ rows)
  | .pullingSteps _ => .received
  | .pulledSteps _ _ => .received
  | _ => .sent

/-- How far a cycle is with the steps. -/
def stepLeg : Phase → Leg SyncPlanStep ℚ
  | .pushingPlans _ => .unread
  | .pushedPlans => .unread
  | .pushingSteps rows => .sending (· ∈ rows) rows
  | .pulledSteps since rows => .served since (· ∈ rows)
  | _ => .sent

def planView (relay : Relay) (dev : Device) : Replica SyncPlan (JsMap String SyncPlan) ℚ Nat :=
  view planLeg Relay.plans relay dev.store.plans dev.lastSyncTimestamp dev.cycles dev.lastBegan

def stepView (relay : Relay) (dev : Device) :
    Replica SyncPlanStep (JsMap String SyncPlanStep) ℚ Nat :=
  view stepLeg Relay.steps relay dev.store.steps dev.lastSyncTimestamp dev.cycles dev.lastBegan

def planRows (motebitId : String) : Rows SyncPlan (JsMap String SyncPlan) ℚ :=
  versions SyncPlan.plan_id SyncPlan.updated_at SyncPlan.updated_at
    fun p => p.motebit_id = motebitId

def stepRows (motebitId : String) : Rows SyncPlanStep (JsMap String SyncPlanStep) ℚ :=
  versions SyncPlanStep.step_id SyncPlanStep.updated_at InMemoryPlanSyncStore.stepKey
    fun s => s.motebit_id = motebitId

/-- What a cycle carries fits the relay and the clock. -/
def PhaseOk (now : ℚ) (relay : Relay) (last : ℚ) : Phase → Prop
  | .pushingPlans rows => ∀ r ∈ rows, r.updated_at ≤ now
  | .pushingSteps rows => ∀ r ∈ rows, r.updated_at ≤ now
  | .pullingPlans since => since ≤ last
  | .pullingSteps since => since ≤ last
  | .pulledPlans since rows => ∀ r ∈ rows, r ∈ relay.plans ∧ since < r.updated_at
  | .pulledSteps since rows => ∀ r ∈ rows, r ∈ relay.steps ∧ since < r.updated_at
  | _ => True

/-- Nothing on the relay is from the future. -/
structure RelayOk (now : ℚ) (relay : Relay) : Prop where
  plans : ∀ r ∈ relay.plans, r.updated_at ≤ now
  steps : ∀ r ∈ relay.steps, r.updated_at ≤ now

structure DeviceOk (motebitId : String) (now : ℚ) (relay : Relay) (dev : Device) : Prop where
  plans : Safe (planRows motebitId) (planView relay dev)
  steps : Safe (stepRows motebitId) (stepView relay dev)
  plansListed : Listed SyncPlan.plan_id (fun p => p.updated_at ≤ now) dev.store.plans
  stepsListed : Listed SyncPlanStep.step_id (fun s => s.updated_at ≤ now) dev.store.steps
  last_le : dev.lastSyncTimestamp ≤ now
  cycles : ∀ i c, dev.cycles i = some c → PhaseOk now relay dev.lastSyncTimestamp c.phase

/-- The invariant. -/
structure Inv (motebitId : String) (s : State) : Prop where
  relay : RelayOk s.now s.relay
  device : ∀ d, DeviceOk motebitId s.now s.relay (s.device d)

/-! ## §5. Steps of a device -/

/-- What the relay held when a cycle began it still holds. -/
structure BeganOk (relay began : Relay) : Prop where
  plans : ∀ r ∈ began.plans, r ∈ relay.plans
  steps : ∀ r ∈ began.steps, r ∈ relay.steps

/-- **A leg is read**: the versions stamped after the last cycle. -/
theorem readSince {ρ κ : Type} [LinearOrder κ] {id : ρ → String} {stamp : ρ → ℚ} {key : ρ → κ}
    {mine ok : ρ → Prop} {v : Replica ρ (JsMap String ρ) ℚ Nat}
    (h : Safe (versions id stamp key mine) v) (hlisted : Listed id ok v.store) (rows : List ρ)
    (hrows : ∀ {r}, r ∈ rows ↔ r ∈ v.store.map Prod.snd ∧ mine r ∧ v.last < stamp r) :
    LegOk (versions id stamp key mine) v (.sending (· ∈ rows) rows) ∧ ∀ r ∈ rows, ok r := by
  have hget : ∀ r ∈ rows, v.store.get (id r) = some r ∧ ok r :=
    fun r hr => hlisted.get (hrows.mp hr).1
  refine ⟨h.read ?_ fun r hr => ⟨r, (hget r hr).1, le_refl _⟩, fun r hr => (hget r hr).2⟩
  rintro r ⟨hin, hmine⟩ hlt
  exact hrows.mpr ⟨mem_values hin, hmine, hlt⟩

namespace DeviceOk

variable {motebitId : String} {now : ℚ} {relay : Relay} {dev : Device} {i : Nat}
  {c : Cycle Phase Relay}

section

variable (h : DeviceOk motebitId now relay dev)
include h

theorem beganOk (hc : dev.cycles i = some c) : BeganOk relay c.began :=
  ⟨h.plans.beganOk hc, h.steps.beganOk hc⟩

/-- **A cycle moves on** to a phase both of whose legs hold. -/
theorem goTo (i : Nat) {began : Relay} (hbegan : BeganOk relay began) {phase : Phase}
    (hplans : LegOk (planRows motebitId) (planView relay dev) (planLeg phase))
    (hsteps : LegOk (stepRows motebitId) (stepView relay dev) (stepLeg phase))
    (hphase : PhaseOk now relay dev.lastSyncTimestamp phase) :
    DeviceOk motebitId now relay (dev.goTo i began phase) where
  __ := h
  plans := h.plans.goTo hbegan.plans hplans
  steps := h.steps.goTo hbegan.steps hsteps
  cycles := by
    intro j c hc
    rcases cycle_of_put hc with rfl | hc
    · exact hphase
    · exact h.cycles j c hc

theorem tick {now' : ℚ} (hle : now ≤ now') : DeviceOk motebitId now' relay dev where
  __ := h
  plansListed := h.plansListed.mono fun _ hp => hp.trans hle
  stepsListed := h.stepsListed.mono fun _ hs => hs.trans hle
  last_le := h.last_le.trans hle
  cycles := by
    intro i c hc
    have hok := h.cycles i c hc
    cases hphase : c.phase <;> rw [hphase] at hok
    case pushingPlans rows => exact fun r hr => (hok r hr).trans hle
    case pushingSteps rows => exact fun r hr => (hok r hr).trans hle
    all_goals exact hok

theorem pushSteps (hsent : AllSent (planRows motebitId) (planView relay dev)) :
    LegOk (planRows motebitId) (planView relay dev) (planLeg (pushSteps motebitId dev)) ∧
      LegOk (stepRows motebitId) (stepView relay dev) (stepLeg (pushSteps motebitId dev)) ∧
      PhaseOk now relay dev.lastSyncTimestamp (pushSteps motebitId dev) := by
  obtain ⟨hread, hrows⟩ := readSince h.steps h.stepsListed
    (dev.store.getStepsSince motebitId dev.lastSyncTimestamp) mem_getStepsSince
  unfold PlanCycles.pushSteps
  cases hsteps : dev.store.getStepsSince motebitId dev.lastSyncTimestamp with
  | nil =>
    rw [hsteps] at hread
    refine ⟨hsent, ?_, le_refl _⟩
    intro r hr
    exact (hread.1 r hr).resolve_right not_mem_nil
  | cons =>
    rw [hsteps] at hread hrows
    exact ⟨hsent, hread, hrows⟩

theorem pushPlans :
    LegOk (planRows motebitId) (planView relay dev) (planLeg (pushPlans motebitId dev)) ∧
      LegOk (stepRows motebitId) (stepView relay dev) (stepLeg (pushPlans motebitId dev)) ∧
      PhaseOk now relay dev.lastSyncTimestamp (pushPlans motebitId dev) := by
  obtain ⟨hread, hrows⟩ := readSince h.plans h.plansListed
    (dev.store.getPlansSince motebitId dev.lastSyncTimestamp) mem_getPlansSince
  unfold PlanCycles.pushPlans
  cases hplans : dev.store.getPlansSince motebitId dev.lastSyncTimestamp with
  | nil =>
    rw [hplans] at hread
    apply h.pushSteps
    intro r hr
    exact (hread.1 r hr).resolve_right not_mem_nil
  | cons =>
    rw [hplans] at hread hrows
    exact ⟨hread, trivial, hrows⟩

theorem writePlan (hrelay : RelayOk now relay)
    {plan : SyncPlan} (hnow : plan.updated_at = now) (hlast : dev.lastSyncTimestamp < now)
    (hidle : ∀ i, dev.cycles i = none) :
    DeviceOk motebitId now relay { dev with
      store := { dev.store with plans := dev.store.plans.set plan.plan_id plan } } where
  __ := h
  plans := by
    apply h.plans.write plan
    · rw [hnow]
      exact hlast
    · apply view_unread
      intro i c hc
      rw [hidle i] at hc
      cases hc
    · intro x hx
      rw [hnow]
      exact hrelay.plans x hx
  plansListed := h.plansListed.set hnow.le

theorem writeStep (hrelay : RelayOk now relay)
    {step : SyncPlanStep} (hnow : step.updated_at = now) (hlast : dev.lastSyncTimestamp < now)
    (hbefore : ∀ i c, dev.cycles i = some c → c.phase.beforeSteps) :
    DeviceOk motebitId now relay { dev with
      store := { dev.store with steps := dev.store.steps.set step.step_id step } } where
  __ := h
  steps := by
    apply h.steps.write step
    · rw [hnow]
      exact hlast
    · apply view_unread
      intro i c hc
      have hphase := hbefore i c hc
      cases hcase : c.phase <;> rw [hcase] at hphase
      case pushingPlans => rfl
      case pushedPlans => rfl
      all_goals exact hphase.elim
    · intro x hx
      rw [hnow]
      exact hrelay.steps x hx
  stepsListed := h.stepsListed.set hnow.le

end

theorem phaseOk_grow (last : ℚ) {phase : Phase} {relay' : Relay}
    (hplans : ∀ r ∈ relay.plans, r ∈ relay'.plans) (hsteps : ∀ r ∈ relay.steps, r ∈ relay'.steps)
    (h : PhaseOk now relay last phase) : PhaseOk now relay' last phase := by
  cases phase
  case pulledPlans since rows => exact fun r hr => ⟨hplans r (h r hr).1, (h r hr).2⟩
  case pulledSteps since rows => exact fun r hr => ⟨hsteps r (h r hr).1, (h r hr).2⟩
  all_goals exact h

section

variable (h : DeviceOk motebitId now relay dev)
include h

theorem growPlans (rows : List SyncPlan)
    (hrows : ∀ r ∈ rows, r ∈ relay.plans ∨ (planRows motebitId).Keeps dev.store.plans r ∨
      StillOpen dev Phase.pastPlans r.updated_at) :
    DeviceOk motebitId now { relay with plans := relay.plans ++ rows } dev where
  __ := h
  plans := by
    refine h.plans.growOpen rows fun r hr => (hrows r hr).imp_right (Or.imp_right ?_)
    refine And.imp_right fun hopen i c hc hmissed => ?_
    have hclosed := hopen i c hc
    cases hphase : c.phase <;> rw [hphase] at hmissed hclosed
    case pulledPlans => exact hclosed trivial
    case pullingSteps => exact hclosed trivial
    case pulledSteps => exact hclosed trivial
    all_goals exact hmissed
  cycles i c hc := phaseOk_grow dev.lastSyncTimestamp (fun _ hr => mem_append_left rows hr)
    (fun _ hr => hr) (h.cycles i c hc)

theorem growSteps (rows : List SyncPlanStep)
    (hrows : ∀ r ∈ rows, r ∈ relay.steps ∨ (stepRows motebitId).Keeps dev.store.steps r ∨
      StillOpen dev Phase.pastSteps r.updated_at) :
    DeviceOk motebitId now { relay with steps := relay.steps ++ rows } dev where
  __ := h
  steps := by
    refine h.steps.growOpen rows fun r hr => (hrows r hr).imp_right (Or.imp_right ?_)
    refine And.imp_right fun hopen i c hc hmissed => ?_
    have hclosed := hopen i c hc
    cases hphase : c.phase <;> rw [hphase] at hmissed hclosed
    case pulledSteps => exact hclosed trivial
    all_goals exact hmissed
  cycles i c hc := phaseOk_grow dev.lastSyncTimestamp (fun r (hr : r ∈ relay.plans) => hr)
    (fun _ hr => mem_append_left rows hr) (h.cycles i c hc)

theorem servePull (hc : dev.cycles i = some c) :
    DeviceOk motebitId now relay (servePull relay dev i c) := by
  have hplans := h.plans.legOk hc
  have hsteps := h.steps.legOk hc
  have hok := h.cycles i c hc
  have hbegan := h.beganOk hc
  unfold PlanCycles.servePull
  cases hphase : c.phase <;> rw [hphase] at hplans hsteps hok
  case pullingPlans since =>
    apply h.goTo i hbegan
    · exact h.plans.serve hplans hok fun r hr hlt => mem_sortOn_since.mpr ⟨hr, hlt⟩
    · exact hsteps
    · exact fun r hr => mem_sortOn_since.mp hr
  case pullingSteps since =>
    apply h.goTo i hbegan
    · exact hplans
    · exact h.steps.serve hsteps hok fun r hr hlt => mem_sortOn_since.mpr ⟨hr, hlt⟩
    · exact fun r hr => mem_sortOn_since.mp hr
  all_goals exact h

theorem answerPush (hc : dev.cycles i = some c) :
    DeviceOk motebitId now relay (answerPush motebitId dev i c) := by
  have hplans := h.plans.legOk hc
  have hsteps := h.steps.legOk hc
  have hbegan := h.beganOk hc
  unfold PlanCycles.answerPush
  cases hphase : c.phase <;> rw [hphase] at hplans hsteps
  case pushedPlans =>
    obtain ⟨hplans', hsteps', hok'⟩ := h.pushSteps hplans
    exact h.goTo i hbegan hplans' hsteps' hok'
  case pushedSteps => exact h.goTo i hbegan hplans hsteps (le_refl dev.lastSyncTimestamp)
  all_goals exact h

end

theorem foldl_upsertPlan_steps (rows : List SyncPlan) (store : InMemoryPlanSyncStore) :
    (rows.foldl upsertPlan store).steps = store.steps :=
  foldlRecOn rows _ (motive := fun st => st.steps = store.steps) rfl
    fun st h r _ => (upsertPlan_steps st r).trans h

theorem foldl_upsertStep_plans (rows : List SyncPlanStep) (store : InMemoryPlanSyncStore) :
    (rows.foldl upsertStep store).plans = store.plans :=
  foldlRecOn rows _ (motive := fun st => st.plans = store.plans) rfl
    fun st h r _ => (upsertStep_plans st r).trans h

/-- **Pulled plans arrive.** -/
theorem receivePlans (h : DeviceOk motebitId now relay dev) (hrelay : RelayOk now relay)
    (hc : dev.cycles i = some c) {since : ℚ} {rows : List SyncPlan}
    (hphase : c.phase = .pulledPlans since rows) : DeviceOk motebitId now relay
      ({ dev with store := rows.foldl upsertPlan dev.store }.goTo i c.began
        (.pullingSteps dev.lastSyncTimestamp)) := by
  have hok := h.cycles i c hc
  have hplans := h.plans.legOk hc
  have hsteps := h.steps.legOk hc
  rw [hphase] at hok hplans hsteps
  obtain ⟨hsafe, hreceived⟩ := h.plans.receive hplans hok (get_foldl_upsertPlan dev.store rows)
  have hview : stepView relay { dev with store := rows.foldl upsertPlan dev.store }
      = stepView relay dev := by
    unfold stepView
    rw [foldl_upsertPlan_steps]
  have harrived : DeviceOk motebitId now relay
      { dev with store := rows.foldl upsertPlan dev.store } :=
    { h with
      plans := hsafe
      steps := hview ▸ h.steps
      plansListed := foldlRecOn rows _ (motive := fun st : InMemoryPlanSyncStore =>
        Listed SyncPlan.plan_id _ st.plans) h.plansListed
        fun st hst r hr => listed_upsertPlan hst (hrelay.plans r (hok r hr).1)
      stepsListed := (foldl_upsertPlan_steps rows dev.store).symm ▸ h.stepsListed }
  exact harrived.goTo i (h.beganOk hc) hreceived (hview ▸ hsteps) (le_refl dev.lastSyncTimestamp)

theorem phaseOk_mono {last last' : ℚ} (hle : last ≤ last') {phase : Phase}
    (h : PhaseOk now relay last phase) : PhaseOk now relay last' phase := by
  cases phase
  case pullingPlans since => exact (show since ≤ last from h).trans hle
  case pullingSteps since => exact (show since ≤ last from h).trans hle
  all_goals exact h

/-- **Pulled steps arrive, and the cycle ends.** -/
theorem receiveSteps (h : DeviceOk motebitId now relay dev) (hrelay : RelayOk now relay)
    (hc : dev.cycles i = some c) {since : ℚ} {rows : List SyncPlanStep}
    (hphase : c.phase = .pulledSteps since rows) : DeviceOk motebitId now relay
      { store := rows.foldl upsertStep dev.store
        lastSyncTimestamp := now
        cycles := update dev.cycles i none
        lastBegan := c.began } := by
  have hok := h.cycles i c hc
  have hplans := h.plans.legOk hc
  have hsteps := h.steps.legOk hc
  rw [hphase] at hok hplans hsteps
  obtain ⟨hsafe, hreceived⟩ := h.steps.receive hsteps hok (get_foldl_upsertStep dev.store rows)
  constructor
  · unfold planView
    rw [foldl_upsertStep_plans]
    exact h.plans.endCycle hc hplans now
  · exact .endCycle hsafe hc hreceived now
  · show Listed _ _ (rows.foldl upsertStep dev.store).plans
    rw [foldl_upsertStep_plans]
    exact h.plansListed
  · exact foldlRecOn rows _ (motive := fun st : InMemoryPlanSyncStore =>
      Listed SyncPlanStep.step_id _ st.steps) h.stepsListed
      fun st hst r hr => listed_upsertStep hst (hrelay.steps r (hok r hr).1)
  · exact le_refl now
  · intro j c' hc'
    exact phaseOk_mono h.last_le (h.cycles j c' (cycle_of_removed hc'))

theorem answerPull (h : DeviceOk motebitId now relay dev) (hrelay : RelayOk now relay)
    (hc : dev.cycles i = some c) : DeviceOk motebitId now relay (answerPull now dev i c) := by
  unfold PlanCycles.answerPull
  cases hphase : c.phase
  case pulledPlans since rows => exact h.receivePlans hrelay hc hphase
  case pulledSteps since rows => exact h.receiveSteps hrelay hc hphase
  all_goals exact h

theorem fails (h : DeviceOk motebitId now relay dev) (i : Nat) :
    DeviceOk motebitId now relay { dev with cycles := update dev.cycles i none } where
  __ := h
  plans := h.plans.drop i
  steps := h.steps.drop i
  cycles := fun j c hc => h.cycles j c (cycle_of_removed hc)

end DeviceOk

/-! ## §6. Steps of the system -/

namespace Inv

variable {motebitId : String} {s : State}

theorem put (h : Inv motebitId s) {d : Nat} {dev : Device}
    (hdev : DeviceOk motebitId s.now s.relay dev) : Inv motebitId (s.put d dev) :=
  ⟨h.relay, (forall_update_iff s.device fun _ => DeviceOk motebitId s.now s.relay).mpr
    ⟨hdev, fun e _ => h.device e⟩⟩

theorem landed {d : Nat} {dev : Device} {relay : Relay} (hrelay : RelayOk s.now relay)
    (hgrown : ∀ e, DeviceOk motebitId s.now relay (s.device e))
    (hdev : DeviceOk motebitId s.now relay (s.device d) → DeviceOk motebitId s.now relay dev) :
    Inv motebitId { s.put d dev with relay := relay } :=
  ⟨hrelay, (forall_update_iff s.device fun _ => DeviceOk motebitId s.now relay).mpr
    ⟨hdev (hgrown d), fun e _ => hgrown e⟩⟩

/-- **A push lands**: the device that pushed keeps the rows, every other may still be told of
    them. -/
theorem land (h : Inv motebitId s) {d i : Nat} {c : Cycle Phase Relay}
    (hc : (s.device d).cycles i = some c) (htimely : Timely s (.lands d i)) :
    Inv motebitId (land s d i (s.device d) c) := by
  have hown := h.device d
  have hbegan := hown.beganOk hc
  have hplans := hown.plans.legOk hc
  have hsteps := hown.steps.legOk hc
  have hok := hown.cycles i c hc
  have hothers := htimely c hc
  unfold PlanCycles.land
  cases hphase : c.phase <;> rw [hphase] at hplans hsteps hok hothers
  case pushingPlans rows =>
    refine .landed ⟨?_, h.relay.steps⟩ (fun e => (h.device e).growPlans rows fun r hr => ?_)
      fun hgrown => hgrown.goTo i ?_ ?_ trivial trivial
    · exact fun r hr => (mem_append.mp hr).elim (h.relay.plans r) (hok r)
    · by_cases he : e = d
      · subst he
        exact .inr (Or.inl (hplans.2 r hr))
      · exact (hothers e he r hr).imp_right Or.inr
    · exact ⟨fun r hr => mem_append_left _ (hbegan.plans r hr), hbegan.steps⟩
    · exact fun r hr => mem_append.mpr (hplans.1 r hr)
  case pushingSteps rows =>
    refine .landed ⟨h.relay.plans, ?_⟩ (fun e => (h.device e).growSteps rows fun r hr => ?_)
      fun hgrown => hgrown.goTo i ?_ hplans ?_ trivial
    · exact fun r hr => (mem_append.mp hr).elim (h.relay.steps r) (hok r)
    · by_cases he : e = d
      · subst he
        exact .inr (Or.inl (hsteps.2 r hr))
      · exact (hothers e he r hr).imp_right Or.inr
    · exact ⟨hbegan.plans, fun r hr => mem_append_left _ (hbegan.steps r hr)⟩
    · exact fun r hr => mem_append.mpr (hsteps.1 r hr)
  all_goals exact h

theorem advance (h : Inv motebitId s) {d i : Nat} {f : Device → Cycle Phase Relay → State}
    (hf : ∀ c, (s.device d).cycles i = some c → Inv motebitId (f (s.device d) c)) :
    Inv motebitId (s.advance d i f) := by
  unfold State.advance
  cases hc : (s.device d).cycles i with
  | none => exact h
  | some c => exact hf c hc

theorem advancePut (h : Inv motebitId s) {d i : Nat} {f : Device → Cycle Phase Relay → Device}
    (hf : ∀ c, (s.device d).cycles i = some c →
      DeviceOk motebitId s.now s.relay (f (s.device d) c)) :
    Inv motebitId (s.advance d i fun dev c => s.put d (f dev c)) :=
  h.advance fun c hc => h.put (hf c hc)

/-- **Every timely step keeps the invariant.** -/
theorem step (h : Inv motebitId s) {a : Act} (hen : enabled s a) (htimely : Timely s a) :
    Inv motebitId (apply motebitId s a) := by
  cases a with
  | tick now =>
    have hle : s.now ≤ now := hen
    exact ⟨⟨fun r hr => (h.relay.plans r hr).trans hle, fun r hr => (h.relay.steps r hr).trans hle⟩,
      fun d => (h.device d).tick hle⟩
  | writePlan d => exact h.put ((h.device d).writePlan h.relay hen htimely.1 htimely.2)
  | writeStep d => exact h.put ((h.device d).writeStep h.relay hen htimely.1 htimely.2)
  | sync d i =>
    obtain ⟨hplans, hsteps, hok⟩ := (h.device d).pushPlans
    exact h.put ((h.device d).goTo i ⟨fun _ hr => hr, fun _ hr => hr⟩ hplans hsteps hok)
  | lands => exact h.advance fun c hc => h.land hc htimely
  | pushed d i =>
    exact h.advancePut (f := (answerPush motebitId · i)) fun c hc => (h.device d).answerPush hc
  | serves d i =>
    exact h.advancePut (f := (servePull s.relay · i)) fun c hc => (h.device d).servePull hc
  | pulled d i =>
    exact h.advancePut (f := (answerPull s.now · i)) fun c hc => (h.device d).answerPull h.relay hc
  | fails d i =>
    exact h.advancePut (f := fun dev _ => { dev with cycles := update dev.cycles i none })
      fun _ _ => (h.device d).fails i

end Inv

theorem inv_start (motebitId : String) : Inv motebitId start := by
  refine ⟨⟨fun r hr => absurd hr not_mem_nil, fun r hr => absurd hr not_mem_nil⟩, fun d => ?_⟩
  exact ⟨.blank (fun r hr => nomatch hr.1) rfl rfl, .blank (fun r hr => nomatch hr.1) rfl rfl,
    Listed.nil, Listed.nil, le_refl 0, nofun⟩

/-! ## §7. No update is lost -/

/-- Plan and step versions at or below a device's `lastSyncTimestamp` were pushed; what the relay
    held when its last successful cycle began it holds, or a version that took its place. -/
structure NoneLost (motebitId : String) (relay : Relay) (dev : Device) : Prop where
  plansPushed : ∀ id p, dev.store.plans.get id = some p → p.motebit_id = motebitId →
    p.updated_at ≤ dev.lastSyncTimestamp → p ∈ relay.plans
  stepsPushed : ∀ id p, dev.store.steps.get id = some p → p.motebit_id = motebitId →
    p.updated_at ≤ dev.lastSyncTimestamp → p ∈ relay.steps
  plansPulled : ∀ r ∈ dev.lastBegan.plans, ∃ p, dev.store.plans.get r.plan_id = some p ∧
    r.updated_at ≤ p.updated_at
  stepsPulled : ∀ r ∈ dev.lastBegan.steps, ∃ p, dev.store.steps.get r.step_id = some p ∧
    (stepKey r ≤ stepKey p ∨ r.updated_at ≤ p.updated_at)

theorem DeviceOk.noneLost {motebitId : String} {now : ℚ} {relay : Relay} {dev : Device}
    (h : DeviceOk motebitId now relay dev) : NoneLost motebitId relay dev where
  plansPushed := by
    intro id p hget hmine hle
    have hown : dev.store.plans.get p.plan_id = some p := h.plansListed.id_of_get hget ▸ hget
    exact (h.plans.unsent p ⟨hown, hmine⟩).resolve_right (not_lt.mpr hle)
  stepsPushed := by
    intro id p hget hmine hle
    have hown : dev.store.steps.get p.step_id = some p := h.stepsListed.id_of_get hget ▸ hget
    exact (h.steps.unsent p ⟨hown, hmine⟩).resolve_right (not_lt.mpr hle)
  plansPulled := by
    intro r hr
    obtain ⟨p, hget, hle⟩ := (h.plans.seen r hr).2
    exact ⟨p, hget, hle.elim (fun hle => hle) fun hle => hle⟩
  stepsPulled := fun r hr => (h.steps.seen r hr).2

/-- **Timely runs lose no plan and no step.** -/
theorem planCycles_safe (motebitId : String) {s : State} (h : (timely motebitId).Reachable s) :
    ∀ d, NoneLost motebitId s.relay (s.device d) := by
  have hinv : Inv motebitId s :=
    System.Reachable.invariant (Inv motebitId) (inv_start motebitId)
      (fun u a hu (hen : enabled u a ∧ Timely u a) => hu.step hen.1 hen.2) h
  exact fun d => (hinv.device d).noneLost

end Motebit.Sync.PlanCycles
