/-
  Motebit.Planner.Model — THE PLAN ENGINE: a plan's steps, driven, held, settled and recovered.

  Translated from `packages/planner/src/plan-engine.ts`, with the plan store of
  `packages/planner/src/types.ts` and the in-process locks of
  `packages/planner/src/plan-lease.ts`.  Turns, delegations, polls, decompositions and the
  persisted lease are awaited answers; a yielded chunk is one too, since its consumer may
  return there.  What the driver of one plan does is a program over that plan alone.
-/

import Motebit.Lib.Part

namespace Motebit.Planner

open Motebit.Lib List

/-! ## §1. Plans -/

inductive PlanStatus
  | active | completed | failed | paused
  deriving DecidableEq

inductive StepStatus
  | pending | running | completed | failed | skipped
  deriving DecidableEq

def StepStatus.done : StepStatus → Bool
  | .completed | .skipped => true
  | _ => false

/-- `PlanStep`; the ids are unique within a plan. -/
structure PlanStep where
  step_id : Nat
  ordinal : Nat
  optional : Bool
  required_capabilities : List String
  assigned_motebit_id : Option String
  status : StepStatus
  delegation_task_id : Option String
  started_at : Option Int
  deriving DecidableEq

/-- A `delegation_task_id` that is neither absent nor empty. -/
def PlanStep.taskId (step : PlanStep) : Option String :=
  step.delegation_task_id.filter (· ≠ "")

/-- `Partial<PlanStep>`: the columns the engine updates. -/
structure StepUpdate where
  status : Option StepStatus := none
  delegation_task_id : Option String := none
  started_at : Option Int := none

def StepUpdate.apply (u : StepUpdate) (step : PlanStep) : PlanStep :=
  { step with
    status := u.status.getD step.status
    delegation_task_id := u.delegation_task_id <|> step.delegation_task_id
    started_at := u.started_at <|> step.started_at }

/-- The code that found a receipt. -/
inductive Found
  | settled | recovered
  deriving DecidableEq

/-- What the calls of the engine did with a plan's steps: polled one, found a receipt that is
    not a completed one, delegated one. -/
inductive Event
  | polled (call step_id : Nat)
  | refused (call step_id : Nat) (found : Found) (optional : Bool)
  | delegated (call step_id : Nat)
  deriving DecidableEq

/-- `Plan`, with its steps in the order of their ordinals, and its history. -/
structure Plan where
  goal_id : String
  motebit_id : String
  status : PlanStatus
  created_at : Int
  current_step_index : Nat
  steps : List PlanStep
  distinct : (steps.map PlanStep.step_id).Nodup
  history : List Event

namespace Plan

def updateStep (plan : Plan) (step_id : Nat) (u : StepUpdate) : Plan :=
  { plan with
    steps := plan.steps.map fun step => if step.step_id = step_id then u.apply step else step
    distinct := by
      have hids : (plan.steps.map fun step =>
          if step.step_id = step_id then u.apply step else step).map PlanStep.step_id
            = plan.steps.map PlanStep.step_id := by
        rw [map_map]
        refine map_congr_left fun step _ => ?_
        show (if step.step_id = step_id then u.apply step else step).step_id = step.step_id
        split <;> rfl
      rw [hids]
      exact plan.distinct }

def getStep (plan : Plan) (step_id : Nat) : Option PlanStep :=
  plan.steps.find? fun step => step.step_id == step_id

def setStatus (plan : Plan) (status : PlanStatus) : Plan := { plan with status := status }

def setIndex (plan : Plan) (i : Nat) : Plan := { plan with current_step_index := i }

def record (plan : Plan) (e : Event) : Plan := { plan with history := plan.history ++ [e] }

end Plan

/-! ## §2. What is awaited -/

inductive ReceiptStatus
  | completed | failed | denied
  deriving DecidableEq

inductive PollAnswer
  | missing
  | receipt (status : ReceiptStatus)
  | threw
  deriving DecidableEq

/-- A callback of `delegateStep`: `onTaskSubmitted` and `onRotate`. -/
inductive Callback
  | submitted (task_id : String)
  | rotated (rotated_at : Int)

/-- How `delegateStep` ends: with a result, with an undetermined outcome, with another error. -/
inductive DelegateOutcome
  | resolved | undetermined | rejected
  deriving DecidableEq

/-- How a turn of `executeStep` ends; `returned` where the consumer returned at a chunk. -/
inductive TurnAnswer
  | finished | suspended | threw | returned
  deriving DecidableEq

/-- A step of `decomposePlan`. -/
structure RawStep where
  optional : Bool
  required_capabilities : List String

/-- The chunks an engine call yields. -/
inductive PlanChunk
  | plan_created | plan_truncated | step_started | step_completed | step_failed
  | plan_completed | plan_failed | plan_busy | plan_undetermined | plan_retrying | reflection
  | step_delegated
  deriving DecidableEq

/-- What the engine waits for. -/
inductive Req
  /-- The persisted lease of a plan, taken or renewed before a step, with the clock. -/
  | lease (plan_id : Nat) (step_id : Option Nat)
  | chunk (plan_id : Nat) (step_id : Option Nat) (c : PlanChunk)
  | poll (plan_id : Nat) (task_id : String) (step_id : Nat)
  | delegate (plan_id step_id : Nat)
  | turn (plan_id step_id attempt : Nat)
  | decompose (goal_id motebit_id : String) (retry : Nat)
  | reflect (plan_id : Nat)

/-- The answer to each request. -/
def Resp : Req → Type
  | .lease _ _ => Bool × Int
  | .chunk _ _ _ => Bool
  | .poll _ _ _ => PollAnswer
  | .delegate _ _ => List Callback × DelegateOutcome
  | .turn _ _ _ => TurnAnswer
  | .decompose _ _ _ => Option (Int × List RawStep)
  | .reflect _ => Unit

/-- How a call ends before its end: an exception, or its consumer returned. -/
inductive Stop
  | thrown | returned
  deriving DecidableEq

/-- What the adapter of delegations offers. -/
structure Adapter where
  pollTaskResult : Bool
  resubmitsIdempotently : Bool

/-- `PlanEngineConfig`, and whether the store lists active plans. -/
structure PlanEngineConfig where
  maxStepRetries : Nat := 2
  maxPlanRetries : Nat := 1
  enableReflection : Bool := true
  maxStepsPerPlan : Nat := 10
  localCapabilities : List String := []
  delegationAdapter : Option Adapter := none
  localMotebitId : Option String := none
  resubmitWindowMs : Int := 20 * 60 * 60 * 1000
  listActivePlans : Bool := true

/-! ## §3. Driving one plan -/

abbrev PlanTask := Task Plan Req Resp Stop

variable (cfg : PlanEngineConfig) (call plan_id : Nat)

/-- `yield`. -/
def emit (step_id : Option Nat) (c : PlanChunk) : PlanTask Unit := do
  let goesOn : Bool ← Task.ask (Req.chunk plan_id step_id c)
  if goesOn = true then pure () else throw .returned

/-- The capabilities a step needs and this device lacks. -/
def missingCaps (step : PlanStep) : List String :=
  step.required_capabilities.filter fun c => !cfg.localCapabilities.contains c

def isDelegatedStep (step : PlanStep) : Bool :=
  step.taskId.isSome || !(missingCaps cfg step).isEmpty

def assignedElsewhere (step : PlanStep) : Bool :=
  match step.assigned_motebit_id, cfg.localMotebitId with
  | some assigned, some localId => assigned != localId
  | _, _ => false

/-- `areDependenciesMet`: every step before it, up to one of its ordinal or more, is done. -/
def areDependenciesMet (plan : Plan) (step : PlanStep) : Bool :=
  (plan.steps.takeWhile fun prior => prior.ordinal < step.ordinal).all fun prior =>
    prior.status.done

def failPlan : PlanTask Unit := Task.modify fun plan => plan.setStatus .failed

/-- A step that failed: an optional one is skipped, which is the answer; for another the plan
    fails. -/
def failStep (step : PlanStep) (found : List Event) : PlanTask Bool := do
  Task.modify fun plan =>
    { plan.updateStep step.step_id { status := some .failed } with
      history := plan.history ++ found }
  emit plan_id (some step.step_id) .step_failed
  if step.optional = true then
    Task.modify fun plan => plan.updateStep step.step_id { status := some .skipped }
    pure true
  else
    failPlan
    emit plan_id none .plan_failed
    pure false

/-- How `settleHeldStep` ends. -/
inductive Settled
  | completed | skipped | failed | held | resubmit
  deriving DecidableEq

/-- Whether a step with no task handle may be posted again under its key. -/
def mayResubmit (step : PlanStep) (now : Int) : Bool :=
  step.taskId.isNone && (cfg.delegationAdapter.any fun a => a.resubmitsIdempotently) &&
    step.started_at.any fun started => now - started < cfg.resubmitWindowMs

/-- The receipt for a held step; a poll that throws finds none. -/
def pollHeld (step : PlanStep) : PlanTask (Option ReceiptStatus) :=
  match step.taskId with
  | some task_id =>
    if (cfg.delegationAdapter.any fun a => a.pollTaskResult) = true then do
      let answer : PollAnswer ← Task.ask (Req.poll plan_id task_id step.step_id)
      Task.modify fun plan => plan.record (.polled call step.step_id)
      match answer with
      | .receipt status => pure (some status)
      | _ => pure none
    else pure none
  | none => pure none

def completeHeld (step : PlanStep) : PlanTask Unit := do
  Task.modify fun plan => plan.updateStep step.step_id { status := some .completed }
  emit plan_id (some step.step_id) .step_delegated
  emit plan_id (some step.step_id) .step_completed

def settleHeldStep (step : PlanStep) (now : Int) : PlanTask Settled :=
  if mayResubmit cfg step now = true then pure .resubmit
  else do
    let result ← pollHeld cfg call plan_id step
    match result with
    | none =>
      emit plan_id (some step.step_id) .plan_undetermined
      pure .held
    | some .completed =>
      completeHeld plan_id step
      pure .completed
    | some _ =>
      let skipped ← failStep plan_id step [.refused call step.step_id .settled step.optional]
      pure (if skipped then .skipped else .failed)

/-- How the driving of a plan ends: all steps were visited, it stops, or a required local step
    failed. -/
inductive Ended
  | finished | stopped | retryable
  deriving DecidableEq

inductive Visited
  | next
  | stop (ended : Ended)
  deriving DecidableEq

def startStep (step : PlanStep) (i : Nat) (started_at : Int) : PlanTask Unit := do
  Task.modify fun plan =>
    (plan.updateStep step.step_id { status := some .running, started_at := some started_at }).setIndex i
  emit plan_id (some step.step_id) .step_started

def Callback.update : Callback → StepUpdate
  | .submitted task_id => { delegation_task_id := some task_id }
  | .rotated rotated_at => { delegation_task_id := some "", started_at := some rotated_at }

/-- A step for another device. -/
def delegate (step : PlanStep) (i : Nat) (now : Int) : PlanTask Visited := do
  let first := if step.status = .running then step.started_at.getD now else now
  startStep plan_id step i first
  Task.modify fun plan => plan.record (.delegated call step.step_id)
  let answer : List Callback × DelegateOutcome ← Task.ask (Req.delegate plan_id step.step_id)
  Task.forEach (fun (c : Callback) =>
    Task.modify fun plan => plan.updateStep step.step_id c.update) answer.1
  match answer.2 with
  | .resolved =>
    completeHeld plan_id step
    pure .next
  | .undetermined =>
    emit plan_id (some step.step_id) .plan_undetermined
    pure (.stop .stopped)
  | .rejected =>
    let skipped ← failStep plan_id step []
    pure (if skipped then .next else .stop .stopped)

/-- The attempts at a local step: `none` where all of them threw. -/
def attempts (step : PlanStep) (i : Nat) (now : Int) : List Nat → PlanTask (Option Visited)
  | [] => pure none
  | attempt :: rest => do
    startStep plan_id step i now
    let answer : TurnAnswer ← Task.ask (Req.turn plan_id step.step_id attempt)
    match answer with
    | .finished =>
      Task.modify fun plan => plan.updateStep step.step_id { status := some .completed }
      emit plan_id (some step.step_id) .step_completed
      pure (some .next)
    | .suspended => pure (some (.stop .stopped))
    | .returned => throw .returned
    | .threw => attempts step i now rest

def runLocally (step : PlanStep) (i : Nat) (now : Int) : PlanTask Visited := do
  let tried ← attempts plan_id step i now (List.range (cfg.maxStepRetries + 1))
  match tried with
  | some visited => pure visited
  | none =>
    Task.modify fun plan => plan.updateStep step.step_id { status := some .failed }
    emit plan_id (some step.step_id) .step_failed
    if step.optional = true then
      Task.modify fun plan => plan.updateStep step.step_id { status := some .skipped }
      pure .next
    else
      failPlan
      pure (.stop .retryable)

/-- A step that is not done and not held. -/
def driveOpen (step : PlanStep) (i : Nat) (now : Int) : PlanTask Visited := do
  let met ← Task.read fun plan => areDependenciesMet plan step
  if met = true then
    if (missingCaps cfg step).isEmpty = true then runLocally cfg plan_id step i now
    else
      match cfg.delegationAdapter with
      | none =>
        let skipped ← failStep plan_id step []
        pure (if skipped then .next else .stop .stopped)
      | some _ => delegate call plan_id step i now
  else if step.optional = true then do
    Task.modify fun plan => plan.updateStep step.step_id { status := some .skipped }
    pure .next
  else do
    failPlan
    emit plan_id none .plan_failed
    pure (.stop .stopped)

/-- One turn of the loop of `runSteps`; `snapshot` is `steps[i]`. -/
def visit (snapshot : PlanStep) (i : Nat) : PlanTask Visited := do
  let step ← Task.read fun plan => (plan.getStep snapshot.step_id).getD snapshot
  let lease : Bool × Int ← Task.ask (Req.lease plan_id (some snapshot.step_id))
  if lease.1 = false then
    emit plan_id none .plan_busy
    pure (.stop .stopped)
  else if step.status.done = true then pure .next
  else if assignedElsewhere cfg step = true then pure .next
  else if step.status = .running ∧ isDelegatedStep cfg step = true then do
    let settled ← settleHeldStep cfg call plan_id step lease.2
    match settled with
    | .completed | .skipped => pure .next
    | .resubmit => driveOpen cfg call plan_id step i lease.2
    | .failed | .held => pure (.stop .stopped)
  else driveOpen cfg call plan_id step i lease.2

/-- The loop of `runSteps`, and the completion of the plan. -/
def driveSteps : List (PlanStep × Nat) → PlanTask Ended
  | [] => do
    Task.modify fun plan => plan.setStatus .completed
    emit plan_id none .plan_completed
    pure .finished
  | (snapshot, i) :: rest => do
    let visited ← visit cfg call plan_id snapshot i
    match visited with
    | .next => driveSteps rest
    | .stop ended => pure ended

/-- One step of the loop of `recoverLeasedPlan`: whether a receipt was found. -/
def recoverStep (step : PlanStep) : PlanTask Bool :=
  match step.taskId with
  | none => pure false
  | some task_id =>
    if step.status = .running then do
      let answer : PollAnswer ← Task.ask (Req.poll plan_id task_id step.step_id)
      Task.modify fun plan => plan.record (.polled call step.step_id)
      match answer with
      | .missing => pure false
      | .threw => throw .thrown
      | .receipt .completed =>
        completeHeld plan_id step
        pure true
      | .receipt _ =>
        Task.modify fun plan =>
          { plan.updateStep step.step_id { status := some .failed } with
            history := plan.history ++ [.refused call step.step_id .recovered step.optional] }
        emit plan_id (some step.step_id) .step_failed
        pure true
    else pure false

/-- The loop of `recoverLeasedPlan`: whether any receipt was found. -/
def recoverSteps : List PlanStep → PlanTask Bool
  | [] => pure false
  | step :: rest => do
    let found ← recoverStep call plan_id step
    let foundLater ← recoverSteps rest
    pure (found || foundLater)

/-- `recoverLeasedPlan` up to its resumption: whether the plan is resumed. -/
def recoverPlan : PlanTask Bool := do
  let plan ← Task.read id
  if plan.status ≠ .active then pure false
  else do
    let recoveredAny ← recoverSteps call plan_id plan.steps
    if recoveredAny = true then do
      let updated ← Task.read id
      if (updated.steps.any fun s => s.status = .failed && !s.optional) = true then
        failPlan
        emit plan_id none .plan_failed
        pure false
      else pure !(updated.steps.any fun s => s.status = .running)
    else pure false

/-! ## §4. The engine -/

/-- The plan store, and the in-process locks with the call that holds each; the plans are
    those below `next`. -/
structure PlanStore where
  plans : Nat → Plan
  next : Nat
  driver : Nat → Option Nat

abbrev EngineTask := Task PlanStore Req Resp Stop

def planPart (plan_id : Nat) : Part PlanStore Plan where
  get s := s.plans plan_id
  put plan s := { s with plans := Function.update s.plans plan_id plan }
  get_put plan s := by simp
  put_get s := by simp
  put_put plan plan' s := by simp

def PlanStore.getPlan (s : PlanStore) (plan_id : Nat) : Option Plan :=
  if plan_id < s.next then some (s.plans plan_id) else none

def PlanStore.listActivePlans (s : PlanStore) (motebit_id : String) : List Nat :=
  (List.range s.next).filter fun p =>
    (s.plans p).motebit_id == motebit_id && (s.plans p).status == .active

def PlanStore.getPlanForGoal (s : PlanStore) (goal_id : String) : Option Nat :=
  ((List.range s.next).filter fun p => (s.plans p).goal_id == goal_id).foldl
    (fun latest p =>
      match latest with
      | some q => if (s.plans q).created_at ≤ (s.plans p).created_at then some p else some q
      | none => some p) none

/-- `yield`, of a call that holds no plan. -/
def emitAlone (step_id : Option Nat) (c : PlanChunk) : EngineTask Unit := do
  let goesOn : Bool ← Task.ask (Req.chunk plan_id step_id c)
  if goesOn = true then pure () else throw .returned

def findUnresolvedDelegation (s : PlanStore) (goal_id motebit_id : String) : Bool :=
  let active :=
    if cfg.listActivePlans then
      (s.listActivePlans motebit_id).filter fun p => (s.plans p).goal_id == goal_id
    else (s.getPlanForGoal goal_id).toList.filter fun p => (s.plans p).status == .active
  active.any fun p => (s.plans p).steps.any fun step =>
    step.status = .running && isDelegatedStep cfg step

def newPlan (goal_id motebit_id : String) (created_at : Int) (raw : List RawStep) : Plan where
  goal_id := goal_id
  motebit_id := motebit_id
  status := .active
  created_at := created_at
  current_step_index := 0
  steps := raw.zipIdx.map fun r =>
    ⟨r.2, r.2, r.1.optional, r.1.required_capabilities, none, .pending, none, none⟩
  distinct := by
    rw [map_map]
    show (raw.zipIdx.map fun r => r.2).Nodup
    have hidx : (raw.zipIdx.map fun r => r.2) = List.range' 0 raw.length := by
      rw [← zipIdx_map_snd 0 raw]
    rw [hidx]
    exact nodup_range'
  history := []

/-- `createPlan`: the new plan's id, and whether its steps were cut. -/
def createPlan (goal_id motebit_id : String) (retry : Nat) : EngineTask (Nat × Bool) := do
  let held ← Task.read fun s => findUnresolvedDelegation cfg s goal_id motebit_id
  if held = true then throw .thrown
  else do
    let answer : Option (Int × List RawStep) ← Task.ask (Req.decompose goal_id motebit_id retry)
    match answer with
    | none => throw .thrown
    | some (created_at, raw) =>
      Task.act fun s =>
        ((s.next, decide (cfg.maxStepsPerPlan < raw.length)), { s with
            plans := Function.update s.plans s.next
              (newPlan goal_id motebit_id created_at (raw.take cfg.maxStepsPerPlan))
            next := s.next + 1 })

def acquireDriver : EngineTask Bool := do
  let free ← Task.act fun s =>
    if s.driver plan_id = none then
      (true, { s with driver := Function.update s.driver plan_id (some call) })
    else (false, s)
  if free = true then do
    let lease : Bool × Int ← Task.ask (Req.lease plan_id none)
    if lease.1 = true then pure true
    else do
      Task.modify fun s => { s with driver := Function.update s.driver plan_id none }
      pure false
  else pure false

/-- The release `acquireDriver` returns. -/
def release : EngineTask Unit :=
  Task.modify fun s => { s with driver := Function.update s.driver plan_id none }

/-- The steps of the loop, from the plan's current one on. -/
def stepsFrom (plan : Plan) (start : Nat) : List (PlanStep × Nat) := plan.steps.zipIdx.drop start

def driveNew (run : Nat → Plan → EngineTask Unit) (child : Nat) : EngineTask Unit := do
  let new ← Task.read fun s => s.plans child
  emitAlone child none .plan_created
  let driving ← acquireDriver call child
  if driving = true then Task.andFinally (run child new) (release child)
  else emitAlone child none .plan_busy

/-- The notice of a plan that was cut. -/
def emitTruncated (cut : Bool) : EngineTask Unit :=
  if cut = true then emitAlone plan_id none .plan_truncated else pure ()

/-- The adaptive re-plan of a required local step that failed: whether there was one.  An error
    of it is as if there was none. -/
def replan (plan : Plan) (retry : Nat) : Option (Nat → EngineTask Unit) → EngineTask Bool
  | none => pure false
  | some drive =>
    Task.catching (do
      let created ← createPlan cfg plan.goal_id plan.motebit_id retry
      emitAlone plan_id none .plan_retrying
      emitTruncated plan_id created.2
      drive created.1
      pure true) fun
      | .returned => throw .returned
      | .thrown => pure false

/-- What follows the loop of `runSteps`: the reflection, or, for a required local step that
    failed, a new plan where the context allows one. -/
def afterSteps (plan : Plan) (retry : Nat) (drive : Option (Nat → EngineTask Unit)) :
    Ended → EngineTask Unit
  | .finished =>
    if cfg.enableReflection = true then do
      let _ : Unit ← Task.ask (Req.reflect plan_id)
      emitAlone plan_id none .reflection
    else pure ()
  | .stopped => pure ()
  | .retryable => do
    let replaced ← replan cfg plan_id plan retry drive
    if replaced = true then pure () else emitAlone plan_id none .plan_failed

/-- `runSteps` over the steps `plan` had, with the re-plans that are left. -/
def runSteps (ctx : Bool) : Nat → Nat → Plan → Nat → EngineTask Unit
  | 0, plan_id, plan, start => do
    let ended ← (driveSteps cfg call plan_id (stepsFrom plan start)).on (planPart plan_id)
    afterSteps cfg plan_id plan 0 none ended
  | n + 1, plan_id, plan, start => do
    let ended ← (driveSteps cfg call plan_id (stepsFrom plan start)).on (planPart plan_id)
    let drive := driveNew call fun child new => runSteps ctx n child new 0
    afterSteps cfg plan_id plan (n + 1) (if ctx then some drive else none) ended

def resumeLeased (ctx : Bool) : EngineTask Unit := do
  let plan ← Task.read fun s => s.plans plan_id
  if plan.status = .active then
    runSteps cfg call ctx cfg.maxPlanRetries plan_id plan plan.current_step_index
  else pure ()

def resumePlan (ctx : Bool) : EngineTask Unit := do
  let found ← Task.read fun s => s.getPlan plan_id
  match found with
  | none => throw .thrown
  | some plan =>
    if plan.status ≠ .active then throw .thrown
    else do
      let driving ← acquireDriver call plan_id
      if driving = true then
        Task.andFinally (resumeLeased cfg call plan_id ctx) (release plan_id)
      else emitAlone plan_id none .plan_busy

/-- `executePlan`; the lock is taken in the stretch that reads the plan. -/
def executePlan (ctx : Bool) : EngineTask Unit := do
  let found ← Task.read fun s => s.getPlan plan_id
  match found with
  | none => throw .thrown
  | some _ =>
    let driving ← acquireDriver call plan_id
    if driving = true then
      Task.andFinally (do
        let plan ← Task.read fun s => s.plans plan_id
        emitAlone plan_id none .plan_created
        runSteps cfg call ctx cfg.maxPlanRetries plan_id plan plan.current_step_index)
        (release plan_id)
    else emitAlone plan_id none .plan_busy

def recoverLeasedPlan : EngineTask Unit := do
  let resumes ← (recoverPlan call plan_id).on (planPart plan_id)
  if resumes = true then resumeLeased cfg call plan_id false else pure ()

def recoverDelegatedSteps (motebit_id : String) : EngineTask Unit :=
  if ((cfg.delegationAdapter.any fun a => a.pollTaskResult) && cfg.listActivePlans) = true then do
    let active ← Task.read fun s => s.listActivePlans motebit_id
    Task.forEach (fun plan_id => do
      let driving ← acquireDriver call plan_id
      if driving = true then
        Task.andFinally (recoverLeasedPlan cfg call plan_id) (release plan_id)
      else emitAlone plan_id none .plan_busy) active
  else pure ()

end Motebit.Planner
