/-
  Motebit.Planner.Agreement — RECOVERY AND RESUMPTION SETTLE HELD STEPS ALIKE.

  Both calls are evaluated alone over one store against the same answers.  The plan stands as
  the engine leaves one that holds: the steps before the current one are done, the steps up to
  the last held one are done or held, and behind that nothing is running.

  Main results: `driveSteps_settles`, `driveSteps_stops`, `eval_recoverSteps`,
  `recovery_agrees`.
-/

import Motebit.Planner.Engine

namespace Motebit.Planner

open Motebit.Lib List Function Task
open Plan

/-! ## §1. Answers -/

def pollAnswer (o : ∀ r, Resp r) (p : Nat) (task_id : String) (step_id : Nat) : PollAnswer :=
  o (.poll p task_id step_id)

def turnAnswer (o : ∀ r, Resp r) (p step_id attempt : Nat) : TurnAnswer :=
  o (.turn p step_id attempt)

/-- Whether the consumer goes on after a chunk. -/
def goesOn (o : ∀ r, Resp r) (p : Nat) (step_id : Option Nat) (c : PlanChunk) : Bool :=
  o (.chunk p step_id c)

/-- Whether the persisted lease is granted, and the clock. -/
def leaseAnswer (o : ∀ r, Resp r) (p : Nat) (step_id : Option Nat) : Bool × Int :=
  o (.lease p step_id)

/-- The calls are consumed to their end, and every poll answers. -/
structure Consumed (o : ∀ r, Resp r) : Prop where
  chunk : ∀ p step_id c, goesOn o p step_id c = true
  turn : ∀ p step_id attempt, turnAnswer o p step_id attempt ≠ .returned
  poll : ∀ p task_id step_id, pollAnswer o p task_id step_id ≠ .threw

def PlanStep.held (step : PlanStep) : Bool := step.status = .running && step.taskId.isSome

section

variable (o : ∀ r, Resp r) (p : Nat)

/-- The receipt the poll of a step finds, where it is held. -/
def receiptOf (step : PlanStep) : Option ReceiptStatus :=
  match step.taskId with
  | some task_id =>
    if step.status = .running then
      match pollAnswer o p task_id step.step_id with
      | .receipt status => some status
      | _ => none
    else none
  | none => none

/-- A step as its receipt leaves it. -/
def PlanStep.settledBy (step : PlanStep) : PlanStep :=
  match receiptOf o p step with
  | some .completed => { step with status := .completed }
  | some _ => { step with status := .failed }
  | none => step

def Plan.settle (call : Nat) (found : Found) (plan : Plan) (step : PlanStep) : Plan :=
  if step.held = true then
    match receiptOf o p step with
    | some .completed =>
      (plan.record (.polled call step.step_id)).updateStep step.step_id
        { status := some .completed }
    | some _ =>
      { (plan.record (.polled call step.step_id)).updateStep step.step_id
          { status := some .failed } with
        history := (plan.record (.polled call step.step_id)).history ++
          [.refused call step.step_id found step.optional] }
    | none => plan.record (.polled call step.step_id)
  else plan

end

variable {o : ∀ r, Resp r} {p call : Nat} {cfg : PlanEngineConfig} {plan : Plan}

theorem eval_emit (ho : Consumed o) (step_id : Option Nat) (c : PlanChunk) :
    eval o (emit p step_id c) plan = (.ok (), plan) := by
  have hask : eval o (emit p step_id c) plan
      = eval o (if goesOn o p step_id c = true then pure () else throw .returned) plan := rfl
  rw [hask, ho.chunk, if_pos rfl]
  rfl

theorem held_eq (step : PlanStep) (h : step.held = true) :
    step.status = .running ∧ ∃ task_id, step.taskId = some task_id := by
  unfold PlanStep.held at h
  rwa [Bool.and_eq_true, decide_eq_true_eq, Option.isSome_iff_exists] at h

theorem updateStep_split {before after : List PlanStep} {step : PlanStep} {u : StepUpdate}
    (h : plan.steps = before ++ step :: after) :
    (plan.updateStep step.step_id u).steps = before ++ u.apply step :: after := by
  have hnodup := plan.distinct
  rw [h, map_append, map_cons, nodup_append, nodup_cons] at hnodup
  obtain ⟨-, ⟨hafter, -⟩, hbefore⟩ := hnodup
  have hkeep : ∀ l : List PlanStep, (∀ s ∈ l, s.step_id ≠ step.step_id) →
      (l.map fun s => if s.step_id = step.step_id then u.apply s else s) = l :=
    fun l hl => (map_congr_left fun s hs => if_neg (hl s hs)).trans l.map_id
  show (plan.steps.map fun s => if s.step_id = step.step_id then u.apply s else s) = _
  rw [h, map_append, map_cons, if_pos rfl, hkeep before, hkeep after]
  · intro s hs heq
    exact hafter (heq ▸ mem_map_of_mem hs)
  · intro s hs
    exact hbefore _ (mem_map_of_mem hs) _ mem_cons_self

variable {found : Found} {l : List PlanStep} {s : PlanStore}

theorem receipt_none_of_not_held {step : PlanStep} (h : step.held = false) :
    receiptOf o p step = none := by
  unfold receiptOf
  split
  · next task htask =>
    rw [if_neg]
    intro hrunning
    unfold PlanStep.held at h
    rw [htask, hrunning] at h
    cases h
  · rfl

theorem settledBy_of_none {step : PlanStep} (h : receiptOf o p step = none) :
    step.settledBy o p = step := by
  unfold PlanStep.settledBy
  rw [h]

theorem settle_steps {before after : List PlanStep} {step : PlanStep}
    (h : plan.steps = before ++ step :: after) :
    (plan.settle o p call found step).steps = before ++ step.settledBy o p :: after := by
  unfold Plan.settle
  split
  · unfold PlanStep.settledBy
    split
    · exact @updateStep_split (plan.record _) _ _ _ _ h
    · exact @updateStep_split (plan.record _) _ _ _ _ h
    · exact h
  · next hnot =>
    rw [settledBy_of_none (receipt_none_of_not_held (Bool.eq_false_iff.mpr hnot))]
    exact h

/-! ## §2. Evaluation of what the driver does -/

section

variable {α : Type}

theorem eval_modify_bind (f : Plan → Plan) (g : Unit → PlanTask α) :
    eval o (modify f >>= g) plan = eval o (g ()) (f plan) := rfl

theorem eval_read_bind {β : Type} (f : Plan → β) (g : β → PlanTask α) :
    eval o (read f >>= g) plan = eval o (g (f plan)) plan := rfl

theorem eval_ask_bind (r : Req) (g : Resp r → PlanTask α) :
    eval o (ask r >>= g) plan = eval o (g (o r)) plan := rfl

theorem eval_emit_bind (ho : Consumed o) (step_id : Option Nat) (c : PlanChunk)
    (g : Unit → PlanTask α) : eval o (emit p step_id c >>= g) plan = eval o (g ()) plan :=
  eval_bind_ok o plan (eval_emit ho step_id c)

end

theorem eval_completeHeld (ho : Consumed o) (step : PlanStep) :
    eval o (completeHeld p step) plan
      = (.ok (), plan.updateStep step.step_id { status := some .completed }) := by
  unfold completeHeld
  rw [eval_modify_bind, eval_emit_bind ho, eval_emit ho]

/-- **One step of the recovery**, evaluated. -/
theorem eval_recoverStep (ho : Consumed o) (step : PlanStep) : eval o (recoverStep call p step) plan
      = (.ok (receiptOf o p step).isSome, plan.settle o p call .recovered step) := by
  unfold recoverStep Plan.settle PlanStep.held receiptOf
  cases htask : step.taskId with
  | none => simp
  | some task_id =>
    by_cases hrunning : step.status = .running
    · simp only [hrunning, if_true, decide_true, Option.isSome_some, Bool.and_self]
      refine (eval_ask_bind _ _).trans ?_
      rw [eval_modify_bind]
      have hthrew := ho.poll p task_id step.step_id
      unfold pollAnswer at hthrew ⊢
      generalize o (.poll p task_id step.step_id) = answer at hthrew ⊢
      cases answer with
      | missing => rfl
      | threw => exact absurd rfl hthrew
      | receipt status =>
        cases status with
        | completed =>
          rw [eval_bind_ok o _ (eval_completeHeld ho step)]
          rfl
        | failed | denied =>
          rw [eval_modify_bind, eval_emit_bind ho]
          rfl
    · simp [hrunning]

/-- **The recovery settles every step.** -/
theorem eval_recoverSteps (ho : Consumed o) (steps : List PlanStep) :
    eval o (recoverSteps call p steps) plan
      = (.ok (steps.any fun s => (receiptOf o p s).isSome),
          steps.foldl (settle o p call .recovered) plan) := by
  induction steps generalizing plan with
  | nil => rfl
  | cons step rest ih =>
    unfold recoverSteps
    rw [eval_bind_ok o _ (eval_recoverStep ho step), eval_bind_ok o _ ih]
    rfl

/-! ## §3. The loop over held steps -/

@[simp] theorem keys_settle (found : Found) (step : PlanStep) :
    (plan.settle o p call found step).keys = plan.keys := by
  unfold Plan.settle
  split
  · split
    · exact keys_updateStep (plan.record _) _ _
    · exact keys_updateStep (plan.record _) _ _
    · rfl
  · rfl

/-- What no settled step changes, settling them all does not. -/
theorem settleAll_keeps {β : Type} (f : Plan → β) (found : Found) (l : List PlanStep)
    (h : ∀ (plan : Plan) step, f (plan.settle o p call found step) = f plan) :
    f (l.foldl (settle o p call found) plan) = f plan :=
  l.foldlRecOn (motive := fun v => f v = f plan) _ rfl fun _ hv step _ => (h _ step).trans hv

theorem keys_settleAll (found : Found) (l : List PlanStep) :
    (l.foldl (settle o p call found) plan).keys = plan.keys :=
  settleAll_keeps keys found l fun _ _ => keys_settle _ _

theorem settle_of_not_held {step : PlanStep} (h : step.held = false) :
    plan.settle o p call found step = plan := by
  unfold Plan.settle
  rw [h]
  rfl

theorem not_held_of_done {step : PlanStep} (h : step.status.done = true) : step.held = false := by
  unfold PlanStep.held
  cases hstatus : step.status <;> rw [hstatus] at h <;> first | rfl | cases h

theorem getStep_split {before after : List PlanStep} {step : PlanStep}
    (h : plan.steps = before ++ step :: after) : plan.getStep step.step_id = some step := by
  apply getStep_eq (i := before.length)
  rw [h, getElem?_append_right (Nat.le_refl _), Nat.sub_self]
  rfl

/-- What the loop needs of the outside: leases renewed, and an adapter that polls. -/
structure Renewed (o : ∀ r, Resp r) (p : Nat) (cfg : PlanEngineConfig) : Prop where
  lease : ∀ step_id, (leaseAnswer o p (some step_id)).1 = true
  polls : (cfg.delegationAdapter.any fun a => a.pollTaskResult) = true

variable {before after : List PlanStep} {step : PlanStep} {i : Nat}

theorem Renewed.granted (hr : Renewed o p cfg) (step_id : Nat) :
    ¬(o (.lease p (some step_id)) : Bool × Int).1 = false :=
  ne_false_of_eq_true (hr.lease step_id)

theorem eval_visit_done (hr : Renewed o p cfg) (h : plan.steps = before ++ step :: after)
    (hdone : step.status.done = true) :
    eval o (visit cfg call p step i) plan = (.ok .next, plan) := by
  refine (eval_read_bind _ _).trans ((eval_ask_bind _ _).trans ?_)
  rw [if_neg (hr.granted _), getStep_split h, Option.getD_some, if_pos hdone]
  rfl

variable {plan' : Plan}

theorem eval_visit_held (hr : Renewed o p cfg) (h : plan.steps = before ++ step :: after)
    (hplain : plan.collaborative = false) (hheld : step.held = true) {settled : Settled}
    (hsettled : eval o (settleHeldStep cfg call p step (leaseAnswer o p (some step.step_id)).2) plan
      = (.ok settled, plan')) (hno : settled ≠ .resubmit) : eval o (visit cfg call p step i) plan
      = (.ok (if settled = .completed ∨ settled = .skipped then .next else .stop .stopped), plan') := by
  obtain ⟨hrunning, task_id, htask⟩ := held_eq step hheld
  have hat : plan.steps[before.length]? = some step := by
    rw [h, getElem?_append_right (Nat.le_refl _), Nat.sub_self]
    rfl
  have hdelegated : isDelegatedStep cfg step = true := by
    unfold isDelegatedStep
    rw [htask]
    rfl
  refine (eval_read_bind _ _).trans ((eval_ask_bind _ _).trans ?_)
  rw [if_neg (hr.granted _), getStep_split h, Option.getD_some, if_neg (by rw [hrunning]; decide),
    if_neg (by rw [@not_assigned _ _ cfg _ hplain hat]; decide), if_pos ⟨hrunning, hdelegated⟩]
  refine (eval_bind_ok o _ hsettled).trans ?_
  cases settled with
  | resubmit => exact absurd rfl hno
  | completed | skipped | failed | held => rfl

theorem eval_failStep (ho : Consumed o) (found : List Event) :
    eval o (failStep p step found) plan
      = if step.optional = true then
          (.ok true, updateStep { plan.updateStep step.step_id { status := some .failed } with
            history := plan.history ++ found } step.step_id { status := some .skipped })
        else (.ok false, setStatus { plan.updateStep step.step_id { status := some .failed } with
            history := plan.history ++ found } .failed) := by
  unfold failStep failPlan
  rw [eval_modify_bind, eval_emit_bind ho]
  split
  · rfl
  · rw [eval_modify_bind, eval_emit_bind ho]
    rfl

theorem receiptOf_eq {task_id : String} (htask : step.taskId = some task_id)
    (hrunning : step.status = .running) :
    receiptOf o p step = match pollAnswer o p task_id step.step_id with
      | .receipt status => some status
      | _ => none := by
  unfold receiptOf
  rw [htask, hrunning]
  rfl

theorem eval_settleHeldStep (ho : Consumed o) (hr : Renewed o p cfg) (hheld : step.held = true)
    (now : Int) :
    eval o (settleHeldStep cfg call p step now) plan
      = match receiptOf o p step with
        | none => (.ok .held, plan.settle o p call .settled step)
        | some .completed => (.ok .completed, plan.settle o p call .settled step)
        | some _ =>
          if step.optional = true then
            (.ok .skipped, (plan.settle o p call .settled step).updateStep step.step_id
              { status := some .skipped })
          else (.ok .failed, (plan.settle o p call .settled step).setStatus .failed) := by
  obtain ⟨hrunning, task_id, htask⟩ := held_eq step hheld
  have hno : mayResubmit cfg step now = false := by
    unfold mayResubmit
    rw [htask]
    rfl
  have hpoll : ∀ g : Option ReceiptStatus → PlanTask Settled,
      eval o (pollHeld cfg call p step >>= g) plan
        = eval o (g (receiptOf o p step)) (plan.record (.polled call step.step_id)) := by
    intro g
    apply eval_bind_ok
    rw [receiptOf_eq htask hrunning]
    unfold pollHeld
    rw [htask, hr.polls]
    show eval o (match pollAnswer o p task_id step.step_id with
        | .receipt status => pure (some status)
        | _ => pure none : PlanTask (Option ReceiptStatus)) (plan.record _) = _
    cases pollAnswer o p task_id step.step_id <;> rfl
  unfold settleHeldStep
  rw [hno, if_neg (by decide), hpoll]
  unfold Plan.settle
  rw [if_pos hheld]
  cases receiptOf o p step with
  | none =>
    rw [eval_emit_bind ho]
    rfl
  | some status =>
    cases status with
    | completed =>
      rw [eval_bind_ok o _ (eval_completeHeld ho step)]
      rfl
    | failed | denied =>
      by_cases hoptional : step.optional = true
      · rw [eval_bind_ok o _ ((eval_failStep ho _).trans (if_pos hoptional)), if_pos hoptional]
        rfl
      · rw [eval_bind_ok o _ ((eval_failStep ho _).trans (if_neg hoptional)), if_neg hoptional]
        rfl

/-- A step the loop passes: done, or held with a completed receipt. -/
def Passes (o : ∀ r, Resp r) (p : Nat) (step : PlanStep) : Prop :=
  step.status.done = true ∨ step.held = true ∧ receiptOf o p step = some .completed

theorem eval_visit_passes (ho : Consumed o) (hr : Renewed o p cfg)
    (h : plan.steps = before ++ step :: after) (hplain : plan.collaborative = false)
    (hpasses : Passes o p step) : eval o (visit cfg call p step i) plan
      = (.ok .next, plan.settle o p call .settled step) := by
  rcases hpasses with hdone | ⟨hheld, hreceipt⟩
  · rw [eval_visit_done hr h hdone, settle_of_not_held (not_held_of_done hdone)]
  · have hsettled := @eval_settleHeldStep o p call cfg plan step ho hr hheld
      (leaseAnswer o p (some step.step_id)).2
    rw [hreceipt] at hsettled
    exact eval_visit_held hr h hplain hheld hsettled nofun

/-- **The loop passes what is done and settles what is held**, as long as the receipts are
    completed ones. -/
theorem driveSteps_settles (ho : Consumed o) (hr : Renewed o p cfg) (l : List PlanStep)
    (rest : List (PlanStep × Nat)) (h : plan.steps = before ++ (l ++ after))
    (hplain : plan.collaborative = false) (hl : ∀ step ∈ l, Passes o p step) :
    eval o (driveSteps cfg call p (l.zipIdx i ++ rest)) plan = eval o (driveSteps cfg call p rest)
          (l.foldl (settle o p call .settled) plan) := by
  induction l generalizing plan before i with
  | nil => rfl
  | cons step l ih =>
    have hsplit : plan.steps = before ++ step :: (l ++ after) := h
    have hnext : (plan.settle o p call .settled step).steps
        = (before ++ [step.settledBy o p]) ++ (l ++ after) := by
      rw [settle_steps hsplit, append_assoc]
      rfl
    have hplain' : (plan.settle o p call .settled step).collaborative = false := by
      rw [collaborative_congr (keys_settle _ _)]
      exact hplain
    have hvisit := @eval_visit_passes o p call cfg _ _ _ _ i ho hr hsplit hplain
      (hl step mem_cons_self)
    rw [zipIdx_cons, cons_append, foldl_cons,
      ← ih hnext hplain' fun s hs => hl s (mem_cons_of_mem _ hs)]
    exact eval_bind_ok o plan hvisit

/-- **The loop stops at a held step without a completed receipt**: as it is where there is no
    receipt, and with the plan failed where a required step was refused. -/
theorem driveSteps_stops (ho : Consumed o) (hr : Renewed o p cfg) (rest : List (PlanStep × Nat))
    (h : plan.steps = before ++ step :: after) (hplain : plan.collaborative = false)
    (hheld : step.held = true) (hreceipt : receiptOf o p step ≠ some .completed)
    (hrequired : receiptOf o p step ≠ none → step.optional = false) :
    eval o (driveSteps cfg call p ((step, i) :: rest)) plan
      = (.ok .stopped, if receiptOf o p step = none then plan.settle o p call .settled step
          else (plan.settle o p call .settled step).setStatus .failed) := by
  have hsettled := @eval_settleHeldStep o p call cfg plan step ho hr hheld
    (leaseAnswer o p (some step.step_id)).2
  cases hfound : receiptOf o p step with
  | none =>
    rw [hfound] at hsettled
    exact eval_bind_ok o plan (eval_visit_held hr h hplain hheld hsettled nofun)
  | some status =>
    rw [hfound] at hsettled hreceipt hrequired
    cases status with
    | completed => exact absurd rfl hreceipt
    | failed | denied =>
      rw [hrequired nofun, if_neg (by decide)] at hsettled
      exact eval_bind_ok o plan (eval_visit_held hr h hplain hheld hsettled nofun)

/-! ## §4. What both calls leave of the plan -/

theorem settleAll_steps (found : Found) (l : List PlanStep) (h : plan.steps = before ++ (l ++ after)) :
    (l.foldl (settle o p call found) plan).steps
      = before ++ (l.map (PlanStep.settledBy o p) ++ after) := by
  induction l generalizing plan before with
  | nil => exact h
  | cons step l ih =>
    have hnext : (plan.settle o p call found step).steps
        = (before ++ [step.settledBy o p]) ++ (l ++ after) := by
      rw [settle_steps h, append_assoc]
      rfl
    rw [foldl_cons, ih hnext, append_assoc]
    rfl

@[simp] theorem settle_status (found : Found) (step : PlanStep) :
    (plan.settle o p call found step).status = plan.status := by
  unfold Plan.settle
  split
  · split <;> rfl
  · rfl

@[simp] theorem settle_index (found : Found) (step : PlanStep) :
    (plan.settle o p call found step).current_step_index = plan.current_step_index := by
  unfold Plan.settle
  split
  · split <;> rfl
  · rfl

theorem settleAll_status (found : Found) (l : List PlanStep) :
    (l.foldl (settle o p call found) plan).status = plan.status :=
  settleAll_keeps status found l fun _ _ => settle_status _ _

theorem settleAll_index (found : Found) (l : List PlanStep) :
    (l.foldl (settle o p call found) plan).current_step_index = plan.current_step_index :=
  settleAll_keeps current_step_index found l fun _ _ => settle_index _ _

theorem settleAll_of_not_held (h : ∀ step ∈ l, step.held = false) :
    l.foldl (settle o p call found) plan = plan := by
  induction l with
  | nil => rfl
  | cons step l ih =>
    rw [foldl_cons, settle_of_not_held (h step mem_cons_self)]
    exact ih fun s hs => h s (mem_cons_of_mem _ hs)

theorem settleAll_found {found' : Found} (h : ∀ step ∈ l, Passes o p step) :
    l.foldl (settle o p call found) plan = l.foldl (settle o p call found') plan := by
  induction l generalizing plan with
  | nil => rfl
  | cons step l ih =>
    have hsame : plan.settle o p call found step = plan.settle o p call found' step := by
      rcases h step mem_cons_self with hdone | ⟨hheld, hreceipt⟩
      · rw [settle_of_not_held (not_held_of_done hdone), settle_of_not_held (not_held_of_done hdone)]
      · unfold Plan.settle
        rw [hreceipt]
    rw [foldl_cons, foldl_cons, hsame]
    exact ih fun s hs => h s (mem_cons_of_mem _ hs)

theorem polled_settle {id : Nat}
    (h : .polled call id ∈ (l.foldl (settle o p call found) plan).history) :
    .polled call id ∈ plan.history ∨ ∃ step ∈ l, step.step_id = id := by
  induction l generalizing plan with
  | nil => exact .inl h
  | cons step l ih =>
    rcases ih h with hmem | ⟨s, hs, hid⟩
    · -- an event of this step, or an older one
      unfold Plan.settle at hmem
      have hpolled : Event.polled call id ∈ (plan.record (.polled call step.step_id)).history →
          .polled call id ∈ plan.history ∨ step.step_id = id := by
        intro hin
        rcases mem_append.mp hin with hin | hin
        · exact .inl hin
        · rw [mem_singleton] at hin
          cases hin
          exact .inr rfl
      have hstep : .polled call id ∈ plan.history ∨ step.step_id = id := by
        split at hmem
        · split at hmem
          · exact hpolled hmem
          · rcases mem_append.mp hmem with hin | hin
            · exact hpolled hin
            · rw [mem_singleton] at hin
              cases hin
          · exact hpolled hmem
        · exact .inl hmem
      rcases hstep with hold | hid
      · exact .inl hold
      · exact .inr ⟨step, mem_cons_self, hid⟩
    · exact .inr ⟨s, mem_cons_of_mem _ hs, hid⟩

theorem settleAll_all (found : Found) : (plan.steps.foldl (settle o p call found) plan).steps
      = plan.steps.map (PlanStep.settledBy o p) := by
  have hall := @settleAll_steps o p call plan [] [] found plan.steps (by simp)
  rwa [nil_append, append_nil] at hall

theorem eval_recoverPlan (ho : Consumed o) (hactive : plan.status = .active) :
    eval o (recoverPlan call p) plan
      = if (plan.steps.any fun s => (receiptOf o p s).isSome) = true then
          if ((plan.steps.map (PlanStep.settledBy o p)).any fun s =>
              s.status = .failed && !s.optional) = true then
            (.ok false, (plan.steps.foldl (settle o p call .recovered) plan).setStatus .failed)
          else (.ok (!((plan.steps.map (PlanStep.settledBy o p)).any fun s => s.status = .running)),
            plan.steps.foldl (settle o p call .recovered) plan)
        else (.ok false, plan.steps.foldl (settle o p call .recovered) plan) := by
  have hsteps := @settleAll_all o p call plan .recovered
  unfold recoverPlan
  rw [eval_read_bind, id_eq, if_neg (by rw [hactive]; decide), eval_bind_ok o _ (eval_recoverSteps ho _)]
  split
  · rw [eval_read_bind, id_eq, hsteps]
    split
    · unfold failPlan
      rw [eval_modify_bind, eval_emit_bind ho]
      rfl
    · rfl
  · rfl

/-- A plan that holds, as the engine leaves one: the steps before the current one are done, the
    next ones, `mid`, are done or held, one of them held, and behind them none is running and
    no required one has failed. -/
structure Holds (plan : Plan) (before mid after : List PlanStep) : Prop where
  steps : plan.steps = before ++ (mid ++ after)
  index : plan.current_step_index = before.length
  active : plan.status = .active
  plain : plan.collaborative = false
  done : ∀ step ∈ before, step.status.done = true
  waiting : ∀ step ∈ mid, step.status.done = true ∨ step.held = true
  held : ∃ step ∈ mid, step.held = true
  rest : ∀ step ∈ after, step.status ≠ .running ∧ (step.status = .failed → step.optional = true)

/-- A receipt that is not a completed one. -/
def Refused (o : ∀ r, Resp r) (p : Nat) (step : PlanStep) : Prop :=
  ∃ status, receiptOf o p step = some status ∧ status ≠ .completed

/-- The receipts for the held steps: none refuses an optional step, and none refuses a step
    behind one that has no receipt. -/
structure Receipts (o : ∀ r, Resp r) (p : Nat) (mid : List PlanStep) : Prop where
  required : ∀ step ∈ mid, Refused o p step → step.optional = false
  ordered : mid.Pairwise fun step later =>
    step.held = true → receiptOf o p step = none → ¬ Refused o p later

@[simp] theorem settledBy_optional : (step.settledBy o p).optional = step.optional := by
  unfold PlanStep.settledBy
  split <;> rfl

@[simp] theorem settledBy_id : (step.settledBy o p).step_id = step.step_id := by
  unfold PlanStep.settledBy
  split <;> rfl

theorem Passes.settled (h : Passes o p step) : (step.settledBy o p).status.done = true := by
  rcases h with hdone | ⟨-, hreceipt⟩
  · rw [settledBy_of_none (receipt_none_of_not_held (not_held_of_done hdone))]
    exact hdone
  · unfold PlanStep.settledBy
    rw [hreceipt]
    rfl

theorem Passes.not_refused (h : Passes o p step) : ¬ Refused o p step := by
  rintro ⟨status, hreceipt, hne⟩
  rcases h with hdone | ⟨-, hcompleted⟩
  · rw [receipt_none_of_not_held (not_held_of_done hdone)] at hreceipt
    cases hreceipt
  · rw [hcompleted] at hreceipt
    exact hne (Option.some.inj hreceipt).symm

theorem Holds.cases_mid {mid : List PlanStep}
    (hwaiting : ∀ step ∈ mid, step.status.done = true ∨ step.held = true) :
    (∀ step ∈ mid, Passes o p step) ∨
    ∃ passed step later, mid = passed ++ step :: later ∧ (∀ s ∈ passed, Passes o p s) ∧
      step.held = true ∧ receiptOf o p step ≠ some .completed := by
  induction mid with
  | nil => exact .inl (by simp)
  | cons step mid ih =>
    by_cases hpasses : Passes o p step
    · rcases ih fun s hs => hwaiting s (mem_cons_of_mem _ hs) with hall |
        ⟨passed, stop, later, rfl, hpassed, hstop⟩
      · refine .inl fun s hs => ?_
        rcases mem_cons.mp hs with rfl | hs
        · exact hpasses
        · exact hall s hs
      · refine .inr ⟨step :: passed, stop, later, rfl, fun s hs => ?_, hstop⟩
        rcases mem_cons.mp hs with rfl | hs
        · exact hpasses
        · exact hpassed s hs
    · refine .inr ⟨[], step, mid, rfl, by simp, ?_⟩
      rcases hwaiting step mem_cons_self with hdone | hheld
      · exact absurd (.inl hdone) hpasses
      · exact ⟨hheld, fun hreceipt => hpasses (.inr ⟨hheld, hreceipt⟩)⟩

theorem getStep_of_mem (h : step ∈ plan.steps) : plan.getStep step.step_id = some step := by
  obtain ⟨i, hi⟩ := getElem?_of_mem h
  exact getStep_eq hi

variable {mid : List PlanStep}

theorem stepsFrom_eq (h : plan.steps = before ++ (mid ++ after)) : stepsFrom plan before.length
      = mid.zipIdx before.length ++ after.zipIdx (before.length + mid.length) := by
  unfold stepsFrom
  rw [h, zipIdx_append, zipIdx_append, drop_append]
  simp

theorem not_held_of_not_running (h : step.status ≠ .running) : step.held = false := by
  unfold PlanStep.held
  rw [decide_eq_false h, Bool.false_and]

theorem not_running_of_done (h : step.status.done = true) :
    step.status ≠ .running ∧ step.status ≠ .failed := by
  constructor <;> intro hstatus <;> rw [hstatus] at h <;> cases h

theorem Holds.settled (h : Holds plan before mid after) (found : Found) :
    plan.steps.foldl (settle o p call found) plan = mid.foldl (settle o p call found) plan := by
  rw [h.steps, foldl_append, foldl_append,
    settleAll_of_not_held fun s hs => not_held_of_done (h.done s hs),
    settleAll_of_not_held fun s hs => not_held_of_not_running (h.rest s hs).1]

theorem Holds.settled_steps (h : Holds plan before mid after) :
    plan.steps.map (PlanStep.settledBy o p)
      = before ++ (mid.map (PlanStep.settledBy o p) ++ after) := by
  have hkeep : ∀ l : List PlanStep, (∀ s ∈ l, s.held = false) → l.map (PlanStep.settledBy o p) = l :=
    fun l hl => (map_congr_left fun s hs =>
      settledBy_of_none (receipt_none_of_not_held (hl s hs))).trans l.map_id
  rw [h.steps, map_append, map_append, hkeep before fun s hs => not_held_of_done (h.done s hs),
    hkeep after fun s hs => not_held_of_not_running (h.rest s hs).1]

theorem Holds.failed_iff (h : Holds plan before mid after) (hreceipts : Receipts o p mid) :
    ((plan.steps.map (PlanStep.settledBy o p)).any fun s => s.status = .failed && !s.optional) = true
      ↔ ∃ step ∈ mid, Refused o p step := by
  rw [h.settled_steps, any_eq_true]
  constructor
  · rintro ⟨s, hs, hfailed⟩
    rw [Bool.and_eq_true, decide_eq_true_eq, Bool.not_eq_true'] at hfailed
    rcases mem_append.mp hs with hs | hs
    · exact absurd hfailed.1 (not_running_of_done (h.done s hs)).2
    · rcases mem_append.mp hs with hs | hs
      · obtain ⟨step, hstep, rfl⟩ := mem_map.mp hs
        refine ⟨step, hstep, ?_⟩
        have hstatus := hfailed.1
        unfold PlanStep.settledBy at hstatus
        split at hstatus
        · cases hstatus
        · next status hne hreceipt => exact ⟨status, hreceipt, hne⟩
        · rcases h.waiting step hstep with hdone | hheld
          · exact absurd hstatus (not_running_of_done hdone).2
          · rw [(held_eq step hheld).1] at hstatus
            cases hstatus
      · rw [(h.rest s hs).2 hfailed.1] at hfailed
        cases hfailed.2
  · rintro ⟨step, hstep, hrefused⟩
    refine ⟨step.settledBy o p, ?_, ?_⟩
    · exact mem_append_right _ (mem_append_left _ (mem_map_of_mem hstep))
    · rw [settledBy_optional, hreceipts.required step hstep hrefused]
      obtain ⟨status, hreceipt, hne⟩ := hrefused
      unfold PlanStep.settledBy
      rw [hreceipt]
      cases status with
      | completed => exact absurd rfl hne
      | failed | denied => rfl

/-- **Where every receipt is a completed one, both calls drive on from the same plan.** -/
theorem Holds.drives_on (ho : Consumed o) (hr : Renewed o p cfg) (h : Holds plan before mid after)
    (hall : ∀ step ∈ mid, Passes o p step) :
    ∃ plan', eval o (recoverPlan call p) plan = (.ok true, plan') ∧
      plan'.status = .active ∧
      eval o (driveSteps cfg call p (stepsFrom plan' plan'.current_step_index)) plan'
        = eval o (driveSteps cfg call p (stepsFrom plan plan.current_step_index)) plan := by
  have hsettled := @Holds.settled o p call _ _ _ _ h .recovered
  have hnone : ¬ ∃ step ∈ mid, Refused o p step := fun ⟨step, hstep, hrefused⟩ =>
    (hall step hstep).not_refused hrefused
  have hreceipts : Receipts o p mid := by
    refine ⟨fun step hstep hrefused => absurd ⟨step, hstep, hrefused⟩ hnone, ?_⟩
    exact pairwise_of_forall_mem_list fun _ _ later hlater _ _ hrefused =>
      hnone ⟨later, hlater, hrefused⟩
  have hany : (plan.steps.any fun s => (receiptOf o p s).isSome) = true := by
    obtain ⟨step, hstep, hheld⟩ := h.held
    rw [any_eq_true]
    refine ⟨step, ?_, ?_⟩
    · rw [h.steps]
      exact mem_append_right _ (mem_append_left _ hstep)
    · rcases hall step hstep with hdone | ⟨-, hreceipt⟩
      · rw [not_held_of_done hdone] at hheld
        cases hheld
      · rw [hreceipt]
        rfl
  have hrunning : ((plan.steps.map (PlanStep.settledBy o p)).any fun s => s.status = .running)
      = false := by
    rw [h.settled_steps, any_eq_false]
    intro s hs hstatus
    rw [decide_eq_true_eq] at hstatus
    rcases mem_append.mp hs with hs | hs
    · exact (not_running_of_done (h.done s hs)).1 hstatus
    · rcases mem_append.mp hs with hs | hs
      · obtain ⟨step, hstep, rfl⟩ := mem_map.mp hs
        exact (not_running_of_done (hall step hstep).settled).1 hstatus
      · exact (h.rest s hs).1 hstatus
  refine ⟨mid.foldl (settle o p call .recovered) plan, ?_, ?_, ?_⟩
  · rw [eval_recoverPlan ho h.active, if_pos hany, if_neg fun hf =>
      hnone ((h.failed_iff hreceipts).mp hf), hrunning, hsettled]
    rfl
  · rw [settleAll_status]
    exact h.active
  · -- both loops settle or pass `mid`, and go on with `after`
    have hsteps := @settleAll_steps o p call _ _ _ .recovered mid h.steps
    have hplain : (mid.foldl (settle o p call .recovered) plan).collaborative = false := by
      rw [collaborative_congr (keys_settleAll _ _)]
      exact h.plain
    rw [settleAll_index, h.index, stepsFrom_eq hsteps, stepsFrom_eq h.steps,
      driveSteps_settles ho hr _ _ hsteps hplain fun s hs => ?_,
      driveSteps_settles ho hr _ _ h.steps h.plain hall,
      settleAll_of_not_held fun s hs => ?_, settleAll_found hall, length_map]
    · obtain ⟨step, hstep, rfl⟩ := mem_map.mp hs
      exact not_held_of_done (hall step hstep).settled
    · obtain ⟨step, hstep, rfl⟩ := mem_map.mp hs
      exact .inl (hall step hstep).settled

/-- **Where a held step has no completed receipt, both calls stop**, and leave the plan, and
    the steps the resumption polled, in the same status. -/
theorem Holds.stops (ho : Consumed o) (hr : Renewed o p cfg) (h : Holds plan before mid after)
    (hreceipts : Receipts o p mid) (hunseen : plan.Unseen call) {passed later : List PlanStep}
    (hmid : mid = passed ++ step :: later) (hpassed : ∀ s ∈ passed, Passes o p s)
    (hheld : step.held = true) (hreceipt : receiptOf o p step ≠ some .completed) :
    ∃ resumed recovered,
      eval o (driveSteps cfg call p (stepsFrom plan plan.current_step_index)) plan
        = (.ok .stopped, resumed) ∧
      eval o (recoverPlan call p) plan = (.ok false, recovered) ∧
      resumed.status = recovered.status ∧
      ∀ id, .polled call id ∈ resumed.history →
        (resumed.getStep id).map PlanStep.status = (recovered.getStep id).map PlanStep.status := by
  have hmem : step ∈ mid := by
    rw [hmid]
    simp
  have hsplit : plan.steps = before ++ (passed ++ (step :: (later ++ after))) := by
    rw [h.steps, hmid, append_assoc]
    rfl
  have hplain : (passed.foldl (settle o p call .settled) plan).collaborative = false := by
    rw [collaborative_congr (keys_settleAll _ _)]
    exact h.plain
  have hpassedSteps := @settleAll_steps o p call _ _ _ .settled passed hsplit
  rw [← append_assoc] at hpassedSteps
  have hrequired : receiptOf o p step ≠ none → step.optional = false := by
    intro hsome
    cases hstatus : receiptOf o p step with
    | none => exact absurd hstatus hsome
    | some status =>
      exact hreceipts.required step hmem ⟨status, hstatus, fun heq => hreceipt (heq ▸ hstatus)⟩
  -- the resumption stops at the step
  have hresume : eval o (driveSteps cfg call p (stepsFrom plan plan.current_step_index)) plan
      = (.ok .stopped, if receiptOf o p step = none then
          (passed.foldl (settle o p call .settled) plan).settle o p call .settled step
        else ((passed.foldl (settle o p call .settled) plan).settle o p call .settled
          step).setStatus .failed) := by
    rw [h.index, stepsFrom_eq h.steps, hmid, zipIdx_append, append_assoc,
      driveSteps_settles ho hr passed _ hsplit h.plain hpassed, zipIdx_cons, cons_append]
    exact driveSteps_stops ho hr _ hpassedSteps hplain hheld hreceipt hrequired
  -- the steps it polled are as their receipts leave them, in both plans
  have hfold : (passed.foldl (settle o p call .settled) plan).settle o p call .settled step
      = (passed ++ [step]).foldl (settle o p call .settled) plan := by
    rw [foldl_append]
    rfl
  rw [hfold] at hresume
  set resumed := (passed ++ [step]).foldl (settle o p call .settled) plan
  set recovered := plan.steps.foldl (settle o p call .recovered) plan
  have hsame : ∀ id, .polled call id ∈ resumed.history →
      resumed.getStep id = recovered.getStep id := by
    intro id hpolled
    have hsplit' : plan.steps = before ++ ((passed ++ [step]) ++ (later ++ after)) := by
      rw [hsplit, append_assoc]
      rfl
    have hleft : resumed.steps = _ :=
      @settleAll_steps o p call _ _ _ .settled (passed ++ [step]) hsplit'
    have hright : recovered.steps = _ := @settleAll_all o p call plan .recovered
    rcases polled_settle hpolled with hold | ⟨s, hs, rfl⟩
    · exact absurd rfl (hunseen _ hold)
    · have hmap := mem_map_of_mem (f := PlanStep.settledBy o p) hs
      have hin : s ∈ plan.steps := by
        rw [hsplit']
        exact mem_append_right _ (mem_append_left _ hs)
      have hone := @getStep_of_mem resumed (s.settledBy o p) (by
        rw [hleft]
        exact mem_append_right _ (mem_append_left _ hmap))
      have htwo := @getStep_of_mem recovered (s.settledBy o p) (by
        rw [hright]
        exact mem_map_of_mem hin)
      rw [settledBy_id] at hone htwo
      rw [hone, htwo]
  have hstatus : ∀ (found : Found) (l : List PlanStep),
      (l.foldl (settle o p call found) plan).status = .active := by
    intro found l
    rw [settleAll_status]
    exact h.active
  have hrecover := @eval_recoverPlan o p call plan ho h.active
  cases hfound : receiptOf o p step with
  | none =>
    rw [hfound, if_pos rfl] at hresume
    have hnone : ¬ ∃ s ∈ mid, Refused o p s := by
      rintro ⟨s, hs, hrefused⟩
      have hordered := hreceipts.ordered
      rw [hmid] at hs hordered
      rcases mem_append.mp hs with hs | hs
      · exact (hpassed s hs).not_refused hrefused
      · rcases mem_cons.mp hs with rfl | hs
        · obtain ⟨status, hsome, -⟩ := hrefused
          rw [hfound] at hsome
          cases hsome
        · have hlater := (pairwise_cons.mp (pairwise_append.mp hordered).2.1).1
          exact hlater s hs hheld hfound hrefused
    have hrunning : ((plan.steps.map (PlanStep.settledBy o p)).any fun s => s.status = .running)
        = true := by
      rw [any_eq_true]
      refine ⟨step, mem_map.mpr ⟨step, ?_, settledBy_of_none hfound⟩, ?_⟩
      · rw [hsplit]
        simp
      · rw [decide_eq_true_eq]
        exact (held_eq step hheld).1
    refine ⟨_, recovered, hresume, ?_, ?_, ?_⟩
    · rw [hrecover, if_neg fun hf => hnone ((h.failed_iff hreceipts).mp hf), hrunning]
      split <;> rfl
    · rw [hstatus, hstatus]
    · intro id hpolled
      rw [hsame id hpolled]
  | some status =>
    rw [hfound, if_neg nofun] at hresume
    have hrefused : ∃ s ∈ mid, Refused o p s :=
      ⟨step, hmem, status, hfound, fun heq => hreceipt (heq ▸ hfound)⟩
    have hany : (plan.steps.any fun s => (receiptOf o p s).isSome) = true := by
      rw [any_eq_true]
      refine ⟨step, ?_, by rw [hfound]; rfl⟩
      rw [hsplit]
      simp
    refine ⟨_, recovered.setStatus .failed, hresume, ?_, rfl, ?_⟩
    · rw [hrecover, if_pos hany, if_pos ((h.failed_iff hreceipts).mpr hrefused)]
    · intro id hpolled
      exact congrArg (Option.map PlanStep.status) (hsame id hpolled)

/-! ## §5. A driver that returns -/

/-- The task does not throw. -/
abbrev Returns (o : ∀ r, Resp r) {α : Type} (x : PlanTask α) : Prop :=
  Task.Yields o x (fun _ => True) (fun _ _ => True) fun _ _ => False

section

variable {α β : Type}

theorem Returns.bind {x : PlanTask α} {g : α → PlanTask β} (hx : Returns o x)
    (hg : ∀ a, Returns o (g a)) : Returns o (x >>= g) :=
  Task.Yields.bind hx hg

theorem Returns.pure {a : α} : Returns o (Pure.pure a : PlanTask α) :=
  Task.Yields.pure fun _ _ => trivial

theorem Returns.modify {f : Plan → Plan} : Returns o (modify f) :=
  Task.Yields.modify fun _ _ => trivial

theorem Returns.read {g : Plan → α} : Returns o (read g : PlanTask α) :=
  Task.Yields.read fun _ _ => trivial

theorem Returns.ask {r : Req} : Returns o (ask r : PlanTask (Resp r)) :=
  Task.Yields.ask fun _ _ => trivial

theorem emit_returns (ho : Consumed o) {step_id : Option Nat} {c : PlanChunk} :
    Returns o (emit p step_id c) := by
  intro plan _
  rw [eval_emit ho]
  trivial

theorem failStep_returns (ho : Consumed o) {found : List Event} :
    Returns o (failStep p step found) := by
  refine .bind Returns.modify fun _ => .bind (emit_returns ho) fun _ => ?_
  split
  · exact .bind Returns.modify fun _ => .pure
  · refine .bind Returns.modify fun _ => .bind (emit_returns ho) fun _ => ?_
    exact .pure

theorem completeHeld_returns (ho : Consumed o) : Returns o (completeHeld p step) := by
  refine .bind Returns.modify fun _ => .bind (emit_returns ho) fun _ => ?_
  exact emit_returns ho

theorem pollHeld_returns : Returns o (pollHeld cfg call p step) := by
  unfold pollHeld
  split
  · split
    · refine .bind Returns.ask fun answer => .bind Returns.modify fun _ => ?_
      split <;> exact .pure
    · exact .pure
  · exact .pure

variable {now : Int}

section

variable (ho : Consumed o)
include ho

theorem settleHeldStep_returns : Returns o (settleHeldStep cfg call p step now) := by
  unfold settleHeldStep
  split
  · exact .pure
  · refine .bind pollHeld_returns fun result => ?_
    split
    · exact .bind (emit_returns ho) fun _ => .pure
    · exact .bind (completeHeld_returns ho) fun _ => .pure
    · exact .bind (failStep_returns ho) fun _ => .pure

theorem startStep_returns {started : Int} : Returns o (startStep p step i started) :=
  Returns.bind Returns.modify fun _ => emit_returns ho

theorem delegate_returns : Returns o (delegate call p step i now) := by
  have hcallbacks : ∀ l : List Callback, Returns o (forEach (fun (c : Callback) =>
      modify fun plan => plan.updateStep step.step_id c.update) l) := by
    intro l
    induction l with
    | nil => exact .pure
    | cons c l ih => exact .bind Returns.modify fun _ => ih
  refine .bind (startStep_returns ho) fun _ => .bind Returns.modify fun _ => ?_
  refine .bind Returns.ask fun answer => .bind (hcallbacks _) fun _ => ?_
  split
  · exact .bind (completeHeld_returns ho) fun _ => .pure
  · exact .bind (emit_returns ho) fun _ => .pure
  · exact .bind (failStep_returns ho) fun _ => .pure

theorem attempts_returns (tries : List Nat) : Returns o (attempts p step i now tries) := by
  induction tries with
  | nil => exact .pure
  | cons attempt rest ih =>
    refine .bind (startStep_returns ho) fun _ => ?_
    -- the turn is consumed to its end
    refine Task.Yields.bind (Q := fun answer _ => answer ≠ TurnAnswer.returned)
      (Task.Yields.ask fun _ _ => ho.turn p step.step_id attempt) fun answer => ?_
    cases (answer : TurnAnswer) with
    | finished =>
      exact .mono (Returns.bind Returns.modify fun _ =>
        Returns.bind (emit_returns ho) fun _ => .pure) (fun _ _ => trivial)
        (fun _ _ h => h) fun _ _ h => h
    | suspended => exact .pure fun _ _ => trivial
    | threw => exact .mono ih (fun _ _ => trivial) (fun _ _ h => h) fun _ _ h => h
    | returned => exact fun _ h => absurd rfl h

theorem runLocally_returns : Returns o (runLocally cfg p step i now) := by
  refine .bind (attempts_returns ho _) fun tried => ?_
  split
  · exact .pure
  · refine .bind Returns.modify fun _ => .bind (emit_returns ho) fun _ => ?_
    split
    · exact .bind Returns.modify fun _ => .pure
    · exact .bind Returns.modify fun _ => .pure

theorem driveOpen_returns : Returns o (driveOpen cfg call p step i now) := by
  refine .bind Returns.read fun met => ?_
  split
  · split
    · exact runLocally_returns ho
    · split
      · exact .bind (failStep_returns ho) fun _ => .pure
      · exact delegate_returns ho
  · split
    · exact .bind Returns.modify fun _ => .pure
    · refine .bind Returns.modify fun _ => .bind (emit_returns ho) fun _ => ?_
      exact .pure

theorem visit_returns : Returns o (visit cfg call p step i) := by
  refine .bind Returns.read fun current => .bind Returns.ask fun lease => ?_
  split
  · exact .bind (emit_returns ho) fun _ => .pure
  · split
    · exact .pure
    · split
      · exact .pure
      · split
        · refine .bind (settleHeldStep_returns ho) fun settled => ?_
          cases settled with
          | completed | skipped => exact .pure
          | resubmit => exact driveOpen_returns ho
          | failed | held => exact .pure
        · exact driveOpen_returns ho

end

theorem driveSteps_returns (ho : Consumed o) (l : List (PlanStep × Nat)) :
    Returns o (driveSteps cfg call p l) := by
  induction l with
  | nil =>
    refine .bind Returns.modify fun _ => .bind (emit_returns ho) fun _ => ?_
    exact .pure
  | cons head rest ih =>
    refine .bind (visit_returns ho) fun visited => ?_
    cases visited with
    | next => exact ih
    | stop => exact .pure

theorem recoverPlan_returns (ho : Consumed o) : Returns o (recoverPlan call p) := by
  have hsteps : ∀ l, Returns o (recoverSteps call p l) := by
    intro l plan _
    rw [eval_recoverSteps ho]
    trivial
  refine .bind Returns.read fun plan => ?_
  split
  · exact .pure
  · refine .bind (hsteps _) fun found => ?_
    split
    · refine .bind Returns.read fun updated => ?_
      split
      · refine .bind Returns.modify fun _ => .bind (emit_returns ho) fun _ => ?_
        exact .pure
      · exact .pure
    · exact .pure

end

/-! ## §6. The calls, on one plan and on others -/

structure Stands (p : Nat) (plan : Plan) (d : Option Nat) (s : PlanStore) : Prop where
  known : p < s.next
  plan : s.plans p = plan
  lock : s.driver p = d

abbrev Leaves (o : ∀ r, Resp r) (p : Nat) (plan : Plan) (d : Option Nat) {α : Type}
    (x : EngineTask α) : Prop :=
  Task.Yields o x (Stands p plan d) (fun _ => Stands p plan d) fun _ _ => False

variable {d : Option Nat} {q : Nat} {ctx : Bool}

theorem ask_leaves {r : Req} : Leaves o p plan d (ask r : EngineTask (Resp r)) :=
  Task.Yields.ask fun _ h => h

theorem read_leaves {α : Type} {g : PlanStore → α} : Leaves o p plan d (read g : EngineTask α) :=
  Task.Yields.read fun _ h => h

theorem emitAlone_yields (ho : Consumed o) {step_id : Option Nat} {c : PlanChunk}
    {L : PlanStore → Prop} :
    Task.Yields o (emitAlone q step_id c) L (fun _ => L) fun _ _ => False := by
  intro s hl
  have hask : eval o (emitAlone q step_id c) s
      = eval o (if goesOn o q step_id c = true then pure () else throw .returned) s := rfl
  rw [hask, ho.chunk, if_pos rfl]
  exact hl

theorem Stands.update_lock (h : Stands p plan d s) (hq : p ≠ q) (e : Option Nat) :
    Stands p plan d { s with driver := Function.update s.driver q e } := by
  refine ⟨h.known, h.plan, ?_⟩
  show Function.update s.driver q e p = d
  rw [update_of_ne hq]
  exact h.lock

theorem Stands.put_other (h : Stands p plan d s) (hq : p ≠ q) (v : Plan) :
    Stands p plan d ((planPart q).put v s) := by
  refine ⟨h.known, ?_, h.lock⟩
  show Function.update s.plans q v p = plan
  rw [update_of_ne hq]
  exact h.plan

theorem acquireDriver_leaves (hq : p ≠ q) : Leaves o p plan d (acquireDriver call q) := by
  refine .bind (Q := fun _ => Stands p plan d) (Task.Yields.act fun s h => ?_) fun free => ?_
  · split
    · exact h.update_lock hq _
    · exact h
  · split
    · refine .bind ask_leaves fun lease => ?_
      split
      · exact .pure fun _ h => h
      · refine .bind (Q := fun _ => Stands p plan d)
          (Task.Yields.modify fun s h => h.update_lock hq _) fun _ => ?_
        exact .pure fun _ h => h
    · exact .pure fun _ h => h

variable {body : EngineTask Unit}

theorem locked_leaves (ho : Consumed o) (hq : p ≠ q) (hbody : Leaves o p plan d body) :
    Leaves o p plan d (do
      let driving ← acquireDriver call q
      if driving = true then andFinally body (release q) else emitAlone q none .plan_busy) := by
  refine .bind (acquireDriver_leaves hq) fun driving => ?_
  split
  · exact .andFinally hbody (fun _ s h => h.update_lock hq _) fun _ _ h => h
  · exact emitAlone_yields ho

theorem on_leaves {α : Type} (hq : p ≠ q) {x : PlanTask α} (hx : Returns o x) :
    Leaves o p plan d (x.on (planPart q)) :=
  Task.Yields.on hx (fun _ _ => trivial) (fun _ _ v h _ => h.put_other hq v) fun _ _ _ _ h => h

theorem createPlan_yields {goal_id motebit_id : String} {retry : Nat} :
    Task.Yields o (createPlan cfg goal_id motebit_id retry) (Stands p plan d)
      (fun created s => Stands p plan d s ∧ p ≠ created.1)
      fun e s => e = .thrown ∧ Stands p plan d s := by
  refine .bind (Q := fun _ => Stands p plan d) (Task.Yields.read fun s h => h) fun refused => ?_
  split
  · exact .throw fun _ h => ⟨rfl, h⟩
  · refine .bind (Q := fun _ => Stands p plan d) (Task.Yields.ask fun s h => h) fun answer => ?_
    split
    · exact .throw fun _ h => ⟨rfl, h⟩
    · refine .act fun s h => ⟨⟨Nat.lt_succ_of_lt h.known, ?_, h.lock⟩, ?_⟩
      · show Function.update s.plans s.next _ p = plan
        rw [update_of_ne (Nat.ne_of_lt h.known)]
        exact h.plan
      · exact Nat.ne_of_lt h.known

variable {snapshot : Plan}

theorem afterSteps_leaves (ho : Consumed o) {n : Nat} {drive : Option (Nat → EngineTask Unit)}
    (hdrive : ∀ run, drive = some run → ∀ child, p ≠ child → Leaves o p plan d (run child))
    (ended : Ended) : Leaves o p plan d (afterSteps cfg q snapshot n drive ended) := by
  cases ended with
  | stopped => exact .pure fun _ h => h
  | finished =>
    unfold afterSteps
    dsimp only
    split
    · refine .bind ask_leaves fun _ => ?_
      exact emitAlone_yields ho
    · exact .pure fun _ h => h
  | retryable =>
    refine .bind (Q := fun _ => Stands p plan d) ?_ fun replaced => ?_
    · cases drive with
      | none => exact .pure fun _ h => h
      | some run =>
        refine .catching (E := fun e s => e = .thrown ∧ Stands p plan d s) ?_ fun e => ?_
        · refine .bind createPlan_yields fun created => ?_
          intro s h
          refine Task.Yields.mono (L := Stands p plan d) (E := fun _ _ => False) ?_ (fun _ h => h)
            (fun _ _ h => h) (fun _ _ h => h.elim) s h.1
          refine Task.Yields.bind (emitAlone_yields ho) fun _ => ?_
          refine .bind (Q := fun _ => Stands p plan d) ?_ fun _ => ?_
          · unfold emitTruncated
            split
            · exact emitAlone_yields ho
            · exact .pure fun _ h => h
          · refine .bind (hdrive run rfl created.1 h.2) fun _ => ?_
            exact .pure fun _ h => h
        · cases e with
          | returned => exact .throw fun _ h => by cases h.1
          | thrown => exact .pure fun _ h => h.2
    · split
      · exact .pure fun _ h => h
      · exact emitAlone_yields ho

theorem driveNew_leaves (ho : Consumed o) {run : Nat → Plan → EngineTask Unit}
    (hrun : ∀ child new, p ≠ child → Leaves o p plan d (run child new)) {child : Nat}
    (hchild : p ≠ child) : Leaves o p plan d (driveNew call run child) := by
  refine .bind read_leaves fun new => ?_
  refine .bind (emitAlone_yields ho) fun _ => ?_
  exact locked_leaves ho hchild (hrun child new hchild)

/-- **The driving of other plans leaves the plan alone.** -/
theorem runSteps_leaves (ho : Consumed o) (n : Nat) {start : Nat} (hq : p ≠ q) :
    Leaves o p plan d (runSteps cfg call ctx n q snapshot start) := by
  induction n generalizing q snapshot start with
  | zero =>
    refine .bind (on_leaves hq (driveSteps_returns ho _)) fun ended => ?_
    exact afterSteps_leaves ho (fun _ h => by cases h) ended
  | succ n ih =>
    refine .bind (on_leaves hq (driveSteps_returns ho _)) fun ended => ?_
    refine afterSteps_leaves ho (fun run hrun child hchild => ?_) ended
    cases ctx with
    | false => cases hrun
    | true =>
      cases hrun
      exact driveNew_leaves ho (fun _ _ hne => ih hne) hchild

/-- **`runSteps` of the plan**: what its loop leaves. -/
theorem runSteps_yields (ho : Consumed o) (n : Nat) {start : Nat} :
    Task.Yields o (runSteps cfg call ctx n p snapshot start) (Stands p plan d)
      (fun _ => Stands p (eval o (driveSteps cfg call p (stepsFrom snapshot start)) plan).2 d)
      fun _ _ => False := by
  have hloop : Task.Yields o ((driveSteps cfg call p (stepsFrom snapshot start)).on (planPart p))
      (Stands p plan d)
      (fun _ => Stands p (eval o (driveSteps cfg call p (stepsFrom snapshot start)) plan).2 d)
      fun _ _ => False := by
    intro s h
    have hret := @driveSteps_returns o p call cfg ho (stepsFrom snapshot start) plan trivial
    rw [eval_on]
    rw [show (planPart p).get s = plan from h.plan]
    cases hev : eval o (driveSteps cfg call p (stepsFrom snapshot start)) plan with
    | mk r v =>
      rw [hev] at hret
      cases r with
      | error => exact hret.elim
      | ok =>
        refine ⟨h.known, ?_, h.lock⟩
        show Function.update s.plans p v p = v
        rw [update_self]
  cases n with
  | zero =>
    refine .bind hloop fun ended => ?_
    exact afterSteps_leaves ho (fun _ h => by cases h) ended
  | succ n =>
    refine .bind hloop fun ended => ?_
    refine afterSteps_leaves ho (fun run hrun child hchild => ?_) ended
    cases ctx with
    | false => cases hrun
    | true =>
      cases hrun
      exact driveNew_leaves ho (fun _ _ hne => runSteps_leaves ho n hne) hchild

def resumedPlan (o : ∀ r, Resp r) (cfg : PlanEngineConfig) (call p : Nat) (plan : Plan) : Plan :=
  if plan.status = .active then
    (Task.eval o (driveSteps cfg call p (stepsFrom plan plan.current_step_index)) plan).2
  else plan

def recoveredPlan (o : ∀ r, Resp r) (cfg : PlanEngineConfig) (call p : Nat) (plan : Plan) : Plan :=
  match Task.eval o (recoverPlan call p) plan with
  | (.ok true, plan') => resumedPlan o cfg call p plan'
  | (_, plan') => plan'

theorem resumeLeased_yields (ho : Consumed o) :
    Task.Yields o (resumeLeased cfg call p ctx) (Stands p plan d)
      (fun _ => Stands p (resumedPlan o cfg call p plan) d) fun _ _ => False := by
  intro s h
  have hread : eval o (resumeLeased cfg call p ctx) s
      = eval o (if (s.plans p).status = .active then
          runSteps cfg call ctx cfg.maxPlanRetries p (s.plans p) (s.plans p).current_step_index
        else pure ()) s := rfl
  rw [hread, h.plan]
  unfold resumedPlan
  by_cases hactive : plan.status = .active
  · rw [if_pos hactive]
    simp only [if_pos hactive]
    exact runSteps_yields ho _ s h
  · rw [if_neg hactive]
    simp only [if_neg hactive]
    exact h

theorem recoverLeasedPlan_yields (ho : Consumed o) :
    Task.Yields o (recoverLeasedPlan cfg call p) (Stands p plan d)
      (fun _ => Stands p (recoveredPlan o cfg call p plan) d) fun _ _ => False := by
  unfold recoverLeasedPlan recoveredPlan
  have hreturns := @recoverPlan_returns o p call ho plan trivial
  cases heval : eval o (recoverPlan call p) plan with
  | mk r plan' =>
    rw [heval] at hreturns
    cases r with
    | error => exact hreturns.elim
    | ok resumes =>
      have hon : Task.Yields o ((recoverPlan call p).on (planPart p)) (Stands p plan d)
          (fun answer s => answer = resumes ∧ Stands p plan' d s) fun _ _ => False := by
        intro s h
        rw [eval_on, show (planPart p).get s = plan from h.plan, heval]
        refine ⟨rfl, h.known, ?_, h.lock⟩
        show Function.update s.plans p plan' p = plan'
        rw [update_self]
      refine .bind hon fun answer => ?_
      rintro s ⟨rfl, h⟩
      cases answer with
      | true =>
        exact resumeLeased_yields ho s h
      | false => exact h

/-- **What is done to the plan under its lock**, which a persisted lease may refuse. -/
theorem locked_yields (ho : Consumed o)
    (hbody : Task.Yields o body (Stands p plan (some call)) (fun _ => Stands p plan' (some call))
      fun _ _ => False) :
    Task.Yields o (do
        let driving ← acquireDriver call p
        if driving = true then andFinally body (release p) else emitAlone p none .plan_busy)
      (Stands p plan none)
      (fun _ => Stands p (if (leaseAnswer o p none).1 = true then plan' else plan) none)
      fun _ _ => False := by
  have hacquire : Task.Yields o (acquireDriver call p) (Stands p plan none)
      (fun driving s => driving = (leaseAnswer o p none).1 ∧
        Stands p plan (if driving = true then some call else none) s) fun _ _ => False := by
    refine .bind (Q := fun free s => free = true ∧ Stands p plan (some call) s)
      (Task.Yields.act fun s h => ?_) fun free => ?_
    · rw [h.lock, if_pos rfl]
      exact ⟨rfl, h.known, h.plan, update_self ..⟩
    · rintro s ⟨rfl, h⟩
      refine Task.Yields.bind (Q := fun lease s => lease = leaseAnswer o p none ∧
        Stands p plan (some call) s) (Task.Yields.ask fun s h => ⟨rfl, h⟩) (fun lease => ?_) s h
      rintro s ⟨rfl, h⟩
      cases hlease : (leaseAnswer o p none).1 with
      | true =>
        exact ⟨rfl, h⟩
      | false =>
        exact ⟨rfl, h.known, h.plan, update_self ..⟩
  refine .bind hacquire fun driving => ?_
  rintro s ⟨hdriving, h⟩
  rw [← hdriving]
  cases driving with
  | true =>
    refine Task.Yields.andFinally hbody (fun _ s h => ?_) (fun _ _ h => h) s h
    exact ⟨h.known, h.plan, update_self ..⟩
  | false => exact emitAlone_yields ho s h

theorem recoverPlans_yields (ho : Consumed o) (plans : List Nat) (hnodup : plans.Nodup) :
    Task.Yields o (forEach (fun plan_id => do
        let driving ← acquireDriver call plan_id
        if driving = true then
          andFinally (recoverLeasedPlan cfg call plan_id) (release plan_id)
        else emitAlone plan_id none .plan_busy) plans)
      (Stands p plan none)
      (fun _ => Stands p (if p ∈ plans ∧ (leaseAnswer o p none).1 = true then
        recoveredPlan o cfg call p plan else plan) none) fun _ _ => False := by
  induction plans generalizing plan with
  | nil => exact .pure fun s h => h
  | cons q rest ih =>
    obtain ⟨hq, hrest⟩ := nodup_cons.mp hnodup
    by_cases hpq : p = q
    · subst hpq
      refine .bind (locked_yields ho (recoverLeasedPlan_yields ho)) fun _ => ?_
      refine .mono (ih hrest) (fun _ h => h) (fun _ s h => ?_) fun _ _ h => h
      rw [if_neg fun hin => hq hin.1] at h
      simpa using h
    · have hother : Leaves o p plan none (recoverLeasedPlan cfg call q) := by
        refine .bind (on_leaves hpq (recoverPlan_returns ho)) fun resumes => ?_
        split
        · unfold resumeLeased
          refine .bind read_leaves fun snapshot => ?_
          split
          · exact runSteps_leaves ho _ hpq
          · exact .pure fun _ h => h
        · exact .pure fun _ h => h
      refine .bind (locked_leaves ho hpq hother) fun _ => ?_
      refine .mono (ih hrest) (fun _ h => h) (fun _ s h => ?_) fun _ _ h => h
      simpa [mem_cons, hpq] using h

theorem Stands.of_yields {x : EngineTask Unit} {e : Option Nat}
    (h : Task.Yields o x (Stands p plan d) (fun _ => Stands p plan' e) fun _ _ => False)
    (hs : Stands p plan d s) : (eval o x s).2.plans p = plan' := by
  have hend := h s hs
  cases heval : eval o x s with
  | mk r =>
    rw [heval] at hend
    cases r with
    | ok => exact hend.plan
    | error => exact hend.elim

theorem eval_resumePlan (s : PlanStore) :
    eval o (resumePlan cfg call p ctx) s = eval o (match s.getPlan p with
      | none => throw .thrown
      | some plan =>
        if plan.status ≠ .active then throw .thrown
        else do
          let driving ← acquireDriver call p
          if driving = true then
            andFinally (resumeLeased cfg call p ctx) (release p)
          else emitAlone p none .plan_busy) s := rfl

theorem resumePlan_yields (ho : Consumed o) (hactive : plan.status = .active) :
    Task.Yields o (resumePlan cfg call p ctx) (Stands p plan none) (fun _ => Stands p
        (if (leaseAnswer o p none).1 = true then resumedPlan o cfg call p plan else plan) none)
      fun _ _ => False := by
  intro s h
  have hread : eval o (resumePlan cfg call p ctx) s
      = eval o (do
          let driving ← acquireDriver call p
          if driving = true then
            andFinally (resumeLeased cfg call p ctx) (release p)
          else emitAlone p none .plan_busy) s := by
    have hfound : s.getPlan p = some plan := by
      unfold PlanStore.getPlan
      rw [if_pos h.known, h.plan]
    rw [eval_resumePlan, hfound]
    dsimp only
    rw [if_neg fun hne => hne hactive]
  rw [hread]
  exact locked_yields ho (resumeLeased_yields ho) s h

/-- A recovery of the plans of the device that holds an active plan which no call drives. -/
theorem recoverDelegatedSteps_yields (ho : Consumed o) (hr : Renewed o p cfg)
    (hlist : cfg.listActivePlans = true) (hactive : plan.status = .active) :
    Task.Yields o (recoverDelegatedSteps cfg call plan.motebit_id) (Stands p plan none)
      (fun _ => Stands p
        (if (leaseAnswer o p none).1 = true then recoveredPlan o cfg call p plan else plan) none)
      fun _ _ => False := by
  intro s h
  have hmem : p ∈ s.listActivePlans plan.motebit_id := by
    unfold PlanStore.listActivePlans
    rw [mem_filter, List.mem_range, h.plan, hactive]
    exact ⟨h.known, by simp⟩
  have hnodup : (s.listActivePlans plan.motebit_id).Nodup := nodup_range.filter _
  have hloop := @recoverPlans_yields o p call cfg plan ho _ hnodup s h
  unfold recoverDelegatedSteps
  rw [hr.polls, hlist, if_pos (by decide)]
  simp only [hmem, true_and] at hloop
  exact hloop

/-- Both calls, over one store against the same answers, leave a plan, and every step of it the
    resumption polled, in the same status. -/
def SettledAlike (o : ∀ r, Resp r) (cfg : PlanEngineConfig) (call p : Nat) (ctx : Bool)
    (s : PlanStore) : Prop :=
  let resumed := (Task.eval o (resumePlan cfg call p ctx) s).2.plans p
  let recovered := (Task.eval o (recoverDelegatedSteps cfg call (s.plans p).motebit_id) s).2.plans p
  resumed.status = recovered.status ∧
    ∀ id, .polled call id ∈ resumed.history →
      (resumed.getStep id).map PlanStep.status = (recovered.getStep id).map PlanStep.status

/-- **Recovery and resumption agree** on a plan that holds. -/
theorem recovery_agrees (ho : Consumed o) (hr : Renewed o p cfg)
    (hlist : cfg.listActivePlans = true) (hknown : p < s.next) (hfree : s.driver p = none)
    (hholds : Holds (s.plans p) before mid after) (hreceipts : Receipts o p mid)
    (hunseen : (s.plans p).Unseen call) : SettledAlike o cfg call p ctx s := by
  have hstands : Stands p (s.plans p) none s := ⟨hknown, rfl, hfree⟩
  have hresumed := Stands.of_yields (@resumePlan_yields o p call cfg (s.plans p) ctx ho hholds.active)
    hstands
  have hrecovered := Stands.of_yields
    (@recoverDelegatedSteps_yields o p call cfg (s.plans p) ho hr hlist hholds.active) hstands
  unfold SettledAlike
  rw [hresumed, hrecovered]
  by_cases hlease : (leaseAnswer o p none).1 = true
  · rw [if_pos hlease, if_pos hlease]
    unfold resumedPlan
    rw [if_pos hholds.active]
    rcases @Holds.cases_mid o p mid hholds.waiting with hall |
      ⟨passed, step, later, hmid, hpassed, hheld, hreceipt⟩
    · obtain ⟨plan', heval, hactive, hsame⟩ := @Holds.drives_on o p call cfg _ _ _ _ ho hr hholds hall
      have hrecover : recoveredPlan o cfg call p (s.plans p)
          = (eval o (driveSteps cfg call p (stepsFrom (s.plans p)
              (s.plans p).current_step_index)) (s.plans p)).2 := by
        unfold recoveredPlan
        rw [heval]
        show resumedPlan o cfg call p plan' = _
        unfold resumedPlan
        rw [if_pos hactive, hsame]
      rw [hrecover]
      exact ⟨rfl, fun _ _ => rfl⟩
    · obtain ⟨resumed, recovered, heval, hrecover, hstatus, hsteps⟩ :=
        hholds.stops ho hr hreceipts hunseen hmid hpassed hheld hreceipt
      have hleft : recoveredPlan o cfg call p (s.plans p) = recovered := by
        unfold recoveredPlan
        rw [hrecover]
      rw [hleft, heval]
      exact ⟨hstatus, hsteps⟩
  · rw [if_neg hlease, if_neg hlease]
    exact ⟨rfl, fun _ _ => rfl⟩

/-! ## §7. Concrete stores -/

/-- Answers that grant every lease and find the given receipts. -/
def answers (receipts : Nat → PollAnswer) : ∀ r, Resp r
  | .lease _ _ => (true, (0 : Int))
  | .chunk _ _ _ => true
  | .poll _ _ step_id => receipts step_id
  | .delegate _ _ => (([] : List Callback), DelegateOutcome.undetermined)
  | .turn _ _ _ => TurnAnswer.finished
  | .decompose _ _ _ => (none : Option (Int × List RawStep))
  | .reflect _ => ()

/-- A device with an adapter that polls. -/
def polling : PlanEngineConfig where
  delegationAdapter := some ⟨true, false⟩
  localMotebitId := some "self"

def storeOf (steps : List PlanStep) (distinct : (steps.map PlanStep.step_id).Nodup) :
    PlanStore where
  plans _ := ⟨"goal", "self", .active, 0, 0, steps, distinct, []⟩
  next := 1
  driver _ := none

def heldStep (step_id : Nat) (optional : Bool) : PlanStep :=
  ⟨step_id, step_id, optional, ["browser"], none, .running, some "task", some 0⟩

def peersStep : PlanStep := ⟨0, 0, false, [], some "peer", .pending, none, none⟩

def twoHeld : PlanStore := storeOf [heldStep 0 false, heldStep 1 false] (by decide)

def optionalHeld : PlanStore := storeOf [heldStep 0 true, heldStep 1 false] (by decide)

def peers : PlanStore := storeOf [peersStep] (by decide)

/-- Of two held steps the second one's receipt is a failed one. -/
def secondFailed : Nat → PollAnswer
  | 0 => .missing
  | _ => .receipt .failed

/-- Of two held steps the first one's receipt is a failed one. -/
def firstFailed : Nat → PollAnswer
  | 0 => .receipt .failed
  | _ => .receipt .completed

/-- **The engine settles held steps in one way and completes a plan only when its steps are
    done.**  On a plan that holds, recovery and resumption agree; no call delegates again a step
    it found refused, but for an optional one in a recovery; a plan none of whose steps is
    assigned to a participant is completed with all of them done. -/
theorem held_steps_settle :
    (∀ (o : ∀ r, Resp r) (cfg : PlanEngineConfig) (call p : Nat) (ctx : Bool) (s : PlanStore)
        (before mid after : List PlanStep),
      Consumed o → Renewed o p cfg → cfg.listActivePlans = true → p < s.next →
      s.driver p = none → Holds (s.plans p) before mid after → Receipts o p mid →
      (s.plans p).Unseen call → SettledAlike o cfg call p ctx s) ∧
    (∀ (c : Config PlanStore Req Resp) (p : Nat), engineWorld.Reachable c →
      (c.store.plans p).collaborative = false → Orderly (c.store.plans p).history) ∧
    (∀ (c c' : Config PlanStore Req Resp) (p : Nat), engineWorld.Reachable c →
      engineWorld.Step c c' → (c'.store.plans p).collaborative = false →
      (c.store.plans p).status ≠ .completed → (c'.store.plans p).status = .completed →
      (c'.store.plans p).AllDone) := by
  refine ⟨?_, ?_, ?_⟩
  · intro o cfg call p ctx s before mid after ho hr hlist hknown hfree hholds hreceipts hunseen
    exact recovery_agrees ho hr hlist hknown hfree hholds hreceipts hunseen
  · intro c p hreach hplain
    exact orderly_history hreach hplain
  · intro c c' p hreach hstep hplain hbefore hafter
    exact completed_plan_done hreach hstep hplain hbefore hafter

theorem held_steps_settle_two :
    SettledAlike (answers fun _ => .receipt .completed) polling 0 0 false twoHeld := by
  have hnone : ∀ step, ¬ Refused (answers fun _ => .receipt .completed) 0 step := by
    rintro step ⟨status, hreceipt, hne⟩
    unfold receiptOf at hreceipt
    split at hreceipt
    · split at hreceipt
      · exact absurd (Option.some.inj hreceipt).symm hne
      · cases hreceipt
    · cases hreceipt
  refine held_steps_settle.1 _ polling 0 0 false twoHeld [] (twoHeld.plans 0).steps []
    ⟨fun _ _ _ => rfl, fun _ _ _ h => (by cases h), fun _ _ _ h => (by cases h)⟩
    ⟨fun _ => rfl, rfl⟩ rfl
    (by decide) rfl ?_ ⟨fun step _ h => absurd h (hnone step), ?_⟩ (forall_mem_nil _)
  · exact ⟨by simp, rfl, rfl, by decide, by simp, by decide, by decide, by simp⟩
  · exact pairwise_of_forall fun _ later _ _ => hnone later

/-- A refusal behind a step without receipt is seen by the recovery alone; an optional step
    found refused by a recovery is delegated again by it; and a plan whose pending step is a
    peer's is completed. -/
theorem held_steps_settle_not_always :
    ¬ SettledAlike (answers secondFailed) polling 0 0 false twoHeld ∧
    (.refused 0 0 .recovered true ∈ ((Task.eval (answers firstFailed)
        (recoverDelegatedSteps polling 0 "self") optionalHeld).2.plans 0).history ∧
      .delegated 0 0 ∈ ((Task.eval (answers firstFailed)
        (recoverDelegatedSteps polling 0 "self") optionalHeld).2.plans 0).history) ∧
    (((Task.eval (answers secondFailed) (resumePlan polling 0 0 false) peers).2.plans 0).status
        = .completed ∧
      ∃ step ∈ ((Task.eval (answers secondFailed)
        (resumePlan polling 0 0 false) peers).2.plans 0).steps, step.status = .pending) := by
  refine ⟨?_, by decide, by decide⟩
  rintro ⟨hstatus, -⟩
  cases hstatus

end Motebit.Planner
