/-
  Motebit.Planner.Driving — WHAT THE DRIVER OF ONE PLAN DOES TO IT.

  A plan is collaborative where one of its steps is assigned to a participant; of such plans
  nothing is said, and others may change them at any time.  Of every other plan the driver
  keeps: the steps before the current one are done, and no step is delegated after a receipt
  for it was found that is not a completed one, but for an optional step that a recovery
  found it for.

  Main results: `driveSteps_driven`, `recoverPlan_driven`.
-/

import Motebit.Planner.Model

namespace Motebit.Planner

open Motebit.Lib Motebit.Lib.Protocol List

/-! ## §1. Steps of a plan -/

/-- What the engine never changes of a step. -/
def PlanStep.key (step : PlanStep) : Nat × Bool × Option String :=
  (step.step_id, step.optional, step.assigned_motebit_id)

/-- What the engine never changes of a plan's steps. -/
def Plan.keys (plan : Plan) : List (Nat × Bool × Option String) := plan.steps.map PlanStep.key

/-- Some step is assigned to a participant. -/
def Plan.collaborative (plan : Plan) : Bool := plan.keys.any fun key => key.2.2.isSome

@[simp] theorem key_apply (u : StepUpdate) (step : PlanStep) : (u.apply step).key = step.key := rfl

@[simp] theorem keys_updateStep (plan : Plan) (id : Nat) (u : StepUpdate) :
    (plan.updateStep id u).keys = plan.keys := by
  show (plan.steps.map fun step => if step.step_id = id then u.apply step else step).map _ = _
  rw [map_map]
  refine map_congr_left fun step _ => ?_
  show (if step.step_id = id then u.apply step else step).key = step.key
  split <;> rfl

@[simp] theorem keys_setStatus (plan : Plan) (status : PlanStatus) :
    (plan.setStatus status).keys = plan.keys := rfl

@[simp] theorem keys_setIndex (plan : Plan) (i : Nat) : (plan.setIndex i).keys = plan.keys := rfl

@[simp] theorem keys_record (plan : Plan) (e : Event) : (plan.record e).keys = plan.keys := rfl

variable {plan' : Plan} {u : StepUpdate}

theorem collaborative_congr {plan : Plan} (h : plan'.keys = plan.keys) :
    plan'.collaborative = plan.collaborative := by
  unfold Plan.collaborative
  rw [h]

theorem index_unique {plan : Plan} {i j : Nat} {a b : PlanStep} (ha : plan.steps[i]? = some a)
    (hb : plan.steps[j]? = some b) (hid : a.step_id = b.step_id) : i = j := by
  have hlt : i < (plan.steps.map PlanStep.step_id).length := by
    rw [length_map]
    exact (List.getElem?_eq_some_iff.mp ha).1
  apply (getElem?_inj hlt plan.distinct).mp
  rw [getElem?_map, getElem?_map, ha, hb, Option.map_some, Option.map_some, hid]

theorem getElem?_updateStep (plan : Plan) (id : Nat) (u : StepUpdate) (j : Nat) :
    (plan.updateStep id u).steps[j]?
      = plan.steps[j]?.map fun step => if step.step_id = id then u.apply step else step :=
  getElem?_map

theorem getElem?_updateStep_ne {plan : Plan} {i j : Nat} {step : PlanStep}
    (hi : plan.steps[i]? = some step) (hne : j ≠ i) :
    (plan.updateStep step.step_id u).steps[j]? = plan.steps[j]? := by
  rw [getElem?_updateStep]
  cases hj : plan.steps[j]? with
  | none => rfl
  | some =>
    rw [Option.map_some, if_neg]
    intro hid
    exact hne (index_unique hj hi hid)

theorem getElem?_updateStep_self {plan : Plan} {i : Nat} {step : PlanStep}
    (hi : plan.steps[i]? = some step) :
    (plan.updateStep step.step_id u).steps[i]? = some (u.apply step) := by
  rw [getElem?_updateStep, hi, Option.map_some, if_pos rfl]

theorem getStep_eq {plan : Plan} {i : Nat} {step : PlanStep} (hi : plan.steps[i]? = some step) :
    plan.getStep step.step_id = some step := by
  unfold Plan.getStep
  cases hfind : plan.steps.find? fun s => s.step_id == step.step_id with
  | none =>
    rw [find?_eq_none] at hfind
    exact absurd (by simp) (hfind step (mem_of_getElem? hi))
  | some found =>
    have hid : found.step_id = step.step_id := by simpa using find?_some hfind
    obtain ⟨j, hj⟩ := getElem?_of_mem (mem_of_find?_eq_some hfind)
    have hij := index_unique hj hi hid
    rw [hij, hi] at hj
    exact hj.symm

/-! ## §2. Invariants -/

def Event.call : Event → Nat
  | .polled call _ => call
  | .refused call _ _ _ => call
  | .delegated call _ => call

/-- No call delegates a step after it found a receipt for it that is not a completed one, but
    for an optional step it found it for in a recovery. -/
def Orderly (history : List Event) : Prop :=
  history.Pairwise fun a b => ∀ call step_id found optional,
    a = .refused call step_id found optional → b = .delegated call step_id →
      found = .recovered ∧ optional = true

def Plan.DoneBefore (plan : Plan) (i : Nat) : Prop :=
  ∀ j, j < i → ∀ step, plan.steps[j]? = some step → step.status.done = true

/-- What holds of every plan that is not collaborative. -/
structure Plan.Sound (plan : Plan) : Prop where
  before : plan.DoneBefore plan.current_step_index
  orderly : Orderly plan.history

def Plan.AllDone (plan : Plan) : Prop := ∀ step ∈ plan.steps, step.status.done = true

/-- What a step of a call may do to a plan that is not collaborative. -/
structure Moves (call : Nat) (plan plan' : Plan) : Prop where
  history : ∃ events, plan'.history = plan.history ++ events ∧ ∀ e ∈ events, e.call = call
  completed : plan'.status = .completed → plan.status ≠ .completed → plan'.AllDone

theorem Moves.refl (call : Nat) (plan : Plan) : Moves call plan plan :=
  ⟨⟨[], by simp, nofun⟩, fun h hne => absurd h hne⟩

structure Drives (call : Nat) (plan plan' : Plan) : Prop where
  keys : plan'.keys = plan.keys
  moves : plan.collaborative = false → Moves call plan plan'

/-- A plan by itself: what is outside the engine may change it so that it is collaborative. -/
def planWorld : World Plan Req Resp where
  init _ := True
  entry _ _ := False
  answer plan _ _ plan' := plan' = plan
  env _ plan' := plan'.collaborative = true
  crash _ _ := False

def driving (call : Nat) : Protocol planWorld where
  Inv plan := plan.collaborative = false → plan.Sound
  Guar u plan plan' := if u = 0 then Drives call plan plan' else plan' = plan
  Fresh _ _ := True
  refl u plan := by
    split
    · exact ⟨rfl, fun _ => .refl call plan⟩
    · rfl

def Plainly (φ : Plan → Prop) (plan : Plan) : Prop := plan.collaborative = false → φ plan

variable {call : Nat}

theorem stable_plainly (φ : Plan → Prop) : (driving call).Stable 0 (Plainly φ) := by
  intro plan plan' _ _ hrely h hplain
  rcases hrely with ⟨u, hu, hsame⟩ | henv
  · have heq : if u = 0 then Drives call plan plan' else plan' = plan := hsame
    rw [if_neg hu] at heq
    rw [heq] at hplain ⊢
    exact h hplain
  · have hcollab : plan'.collaborative = true := henv
    rw [hcollab] at hplain
    cases hplain

abbrev Driven (call : Nat) {α : Type} (x : PlanTask α) (φ : Plan → Prop) (ψ : α → Plan → Prop) :
    Prop :=
  (driving call).Ensures 0 x (Plainly φ) (fun a => Plainly (ψ a)) fun _ => Plainly fun _ => True

variable {α β : Type} {φ φ' : Plan → Prop} {ψ : α → Plan → Prop}

theorem Driven.bind {χ : β → Plan → Prop} {x : PlanTask α} {g : α → PlanTask β}
    (hx : Driven call x φ ψ) (hg : ∀ a, Driven call (g a) (ψ a) χ) : Driven call (x >>= g) φ χ :=
  Ensures.bind hx hg

theorem Driven.mono {x : PlanTask α} (h : Driven call x φ ψ) (hφ : ∀ plan, φ' plan → φ plan) :
    Driven call x φ' ψ :=
  Ensures.mono h fun plan _ hl hplain => hφ plan (hl hplain)

theorem Driven.pure {a : α} (h : ∀ plan, φ plan → ψ a plan) :
    Driven call (Pure.pure a : PlanTask α) φ ψ :=
  Ensures.pure fun plan _ hl hplain => h plan (hl hplain)

theorem Driven.throw {e : Stop} : Driven call (throw e : PlanTask α) φ ψ :=
  Ensures.throw fun _ _ _ _ => trivial

theorem Driven.read {g : Plan → α}
    (h : ∀ plan, plan.collaborative = false → φ plan → ψ (g plan) plan) :
    Driven call (Task.read g : PlanTask α) φ ψ :=
  Ensures.read (fun a => stable_plainly (ψ a)) fun plan _ hl hplain =>
    h plan hplain (hl hplain)

theorem Driven.ask {r : Req} : Driven call (Task.ask r : PlanTask (Resp r)) φ fun _ => φ := by
  refine Ensures.ask (fun _ => stable_plainly φ) fun plan a plan' hi hl ha => ?_
  have heq : plan' = plan := ha
  rw [heq]
  exact ⟨hi, (driving call).refl 0 plan, hl⟩

/-- **A write**: it keeps the keys, and from a sound plan it makes a move to a sound plan. -/
theorem Driven.modify {χ : Plan → Prop} {f : Plan → Plan} (hkeys : ∀ plan, (f plan).keys = plan.keys)
    (h : ∀ plan, plan.Sound → φ plan → (f plan).Sound ∧ Moves call plan (f plan) ∧ χ (f plan)) :
    Driven call (Task.modify f : PlanTask Unit) φ fun _ => χ := by
  refine .act (fun _ => stable_plainly χ) fun plan hi hl => ?_
  have hcollab := collaborative_congr (hkeys plan)
  refine ⟨fun hplain => ?_, ?_, fun hplain => ?_⟩
  · rw [show (f plan).collaborative = plan.collaborative from hcollab] at hplain
    exact (h plan (hi hplain) (hl hplain)).1
  · show Drives call plan (f plan)
    exact ⟨hkeys plan, fun hplain => (h plan (hi hplain) (hl hplain)).2.1⟩
  · rw [show (f plan).collaborative = plan.collaborative from hcollab] at hplain
    exact (h plan (hi hplain) (hl hplain)).2.2

theorem Driven.forEach {γ : Type} {body : γ → PlanTask Unit} {xs : List γ}
    (h : ∀ x, Driven call (body x) φ fun _ => φ) :
    Driven call (Task.forEach body xs) φ fun _ => φ :=
  Ensures.forEach fun x _ => h x

theorem emit_driven {plan_id : Nat} {step_id : Option Nat} {c : PlanChunk} :
    Driven call (emit plan_id step_id c) φ fun _ => φ := by
  refine .bind Driven.ask fun goesOn => ?_
  split
  · exact .pure fun _ h => h
  · exact .throw

/-! ## §3. The step being visited -/

/-- No receipt the call found is in the way of delegating the `j`th step. -/
def Plan.Free (call : Nat) (plan : Plan) (j : Nat) : Prop :=
  ∀ key, plan.keys[j]? = some key → ∀ found optional,
    .refused call key.1 found optional ∈ plan.history → found = .recovered ∧ optional = true

/-- The loop stands before the `i`th step. -/
structure Ahead (call : Nat) (keys : List (Nat × Bool × Option String)) (i : Nat) (plan : Plan) :
    Prop where
  keys : plan.keys = keys
  before : plan.DoneBefore i
  free : ∀ j, i ≤ j → plan.Free call j

/-- The loop visits the `i`th step, which is not done. -/
structure Open (call : Nat) (keys : List (Nat × Bool × Option String)) (i step_id : Nat)
    (plan : Plan) : Prop where
  keys : plan.keys = keys
  before : plan.DoneBefore i
  later : ∀ j, i < j → plan.Free call j
  opened : ∃ step, plan.steps[i]? = some step ∧ step.step_id = step_id ∧ step.status.done = false

/-- The step may be delegated, too. -/
def Ready (call : Nat) (keys : List (Nat × Bool × Option String)) (i step_id : Nat) (plan : Plan) :
    Prop := Open call keys i step_id plan ∧ plan.Free call i

variable {keys : List (Nat × Bool × Option String)} {i step_id : Nat} {plan : Plan}

theorem key_at {step : PlanStep} (hi : plan.steps[i]? = some step) :
    plan.keys[i]? = some step.key := by
  unfold Plan.keys
  rw [getElem?_map, hi]
  rfl

theorem Free.congr {j : Nat} (hkeys : plan'.keys = plan.keys)
    (hhistory : plan'.history = plan.history) (h : plan.Free call j) : plan'.Free call j := by
  unfold Plan.Free
  rw [hkeys, hhistory]
  exact h

theorem Open.before_update (h : Open call keys i step_id plan) (u : StepUpdate) :
    (plan.updateStep step_id u).DoneBefore i := by
  obtain ⟨step, hi, rfl, -⟩ := h.opened
  intro j hj other hother
  rw [getElem?_updateStep_ne hi (by omega)] at hother
  exact h.before j hj other hother

/-- **An update of a step that is not done keeps the plan sound**: it is none of those before
    the current one. -/
theorem Plan.Sound.update {step : PlanStep} (hs : plan.Sound) (hi : plan.steps[i]? = some step)
    (hopen : step.status.done = false) (u : StepUpdate) :
    (plan.updateStep step.step_id u).Sound := by
  refine ⟨fun j hj other hother => ?_, hs.orderly⟩
  have hlt : j < plan.current_step_index := hj
  by_cases hji : j = i
  · subst hji
    have hdone := hs.before j hlt step hi
    rw [hopen] at hdone
    cases hdone
  · rw [getElem?_updateStep_ne hi hji] at hother
    exact hs.before j hlt other hother

theorem Open.sound_update (h : Open call keys i step_id plan) (hs : plan.Sound) (u : StepUpdate) :
    (plan.updateStep step_id u).Sound := by
  obtain ⟨step, hi, rfl, hopen⟩ := h.opened
  exact hs.update hi hopen u

theorem Open.update (h : Open call keys i step_id plan)
    (hu : ∀ status, u.status = some status → status.done = false) :
    Open call keys i step_id (plan.updateStep step_id u) := by
  refine ⟨by rw [keys_updateStep, h.keys], h.before_update u, fun j hj => ?_, ?_⟩
  · exact Free.congr (keys_updateStep plan _ u) rfl (h.later j hj)
  · obtain ⟨step, hi, rfl, hopen⟩ := h.opened
    refine ⟨_, getElem?_updateStep_self hi, rfl, ?_⟩
    show (u.status.getD step.status).done = false
    cases hstatus : u.status with
    | none => exact hopen
    | some status => exact hu status hstatus

variable {status : StepStatus}

/-- **The loop goes on behind a step that is finished.** -/
theorem Open.finish (h : Open call keys i step_id plan)
    (hu : u.status = some status) (hdone : status.done = true) :
    Ahead call keys (i + 1) (plan.updateStep step_id u) := by
  refine ⟨by rw [keys_updateStep, h.keys], fun j hj other hother => ?_, fun j hj => ?_⟩
  · by_cases hji : j = i
    · subst hji
      obtain ⟨step, hi, rfl, -⟩ := h.opened
      rw [getElem?_updateStep_self hi] at hother
      cases hother
      show (u.status.getD step.status).done = true
      rw [hu]
      exact hdone
    · exact h.before_update u j (by omega) other hother
  · exact Free.congr (keys_updateStep plan _ u) rfl (h.later j (by omega))

theorem Moves.of_steps (hhistory : plan'.history = plan.history)
    (hstatus : plan'.status = plan.status) : Moves call plan plan' := by
  refine ⟨⟨[], by rw [hhistory, append_nil], nofun⟩, fun hdone hne => ?_⟩
  rw [hstatus] at hdone
  exact absurd hdone hne

theorem Moves.of_event {e : Event} (he : e.call = call)
    (hhistory : plan'.history = plan.history ++ [e]) (hstatus : plan'.status = plan.status) :
    Moves call plan plan' := by
  refine ⟨⟨[e], hhistory, ?_⟩, fun hdone hne => ?_⟩
  · intro e' he'
    rw [mem_singleton.mp he']
    exact he
  · rw [hstatus] at hdone
    exact absurd hdone hne

theorem failPlan_driven : Driven call failPlan φ fun _ _ => True := by
  refine .modify (fun _ => rfl) fun plan hs _ => ⟨⟨hs.before, hs.orderly⟩, ?_, trivial⟩
  exact ⟨⟨[], by rw [append_nil]; rfl, nofun⟩, nofun⟩

theorem Orderly.snoc {history : List Event} {e : Event} (h : Orderly history)
    (he : ∀ a ∈ history, ∀ call step_id found optional,
      a = .refused call step_id found optional → e = .delegated call step_id →
        found = .recovered ∧ optional = true) : Orderly (history ++ [e]) := by
  unfold Orderly
  rw [pairwise_append]
  refine ⟨h, pairwise_singleton _ _, fun a ha b hb => ?_⟩
  rw [mem_singleton.mp hb]
  exact he a ha

/-- **The visited step is finished**, and the loop may go on. -/
theorem finish_driven (hdone : status.done = true) :
    Driven call (Task.modify fun plan => plan.updateStep step_id { status := some status })
      (Open call keys i step_id) fun _ => Ahead call keys (i + 1) := by
  refine .modify (fun plan => keys_updateStep plan _ _) fun plan hs h => ?_
  exact ⟨h.sound_update hs _, Moves.of_steps rfl rfl, h.finish rfl hdone⟩

theorem update_driven (hu : ∀ status, u.status = some status → status.done = false) :
    Driven call (Task.modify fun plan => plan.updateStep step_id u)
      (Open call keys i step_id) fun _ => Open call keys i step_id := by
  refine .modify (fun plan => keys_updateStep plan _ _) fun plan hs h => ?_
  exact ⟨h.sound_update hs _, Moves.of_steps rfl rfl, h.update hu⟩

theorem polled_driven {id : Nat} :
    Driven call (Task.modify fun plan => plan.record (.polled call id))
      (Ready call keys i step_id) fun _ => Ready call keys i step_id := by
  refine .modify (fun _ => rfl) fun plan hs h => ?_
  have hfree : ∀ j, plan.Free call j → (plan.record (.polled call id)).Free call j := by
    intro j hj key hkey found optional hmem
    rcases mem_append.mp hmem with hmem | hmem
    · exact hj key hkey found optional hmem
    · rw [mem_singleton] at hmem
      cases hmem
  refine ⟨⟨hs.before, hs.orderly.snoc nofun⟩, Moves.of_event rfl rfl rfl, ?_⟩
  exact ⟨⟨h.1.keys, h.1.before, fun j hj => hfree j (h.1.later j hj), h.1.opened⟩, hfree i h.2⟩

/-- **A delegation of the visited step**: no refusal is in its way. -/
theorem delegated_driven :
    Driven call (Task.modify fun plan => plan.record (.delegated call step_id))
      (Ready call keys i step_id) fun _ => Open call keys i step_id := by
  refine .modify (fun _ => rfl) fun plan hs h => ?_
  obtain ⟨step, hi, rfl, hopen⟩ := h.1.opened
  have horderly : Orderly (plan.history ++ [.delegated call step.step_id]) := by
    refine hs.orderly.snoc fun a ha call' id found optional hrefused hdelegated => ?_
    cases hdelegated
    rw [hrefused] at ha
    exact h.2 _ (key_at hi) found optional ha
  refine ⟨⟨hs.before, horderly⟩, Moves.of_event rfl rfl rfl, h.1.keys, h.1.before, fun j hj => ?_,
    step, hi, rfl, hopen⟩
  intro key hkey found optional hmem
  rcases mem_append.mp hmem with hmem | hmem
  · exact h.1.later j hj key hkey found optional hmem
  · rw [mem_singleton] at hmem
    cases hmem

/-- **A refusal of the visited step**: it is not in the way of the steps behind it. -/
theorem refused_driven {found : Found} {optional : Bool} :
    Driven call (Task.modify fun plan =>
        { plan.updateStep step_id { status := some .failed } with
          history := plan.history ++ [.refused call step_id found optional] })
      (Open call keys i step_id) fun _ => Open call keys i step_id := by
  refine .modify (fun plan => keys_updateStep plan _ _) fun plan hs h => ?_
  have hsound := h.sound_update hs { status := some .failed }
  have hopen := h.update (u := { status := some .failed }) fun _ hstatus => by cases hstatus; rfl
  refine ⟨⟨hsound.before, hs.orderly.snoc nofun⟩, Moves.of_event rfl rfl rfl, hopen.keys,
    hopen.before, fun j hj => ?_, hopen.opened⟩
  intro key hkey found' optional' hmem
  rcases mem_append.mp hmem with hmem | hmem
  · exact hopen.later j hj key hkey found' optional' hmem
  · -- the ids of the steps behind are others
    rw [mem_singleton] at hmem
    obtain ⟨step, hi, rfl, -⟩ := h.opened
    have hplan : (plan.updateStep step.step_id { status := some .failed }).keys[j]? = some key :=
      hkey
    rw [keys_updateStep] at hplan
    unfold Plan.keys at hplan
    rw [getElem?_map, Option.map_eq_some_iff] at hplan
    obtain ⟨other, hother, rfl⟩ := hplan
    have hid : other.step_id = step.step_id := (Event.refused.inj hmem).2.1
    have heq := index_unique hother hi hid
    omega

/-! ## §4. The visit of a step -/

section

variable {cfg : PlanEngineConfig} {plan_id : Nat} {step : PlanStep} {now : Int}

/-- Where a visit leaves the loop. -/
def Left (call : Nat) (keys : List (Nat × Bool × Option String)) (i : Nat) : Visited → Plan → Prop
  | .next => Ahead call keys (i + 1)
  | .stop ended => fun _ => ended ≠ .finished

theorem completeHeld_driven :
    Driven call (completeHeld plan_id step) (Open call keys i step.step_id)
      fun _ => Ahead call keys (i + 1) := by
  refine .bind (finish_driven rfl) fun _ => ?_
  exact .bind emit_driven fun _ => emit_driven

theorem failStep_driven {found : List Event} (hfirst : Driven call (Task.modify fun plan =>
        { plan.updateStep step.step_id { status := some .failed } with
          history := plan.history ++ found })
      (Open call keys i step.step_id) fun _ => Open call keys i step.step_id) :
    Driven call (failStep plan_id step found) (Open call keys i step.step_id)
      fun skipped => if skipped = true then Ahead call keys (i + 1) else fun _ => True := by
  refine .bind hfirst fun _ => .bind emit_driven fun _ => ?_
  split
  · refine .bind (finish_driven rfl) fun _ => ?_
    exact .pure fun _ h => h
  · refine .bind failPlan_driven fun _ => .bind emit_driven fun _ => ?_
    exact .pure fun _ _ => trivial

theorem failed_driven :
    Driven call (Task.modify fun plan =>
        { plan.updateStep step_id { status := some .failed } with history := plan.history ++ [] })
      (Open call keys i step_id) fun _ => Open call keys i step_id := by
  simp only [append_nil]
  exact update_driven fun status h => by cases h; rfl

theorem pollHeld_driven :
    Driven call (pollHeld cfg call plan_id step) (Ready call keys i step.step_id)
      fun _ => Ready call keys i step.step_id := by
  unfold pollHeld
  split
  · split
    · refine .bind Driven.ask fun answer => .bind polled_driven fun _ => ?_
      split
      · exact .pure fun _ h => h
      · exact .pure fun _ h => h
    · exact .pure fun _ h => h
  · exact .pure fun _ h => h

/-- **What the settlement of a held step leaves.** -/
theorem settleHeldStep_driven :
    Driven call (settleHeldStep cfg call plan_id step now) (Ready call keys i step.step_id)
      fun settled => match settled with
        | .completed | .skipped => Ahead call keys (i + 1)
        | .resubmit => Ready call keys i step.step_id
        | .failed | .held => fun _ => True := by
  unfold settleHeldStep
  split
  · exact .pure fun _ h => h
  · refine .bind pollHeld_driven fun result => ?_
    match result with
    | none =>
      refine .bind emit_driven fun _ => ?_
      exact .pure fun _ _ => trivial
    | some .completed =>
      refine .bind (completeHeld_driven.mono fun _ h => h.1) fun _ => ?_
      exact .pure fun _ h => h
    | some .failed | some .denied =>
      refine .bind ((failStep_driven refused_driven).mono fun _ h => h.1) fun skipped => ?_
      cases skipped with
      | true => exact .pure fun _ h => h
      | false => exact .pure fun _ _ => trivial

theorem startStep_driven {started : Int} :
    Driven call (startStep plan_id step i started) (Ready call keys i step.step_id)
      fun _ => Ready call keys i step.step_id := by
  refine .bind ?_ fun _ => emit_driven
  refine .modify (fun plan => keys_updateStep plan _ _) fun plan hs h => ?_
  have hopen := h.1.update (u := { status := some .running, started_at := some started })
    fun status hstatus => by cases hstatus; rfl
  refine ⟨⟨hopen.before, hs.orderly⟩, Moves.of_steps rfl rfl, ?_⟩
  exact ⟨⟨hopen.keys, hopen.before, hopen.later, hopen.opened⟩,
    Free.congr (keys_updateStep plan _ _) rfl h.2⟩

theorem delegate_driven :
    Driven call (delegate call plan_id step i now) (Ready call keys i step.step_id)
      (Left call keys i) := by
  refine .bind startStep_driven fun _ => .bind delegated_driven fun _ => ?_
  refine .bind Driven.ask fun answer => ?_
  have hcallbacks : ∀ c : Callback, Driven call
      (Task.modify fun plan => plan.updateStep step.step_id c.update)
      (Open call keys i step.step_id) fun _ => Open call keys i step.step_id := by
    intro c
    apply update_driven
    intro status h
    cases c <;> cases h
  refine .bind (Driven.forEach hcallbacks) fun _ => ?_
  split
  · refine .bind completeHeld_driven fun _ => ?_
    exact .pure fun _ h => h
  · refine .bind emit_driven fun _ => ?_
    exact .pure fun _ _ => nofun
  · refine .bind (failStep_driven failed_driven) fun skipped => ?_
    cases skipped with
    | true => exact .pure fun _ h => h
    | false => exact .pure fun _ _ => nofun

theorem attempts_driven (tries : List Nat) :
    Driven call (attempts plan_id step i now tries) (Ready call keys i step.step_id)
      fun tried => match tried with
        | some visited => Left call keys i visited
        | none => Ready call keys i step.step_id := by
  induction tries with
  | nil => exact .pure fun _ h => h
  | cons attempt rest ih =>
    refine .bind startStep_driven fun _ => .bind Driven.ask fun answer => ?_
    split
    · refine .bind ((finish_driven rfl).mono fun _ h => h.1) fun _ => ?_
      refine .bind emit_driven fun _ => ?_
      exact .pure fun _ h => h
    · exact .pure fun _ _ => nofun
    · exact .throw
    · exact ih

theorem runLocally_driven :
    Driven call (runLocally cfg plan_id step i now) (Ready call keys i step.step_id)
      (Left call keys i) := by
  refine .bind (attempts_driven _) fun tried => ?_
  cases tried with
  | some => exact .pure fun _ h => h
  | none =>
    refine .bind ((update_driven fun status h => by cases h; rfl).mono fun _ h => h.1)
      fun _ => .bind emit_driven fun _ => ?_
    split
    · refine .bind (finish_driven rfl) fun _ => ?_
      exact .pure fun _ h => h
    · refine .bind failPlan_driven fun _ => ?_
      exact .pure fun _ _ => nofun

theorem driveOpen_driven :
    Driven call (driveOpen cfg call plan_id step i now) (Ready call keys i step.step_id)
      (Left call keys i) := by
  refine .bind (ψ := fun _ => Ready call keys i step.step_id) (Driven.read fun _ _ h => h)
    fun met => ?_
  split
  · split
    · exact runLocally_driven
    · split
      · refine .bind ((failStep_driven failed_driven).mono fun _ h => h.1) fun skipped => ?_
        cases skipped with
        | true => exact .pure fun _ h => h
        | false => exact .pure fun _ _ => nofun
      · exact delegate_driven
  · split
    · refine .bind ((finish_driven rfl).mono fun _ h => h.1) fun _ => ?_
      exact .pure fun _ h => h
    · refine .bind failPlan_driven fun _ => .bind emit_driven fun _ => ?_
      exact .pure fun _ _ => nofun

theorem Ahead.step_at (h : Ahead call keys i plan) {key : Nat × Bool × Option String}
    (hkey : keys[i]? = some key) : ∃ step, plan.steps[i]? = some step ∧ step.key = key := by
  have hkeys := h.keys
  unfold Plan.keys at hkeys
  rwa [← hkeys, getElem?_map, Option.map_eq_some_iff] at hkey

theorem not_assigned (hplain : plan.collaborative = false) (hi : plan.steps[i]? = some step) :
    assignedElsewhere cfg step = false := by
  have hnone : step.assigned_motebit_id = none := by
    cases hassigned : step.assigned_motebit_id with
    | none => rfl
    | some =>
      unfold Plan.collaborative Plan.keys at hplain
      rw [any_eq_false] at hplain
      have hno := hplain step.key (mem_map_of_mem (mem_of_getElem? hi))
      simp [PlanStep.key, hassigned] at hno
  unfold assignedElsewhere
  rw [hnone]

/-- **The visit of one step.** -/
theorem visit_driven {snapshot : PlanStep} (hkey : keys[i]? = some snapshot.key) :
    Driven call (visit cfg call plan_id snapshot i) (Ahead call keys i) (Left call keys i) := by
  have hread : ∀ plan, plan.collaborative = false → Ahead call keys i plan →
      Ahead call keys i plan ∧
      plan.steps[i]? = some ((plan.getStep snapshot.step_id).getD snapshot) ∧
      ((plan.getStep snapshot.step_id).getD snapshot).step_id = snapshot.step_id ∧
      assignedElsewhere cfg ((plan.getStep snapshot.step_id).getD snapshot) = false := by
    intro plan hplain h
    obtain ⟨step, hi, hstep⟩ := h.step_at hkey
    have hid : step.step_id = snapshot.step_id := congrArg Prod.fst hstep
    have hget : (plan.getStep snapshot.step_id).getD snapshot = step := by
      rw [← hid, getStep_eq hi]
      rfl
    rw [hget]
    exact ⟨h, hi, hid, not_assigned hplain hi⟩
  refine .bind (ψ := fun step plan => Ahead call keys i plan ∧ plan.steps[i]? = some step ∧
    step.step_id = snapshot.step_id ∧ assignedElsewhere cfg step = false) (Driven.read hread)
    fun step => .bind Driven.ask fun lease => ?_
  split
  · refine .bind emit_driven fun _ => ?_
    exact .pure fun _ _ => nofun
  · split
    · next hdone =>
      refine .pure fun plan h => ?_
      refine ⟨h.1.keys, fun j hj other hother => ?_, fun j hj => h.1.free j (by omega)⟩
      by_cases hji : j = i
      · subst hji
        rw [h.2.1] at hother
        cases hother
        exact hdone
      · exact h.1.before j (by omega) other hother
    · next hopen =>
      have hready : ∀ plan : Plan, Ahead call keys i plan ∧ plan.steps[i]? = some step ∧
          step.step_id = snapshot.step_id ∧ assignedElsewhere cfg step = false →
          Ready call keys i step.step_id plan := by
        rintro plan ⟨h, hi, -, -⟩
        refine ⟨⟨h.keys, h.before, fun j hj => h.free j (by omega), step, hi, rfl, ?_⟩,
          h.free i (Nat.le_refl i)⟩
        simpa using hopen
      split
      · next helsewhere =>
        -- assigned elsewhere: the plan is collaborative
        refine .pure fun plan h => ?_
        rw [h.2.2.2] at helsewhere
        cases helsewhere
      · split
        · refine .bind (settleHeldStep_driven.mono hready) fun settled => ?_
          cases settled with
          | completed | skipped => exact .pure fun _ h => h
          | resubmit => exact driveOpen_driven
          | failed | held => exact .pure fun _ _ => nofun
        · exact driveOpen_driven.mono hready

variable {snapshots : List PlanStep}

theorem Ahead.all_done
    (h : Ahead call (snapshots.map PlanStep.key) i plan) (hi : snapshots.length ≤ i) :
    plan.AllDone := by
  intro step hstep
  obtain ⟨j, hj⟩ := getElem?_of_mem hstep
  refine h.before j ?_ step hj
  have hlt : j < plan.keys.length := by
    unfold Plan.keys
    rw [length_map]
    exact (List.getElem?_eq_some_iff.mp hj).1
  rw [h.keys, length_map] at hlt
  omega

/-- **The loop over the steps**, the last of which completes the plan. -/
theorem driveSteps_driven (l : List (PlanStep × Nat)) (hl : l = snapshots.zipIdx.drop i) :
    Driven call (driveSteps cfg call plan_id l) (Ahead call (snapshots.map PlanStep.key) i)
      fun _ _ => True := by
  induction l generalizing i with
  | nil =>
    have hlen : snapshots.length ≤ i := by
      have hnil := hl.symm
      rwa [drop_eq_nil_iff, length_zipIdx] at hnil
    refine .bind ?_ fun _ => .bind emit_driven fun _ => .pure fun _ h => h
    refine .modify (fun _ => rfl) fun plan hs h => ⟨⟨hs.before, hs.orderly⟩, ?_, trivial⟩
    exact ⟨⟨[], by rw [append_nil]; rfl, nofun⟩, fun _ _ => h.all_done hlen⟩
  | cons head rest ih =>
    obtain ⟨snapshot, index⟩ := head
    have hat : snapshots.zipIdx[i]? = some (snapshot, index) := by
      have hhead := congrArg (fun l => l[0]?) hl
      simp only [getElem?_cons_zero, getElem?_drop, Nat.add_zero] at hhead
      exact hhead.symm
    rw [getElem?_zipIdx, Option.map_eq_some_iff] at hat
    obtain ⟨snap, hsnap, hpair⟩ := hat
    cases hpair
    have hrest : rest = snapshots.zipIdx.drop (i + 1) := by
      have htail := congrArg List.tail hl
      rwa [tail_drop] at htail
    rw [Nat.zero_add]
    have hkey : (snapshots.map PlanStep.key)[i]? = some snapshot.key := by
      rw [getElem?_map, hsnap]
      rfl
    refine .bind (visit_driven hkey) fun visited => ?_
    cases visited with
    | next => exact ih hrest
    | stop => exact .pure fun _ _ => trivial

/-! ## §5. The recovery of a plan -/

/-- No receipt the call found forbids a delegation. -/
def Plan.Clear (call : Nat) (plan : Plan) : Prop :=
  ∀ id found optional, .refused call id found optional ∈ plan.history →
    found = .recovered ∧ optional = true

/-- The call has done nothing with the plan. -/
def Plan.Unseen (call : Nat) (plan : Plan) : Prop := ∀ e ∈ plan.history, e.call ≠ call

theorem Plan.Unseen.clear (h : plan.Unseen call) : plan.Clear call := by
  intro id found optional hmem
  exact absurd rfl (h _ hmem)

/-- The recovery has still to look at `rest`; a required step it refused has failed. -/
structure Recovering (call : Nat) (rest : List PlanStep) (plan : Plan) : Prop where
  waiting : ∀ s ∈ rest, s ∈ plan.steps
  refused : ∀ id found optional, .refused call id found optional ∈ plan.history →
    found = .recovered ∧ id ∉ rest.map PlanStep.step_id ∧
      (optional = false →
        ∃ s ∈ plan.steps, s.step_id = id ∧ s.status = .failed ∧ s.optional = false)

variable {rest : List PlanStep}

theorem Recovering.tail (h : Recovering call (step :: rest) plan) : Recovering call rest plan := by
  refine ⟨fun s hs => h.waiting s (mem_cons_of_mem _ hs), fun id found optional hmem => ?_⟩
  obtain ⟨hfound, hnot, hfailed⟩ := h.refused id found optional hmem
  exact ⟨hfound, fun hin => hnot (mem_cons_of_mem _ hin), hfailed⟩

theorem mem_updateStep_of_ne {s : PlanStep} {id : Nat} {u : StepUpdate} (hs : s ∈ plan.steps)
    (hne : s.step_id ≠ id) : s ∈ (plan.updateStep id u).steps := by
  refine mem_map.mpr ⟨s, hs, ?_⟩
  rw [if_neg hne]

section

variable (hnodup : ((step :: rest).map PlanStep.step_id).Nodup)
include hnodup

theorem Recovering.update {u : StepUpdate} (h : Recovering call (step :: rest) plan) :
    Recovering call rest (plan.updateStep step.step_id u) := by
  have hhead : step.step_id ∉ rest.map PlanStep.step_id := (nodup_cons.mp hnodup).1
  refine ⟨fun s hs => ?_, fun id found optional hmem => ?_⟩
  · refine mem_updateStep_of_ne (h.waiting s (mem_cons_of_mem _ hs)) fun heq => hhead ?_
    rw [← heq]
    exact mem_map_of_mem hs
  · obtain ⟨hfound, hnot, hfailed⟩ := h.refused id found optional hmem
    refine ⟨hfound, fun hin => hnot (mem_cons_of_mem _ hin), fun hrequired => ?_⟩
    obtain ⟨s, hs, hid, hstatus⟩ := hfailed hrequired
    refine ⟨s, mem_updateStep_of_ne hs fun heq => hnot ?_, hid, hstatus⟩
    rw [← hid, heq]
    exact mem_cons_self

theorem Recovering.refuse
    (h : Recovering call (step :: rest) plan) : Recovering call rest
      { plan.updateStep step.step_id { status := some .failed } with
        history := plan.history ++ [.refused call step.step_id .recovered step.optional] } := by
  have hupdated := h.update (u := { status := some .failed }) hnodup
  refine ⟨hupdated.waiting, fun id found optional hmem => ?_⟩
  rcases mem_append.mp hmem with hmem | hmem
  · exact hupdated.refused id found optional hmem
  · rw [mem_singleton] at hmem
    cases hmem
    refine ⟨rfl, (nodup_cons.mp hnodup).1, fun hrequired => ?_⟩
    have hmem := h.waiting step mem_cons_self
    refine ⟨{ status := some .failed : StepUpdate }.apply step, ?_, rfl, rfl, hrequired⟩
    refine mem_map.mpr ⟨step, hmem, ?_⟩
    rw [if_pos rfl]

/-- **One step of the recovery.** -/
theorem recoverStep_driven :
    Driven call (recoverStep call plan_id step) (Recovering call (step :: rest))
      fun _ => Recovering call rest := by
  unfold recoverStep
  split
  · exact .pure fun _ h => h.tail
  · split
    · next hrunning =>
      have hsound : ∀ {plan : Plan}, plan.Sound → Recovering call (step :: rest) plan →
          ∀ u, (plan.updateStep step.step_id u).Sound := by
        intro plan hs h u
        obtain ⟨i, hi⟩ := getElem?_of_mem (h.waiting step mem_cons_self)
        exact hs.update hi (by rw [hrunning]; rfl) u
      refine .bind Driven.ask fun answer => ?_
      refine .bind (ψ := fun _ => Recovering call (step :: rest)) ?_ fun _ => ?_
      · refine .modify (fun _ => rfl) fun plan hs h => ?_
        refine ⟨⟨hs.before, hs.orderly.snoc nofun⟩, Moves.of_event rfl rfl rfl, h.waiting, ?_⟩
        intro id found optional hmem
        rcases mem_append.mp hmem with hmem | hmem
        · exact h.refused id found optional hmem
        · rw [mem_singleton] at hmem
          cases hmem
      · split
        · exact .pure fun _ h => h.tail
        · exact .throw
        · refine .bind (ψ := fun _ => Recovering call rest) ?_ fun _ => ?_
          · refine .bind ?_ fun _ => .bind emit_driven fun _ => emit_driven
            refine .modify (fun plan => keys_updateStep plan _ _) fun plan hs h => ?_
            exact ⟨hsound hs h _, Moves.of_steps rfl rfl, h.update hnodup⟩
          · exact .pure fun _ h => h
        · refine .bind (ψ := fun _ => Recovering call rest) ?_ fun _ => ?_
          · refine .modify (fun plan => keys_updateStep plan _ _) fun plan hs h => ?_
            have hs' := hsound hs h { status := some .failed }
            exact ⟨⟨hs'.before, hs.orderly.snoc nofun⟩, Moves.of_event rfl rfl rfl, h.refuse hnodup⟩
          · refine .bind emit_driven fun _ => ?_
            exact .pure fun _ h => h
    · exact .pure fun _ h => h.tail

end

theorem recoverSteps_driven {steps : List PlanStep} (hnodup : (steps.map PlanStep.step_id).Nodup) :
    Driven call (recoverSteps call plan_id steps) (Recovering call steps)
      fun _ => Recovering call [] := by
  induction steps with
  | nil => exact .pure fun _ h => h
  | cons step rest ih =>
    refine .bind (recoverStep_driven hnodup) fun found => ?_
    refine .bind (ih (nodup_cons.mp hnodup).2) fun later => ?_
    exact .pure fun _ h => h

/-- **A recovery resumes a plan only where it found no required step refused.** -/
theorem recoverPlan_driven : Driven call (recoverPlan call plan_id) (Plan.Unseen call)
      fun resumes plan => resumes = true → plan.Clear call := by
  refine .bind (ψ := fun read plan => plan = read ∧ plan.Unseen call)
    (Driven.read fun plan _ h => ⟨rfl, h⟩) fun plan => ?_
  split
  · exact .pure fun _ _ => nofun
  · have hstart : ∀ now : Plan, now = plan ∧ now.Unseen call → Recovering call plan.steps now := by
      rintro now ⟨rfl, h⟩
      exact ⟨fun _ hs => hs, fun _ _ _ hmem => absurd rfl (h _ hmem)⟩
    refine .bind ((recoverSteps_driven plan.distinct).mono hstart) fun recovered => ?_
    split
    · refine .bind (ψ := fun read plan => plan = read ∧ Recovering call [] plan)
        (Driven.read fun plan _ h => ⟨rfl, h⟩) fun updated => ?_
      split
      · refine .bind failPlan_driven fun _ => .bind emit_driven fun _ => ?_
        exact .pure fun _ _ => nofun
      next hfailed =>
      -- no required step has failed, so none was refused
      refine .pure fun now h _ id found optional hmem => ?_
      obtain ⟨rfl, hrec⟩ := h
      obtain ⟨hfound, -, hstep⟩ := hrec.refused id found optional hmem
      refine ⟨hfound, ?_⟩
      cases optional with
      | true => rfl
      | false =>
        obtain ⟨s, hs, -, hstatus, hrequired⟩ := hstep rfl
        exact absurd (any_eq_true.mpr ⟨s, hs, by simp [hstatus, hrequired]⟩) hfailed
    · exact .pure fun _ _ => nofun

end

end Motebit.Planner
