/-
  Motebit.Planner.Engine — ANY NUMBER OF CALLS OF THE ENGINE OVER ONE STORE.

  Calls run interleaved; each drives a plan only while it holds the plan's lock.  The process
  may die at any moment, which frees every lock.  What is outside the engine may change a
  plan at any moment, provided it is collaborative afterwards.

  Main results: `engine_verified`, `orderly_history`, `completed_plan_done`.
-/

import Motebit.Planner.Driving

namespace Motebit.Planner

open Motebit.Lib Motebit.Lib.Protocol List Function

/-! ## §1. The world and what calls may do -/

/-- The calls of the engine, under any configurations. -/
inductive Call (call : Nat) : Prog PlanStore Req Resp Unit → Prop
  | create (cfg : PlanEngineConfig) (goal_id motebit_id : String) :
      Call call (createPlan cfg goal_id motebit_id 0).detach
  | execute (cfg : PlanEngineConfig) (plan_id : Nat) (ctx : Bool) :
      Call call (executePlan cfg call plan_id ctx).detach
  | resume (cfg : PlanEngineConfig) (plan_id : Nat) (ctx : Bool) :
      Call call (resumePlan cfg call plan_id ctx).detach
  | recover (cfg : PlanEngineConfig) (motebit_id : String) :
      Call call (recoverDelegatedSteps cfg call motebit_id).detach

/-- The engine among what else there is; a run starts with plans whose steps before the
    current one are done. -/
def engineWorld : World PlanStore Req Resp where
  init s := (∀ p, s.driver p = none) ∧
    ∀ p, (s.plans p).collaborative = false →
      (s.plans p).DoneBefore (s.plans p).current_step_index ∧ (s.plans p).history = []
  entry := Call
  answer s _ _ s' := s' = s
  env s s' := s'.next = s.next ∧ s'.driver = s.driver ∧
    ∀ p, s'.plans p = s.plans p ∨ (s'.plans p).collaborative = true
  crash s s' := s'.next = s.next ∧ s'.plans = s.plans ∧ ∀ p, s'.driver p = none

/-- What a step of call `t` may do to the store. -/
structure EngineMoves (t : Nat) (s s' : PlanStore) : Prop where
  next : s.next ≤ s'.next
  plans : ∀ p, s'.plans p = s.plans p ∨
    (s.driver p = some t ∧ Drives t (s.plans p) (s'.plans p)) ∨
    (s.next ≤ p ∧ (s'.plans p).history = [] ∧ (s'.plans p).status = .active)
  driver : ∀ p, s'.driver p = s.driver p ∨ (s.driver p = none ∧ s'.driver p = some t) ∨
    (s.driver p = some t ∧ s'.driver p = none)

/-- The call holds the locks of `held`; of the plans not `visited` it has touched none. -/
structure Holding (t : Nat) (held visited : List Nat) (s : PlanStore) : Prop where
  held : ∀ p ∈ held, s.driver p = some t ∧ p ∈ visited
  known : ∀ p ∈ visited, p < s.next
  idle : ∀ p, p ∉ visited →
    s.driver p ≠ some t ∧ ((s.plans p).collaborative = false → (s.plans p).Unseen t)

/-- The proof's side of the world. -/
def engine : Protocol engineWorld where
  Inv s := ∀ p, (s.plans p).collaborative = false → (s.plans p).Sound
  Guar := EngineMoves
  Fresh t := Holding t [] []
  refl t s := ⟨Nat.le_refl _, fun _ => .inl rfl, fun _ => .inl rfl⟩

variable {t : Nat} {held visited : List Nat} {s s' : PlanStore}

/-! ## §2. What the others leave alone -/

theorem Holding.rely (h : Holding t held visited s) (hr : engine.Rely t s s') :
    Holding t held visited s' ∧ ∀ p ∈ held, s'.plans p = s.plans p ∨
      (s'.plans p).collaborative = true := by
  rcases hr with ⟨u, hut, hmoves⟩ | ⟨hnext, hdriver, hplans⟩
  · have hm : EngineMoves u s s' := hmoves
    have hlocks : ∀ p, s.driver p = some t → s'.driver p = some t := by
      intro p hp
      rcases hm.driver p with hsame | ⟨hnone, -⟩ | ⟨hown, -⟩
      · rw [hsame, hp]
      · rw [hp] at hnone
        cases hnone
      · rw [hp] at hown
        exact absurd (Option.some.inj hown).symm hut
    refine ⟨⟨fun p hp => ⟨hlocks p (h.held p hp).1, (h.held p hp).2⟩, fun p hp => ?_,
      fun p hp => ⟨?_, ?_⟩⟩, fun p hp => ?_⟩
    · have hlt := h.known p hp
      have hle := hm.next
      omega
    · rcases hm.driver p with hsame | ⟨-, hown⟩ | ⟨-, hnone⟩
      · rw [hsame]
        exact (h.idle p hp).1
      · rw [hown]
        intro heq
        exact hut (Option.some.inj heq)
      · rw [hnone]
        nofun
    · intro hplain
      rcases hm.plans p with hsame | ⟨-, hdrives⟩ | ⟨-, hnew, -⟩
      · rw [hsame] at hplain ⊢
        exact (h.idle p hp).2 hplain
      · have hbefore : (s.plans p).collaborative = false := by
          rw [← collaborative_congr hdrives.keys]
          exact hplain
        obtain ⟨⟨events, hhistory, hcalls⟩, -⟩ := hdrives.moves hbefore
        intro e he
        rw [hhistory] at he
        rcases mem_append.mp he with he | he
        · exact (h.idle p hp).2 hbefore e he
        · rw [hcalls e he]
          exact hut
      · intro e he
        rw [hnew] at he
        cases he
    · rcases hm.plans p with hsame | ⟨hown, -⟩ | ⟨hge, -⟩
      · exact .inl hsame
      · rw [(h.held p hp).1] at hown
        exact absurd (Option.some.inj hown).symm hut
      · have hlt := h.known p (h.held p hp).2
        omega
  · refine ⟨⟨fun p hp => ?_, fun p hp => ?_, fun p hp => ⟨?_, fun hplain => ?_⟩⟩,
      fun p _ => hplans p⟩
    · rw [hdriver]
      exact h.held p hp
    · rw [hnext]
      exact h.known p hp
    · rw [hdriver]
      exact (h.idle p hp).1
    · rcases hplans p with hsame | hcollab
      · rw [hsame] at hplain ⊢
        exact (h.idle p hp).2 hplain
      · rw [hcollab] at hplain
        cases hplain

/-- **A call owns the plans whose locks it holds.** -/
theorem Holding.owns {p : Nat} (hp : p ∈ held) :
    Protocol.Owns engine (driving t) (planPart p) t 0 (Holding t held visited) where
  inv s hi _ := hi p
  answer s r a s' ha := ⟨ha, fun _ => rfl⟩
  step s v hi hown hv hdrives := by
    have hdrives' : Drives t (s.plans p) v := hdrives
    refine ⟨fun q hplain => ?_, ⟨Nat.le_refl _, fun q => ?_, fun _ => .inl rfl⟩, hown.held,
      hown.known, fun q hq => ?_⟩
    · by_cases hqp : q = p
      · subst hqp
        change (update s.plans q v q).collaborative = false at hplain
        show (update s.plans q v q).Sound
        rw [update_self] at hplain ⊢
        exact hv hplain
      · change (update s.plans p v q).collaborative = false at hplain
        show (update s.plans p v q).Sound
        rw [update_of_ne hqp] at hplain ⊢
        exact hi q hplain
    · show update s.plans p v q = s.plans q ∨ _
      by_cases hqp : q = p
      · subst hqp
        refine .inr (.inl ⟨(hown.held q hp).1, ?_⟩)
        show Drives t (s.plans q) (update s.plans q v q)
        rw [update_self]
        exact hdrives'
      · exact .inl (update_of_ne hqp _ _)
    · have hqp : q ≠ p := by
        rintro rfl
        exact hq (hown.held q hp).2
      show s.driver q ≠ some t ∧ ((update s.plans p v q).collaborative = false →
        (update s.plans p v q).Unseen t)
      rw [update_of_ne hqp]
      exact hown.idle q hq
  rely s s' _ _ hr hown := by
    obtain ⟨hown', hplans⟩ := hown.rely hr
    exact ⟨hown', hplans p hp⟩

theorem Holding.stable : engine.Stable t (Holding t held visited) :=
  fun _ _ _ _ hr h => (h.rely hr).1

/-- What the call knows of a plan it holds. -/
def Own (t : Nat) (held visited : List Nat) (p : Nat) (φ : Plan → Prop) (s : PlanStore) : Prop :=
  Holding t held visited s ∧ Plainly φ (s.plans p)

theorem Own.stable {p : Nat} (hp : p ∈ held) (φ : Plan → Prop) :
    engine.Stable t (Own t held visited p φ) :=
  (Holding.owns hp).stable (stable_plainly φ)

/-- **What the driver of one plan does, the call does.** -/
theorem Driven.on {α : Type} {p : Nat} (hp : p ∈ held) {x : PlanTask α} {φ : Plan → Prop}
    {ψ : α → Plan → Prop} (hx : Driven t x φ ψ) :
    engine.Ensures t (x.on (planPart p)) (Own t held visited p φ)
      (fun a => Own t held visited p (ψ a)) fun _ => Holding t held visited :=
  Ensures.weaken (Ensures.on (Holding.owns hp) hx) (fun _ _ _ h => h) fun _ _ _ h => h.1

/-! ## §3. Locks and new plans -/

variable {L : PlanStore → Prop} {α : Type}

theorem ask_ensures {r : Req} {E : Stop → PlanStore → Prop} (hL : engine.Stable t L) :
    engine.Ensures t (Task.ask r) L (fun _ => L) E := by
  refine .ask (fun _ => hL) fun s a s' hi hl ha => ?_
  have heq : s' = s := ha
  rw [heq]
  exact ⟨hi, engine.refl t s, hl⟩

theorem emitAlone_ensures {p : Nat} {step_id : Option Nat} {c : PlanChunk}
    (hL : engine.Stable t L) :
    engine.Ensures t (emitAlone p step_id c) L (fun _ => L) fun _ => L := by
  refine .bind (ask_ensures hL) fun goesOn => ?_
  split
  · exact .pure fun _ _ h => h
  · exact .throw fun _ _ h => h

/-- A known plan the call has not touched. -/
def Known (t : Nat) (held visited : List Nat) (p : Nat) (s : PlanStore) : Prop :=
  Holding t held visited s ∧ p ∉ visited ∧ p < s.next

theorem Known.stable {p : Nat} : engine.Stable t (Known t held visited p) := by
  intro s s' hi hi' hr hl
  refine ⟨(hl.1.rely hr).1, hl.2.1, ?_⟩
  rcases hr with ⟨u, -, hm⟩ | henv
  · exact Nat.lt_of_lt_of_le hl.2.2 hm.next
  · rw [henv.1]
    exact hl.2.2

/-- **`createPlan`**: the new plan is one the call has not touched. -/
theorem createPlan_ensures {cfg : PlanEngineConfig} {goal_id motebit_id : String} {retry : Nat} :
    engine.Ensures t (createPlan cfg goal_id motebit_id retry) (Holding t held visited)
      (fun created => Known t held visited created.1) fun _ => Holding t held visited := by
  have hstable := @Holding.stable t held visited
  refine .bind (Ensures.read (Q := fun _ => Holding t held visited) (fun _ => hstable)
      fun _ _ h => h) fun refused => ?_
  split
  · exact .throw fun _ _ h => h
  · refine .bind (ask_ensures hstable) fun answer => ?_
    split
    · exact .throw fun _ _ h => h
    next created_at raw =>
    refine .act (fun created => .stable) fun s hi h => ?_
    · have hfresh : s.next ∉ visited := fun hin => Nat.lt_irrefl _ (h.known _ hin)
      have hnew : ∀ q, q ≠ s.next → update s.plans s.next
            (newPlan goal_id motebit_id created_at (raw.take cfg.maxStepsPerPlan)) q
            = s.plans q := fun q hq => update_of_ne hq _ _
      refine ⟨fun q hplain => ?_, ⟨Nat.le_succ _, fun q => ?_, fun _ => .inl rfl⟩,
        ⟨h.held, fun q hq => Nat.lt_succ_of_lt (h.known q hq), fun q hq => ⟨(h.idle q hq).1, ?_⟩⟩,
        hfresh, Nat.lt_succ_self _⟩
      · by_cases hq : q = s.next
        · subst hq
          show (update s.plans s.next _ s.next).Sound
          rw [update_self]
          exact ⟨fun j hj => absurd hj (Nat.not_lt_zero j), List.Pairwise.nil⟩
        · change (update s.plans s.next _ q).collaborative = false at hplain
          show (update s.plans s.next _ q).Sound
          rw [hnew q hq] at hplain ⊢
          exact hi q hplain
      · by_cases hq : q = s.next
        · subst hq
          refine .inr (.inr ⟨Nat.le_refl _, ?_⟩)
          show (update s.plans s.next _ s.next).history = [] ∧
            (update s.plans s.next _ s.next).status = .active
          rw [update_self]
          exact ⟨rfl, rfl⟩
        · exact .inl (hnew q hq)
      · show (update s.plans s.next _ q).collaborative = false →
          (update s.plans s.next _ q).Unseen t
        by_cases hqn : q = s.next
        · subst hqn
          rw [update_self]
          nofun
        · rw [hnew q hqn]
          exact (h.idle q hq).2

/-- The plan is there, with these keys unless it is collaborative. -/
def Keyed (p : Nat) (keys : List (Nat × Bool × Option String)) (s : PlanStore) : Prop :=
  p < s.next ∧ Plainly (fun plan => plan.keys = keys) (s.plans p)

variable {keys : List (Nat × Bool × Option String)}

theorem Keyed.moves {p u : Nat} (h : Keyed p keys s)
    (hm : EngineMoves u s s') : Keyed p keys s' := by
  refine ⟨Nat.lt_of_lt_of_le h.1 hm.next, fun hplain => ?_⟩
  rcases hm.plans p with hsame | ⟨-, hdrives⟩ | ⟨hge, -⟩
  · rw [hsame] at hplain ⊢
    exact h.2 hplain
  · rw [hdrives.keys]
    apply h.2
    rw [← collaborative_congr hdrives.keys]
    exact hplain
  · have hlt := h.1
    omega

theorem Keyed.stable {p : Nat} : engine.Stable t (Keyed p keys) := by
  rintro s s' - - (⟨u, -, hm⟩ | ⟨hnext, -, hplans⟩) h
  · exact h.moves hm
  · refine ⟨by rw [hnext]; exact h.1, fun hplain => ?_⟩
    rcases hplans p with hsame | hcollab
    · rw [hsame] at hplain ⊢
      exact h.2 hplain
    · rw [hcollab] at hplain
      cases hplain

theorem EngineMoves.lock {p : Nat} {d : Option Nat}
    (hd : s.driver p = none ∧ d = some t ∨ s.driver p = some t ∧ d = none) :
    EngineMoves t s { s with driver := update s.driver p d } := by
  refine ⟨Nat.le_refl _, fun _ => .inl rfl, fun q => ?_⟩
  show update s.driver p d q = s.driver q ∨ _
  by_cases hq : q = p
  · subst hq
    show _ ∨ (s.driver q = none ∧ update s.driver q d q = some t) ∨
      (s.driver q = some t ∧ update s.driver q d q = none)
    rw [update_self]
    exact .inr hd
  · exact .inl (update_of_ne hq _ _)

/-- **`release`**: the call holds one lock less. -/
theorem release_ensures {p : Nat} (hp : p ∉ held) {E : Stop → PlanStore → Prop} :
    engine.Ensures t (release p) (Holding t (p :: held) visited)
      (fun _ => Holding t held visited) E := by
  have hstable := @Holding.stable t held visited
  unfold release Task.modify
  refine .act (fun _ => hstable) fun s hi h => ?_
  have hown := h.held p mem_cons_self
  have hdriver : ∀ q, q ≠ p → update s.driver p none q = s.driver q :=
    fun q hq => update_of_ne hq _ _
  refine ⟨hi, EngineMoves.lock (.inr ⟨hown.1, rfl⟩), fun q hq => ⟨?_, ?_⟩, h.known, fun q hq => ?_⟩
  · show update s.driver p none q = some t
    rw [hdriver q fun heq => hp (heq ▸ hq)]
    exact (h.held q (mem_cons_of_mem _ hq)).1
  · exact (h.held q (mem_cons_of_mem _ hq)).2
  · show update s.driver p none q ≠ some t ∧ _
    rw [hdriver q fun heq => hq (heq ▸ hown.2)]
    exact h.idle q hq

/-- **`acquireDriver`**: the call holds one more lock, of a plan it has not touched. -/
theorem acquireDriver_ensures {p : Nat} :
    engine.Ensures t (acquireDriver t p) (Known t held visited p)
      (fun driving => if driving = true then Own t (p :: held) (p :: visited) p (Plan.Unseen t)
        else Holding t held visited) fun _ => Holding t held visited := by
  have hmem : p ∈ p :: held := mem_cons_self
  refine .bind (Q := fun free => if free = true then
      fun s => Own t (p :: held) (p :: visited) p (Plan.Unseen t) s ∧
        p ∉ visited ∧ ∀ q ∈ held, q ∈ visited
      else Holding t held visited) ?_ fun free => ?_
  · refine .act (fun free => ?_) fun s hi h => ?_
    · cases free with
      | true => exact .and (Own.stable hmem _) fun _ _ _ _ _ hnot => hnot
      | false => exact .stable
    · obtain ⟨hold, hnot, hlt⟩ := h
      by_cases hfree : s.driver p = none
      · simp only [hfree, if_true]
        have hdriver : ∀ q, q ≠ p → update s.driver p (some t) q = s.driver q :=
          fun q hq => update_of_ne hq _ _
        refine ⟨hi, EngineMoves.lock (.inl ⟨hfree, rfl⟩), ⟨⟨fun q hq => ?_, fun q hq => ?_,
          fun q hq => ?_⟩, (hold.idle p hnot).2⟩, hnot, fun q hq => (hold.held q hq).2⟩
        · rcases mem_cons.mp hq with rfl | hq
          · exact ⟨update_self .., mem_cons_self⟩
          · have hqp : q ≠ p := fun heq => hnot (heq ▸ (hold.held q hq).2)
            refine ⟨?_, mem_cons_of_mem _ (hold.held q hq).2⟩
            show update s.driver p (some t) q = some t
            rw [hdriver q hqp]
            exact (hold.held q hq).1
        · rcases mem_cons.mp hq with rfl | hq
          · exact hlt
          · exact hold.known q hq
        · have hqp : q ≠ p := fun heq => hq (heq ▸ mem_cons_self)
          show update s.driver p (some t) q ≠ some t ∧ _
          rw [hdriver q hqp]
          exact hold.idle q fun hin => hq (mem_cons_of_mem _ hin)
      · simp only [hfree, if_false]
        exact ⟨hi, engine.refl t s, hold⟩
  · split
    · refine .of_pure fun ⟨hnot, hsub⟩ => ?_
      refine .bind (ask_ensures (Own.stable hmem _)) fun lease => ?_
      split
      · exact .pure fun _ _ h => h
      · refine .bind (Q := fun _ => Holding t held visited) ?_ fun _ => ?_
        · -- the lease was refused: the lock is given back
          refine .act (fun _ => @Holding.stable t held visited) fun s hi h => ?_
          obtain ⟨hold, hunseen⟩ := h
          have hown := hold.held p hmem
          have hdriver : ∀ q, q ≠ p → update s.driver p none q = s.driver q :=
            fun q hq => update_of_ne hq _ _
          refine ⟨hi, EngineMoves.lock (.inr ⟨hown.1, rfl⟩), fun q hq => ⟨?_, ?_⟩,
            fun q hq => hold.known q (mem_cons_of_mem _ hq), fun q hq => ⟨?_, ?_⟩⟩
          · show update s.driver p none q = some t
            rw [hdriver q fun heq => hnot (heq ▸ hsub q hq)]
            exact (hold.held q (mem_cons_of_mem _ hq)).1
          · exact hsub q hq
          · show update s.driver p none q ≠ some t
            by_cases hqp : q = p
            · subst hqp
              rw [update_self]
              nofun
            · rw [hdriver q hqp]
              exact (hold.idle q fun hin => (mem_cons.mp hin).elim hqp hq).1
          · by_cases hqp : q = p
            · subst hqp
              exact hunseen
            · exact (hold.idle q fun hin => (mem_cons.mp hin).elim hqp hq).2
        · exact .pure fun _ _ h => h
    · exact .pure fun _ _ h => h

/-! ## §4. The calls -/

section

variable {cfg : PlanEngineConfig} {ctx : Bool} {p : Nat}

/-- The call still holds its locks; without a context it has touched no other plan. -/
def Still (t : Nat) (ctx : Bool) (held visited : List Nat) (s : PlanStore) : Prop :=
  ∃ visited', (ctx = false → visited' = visited) ∧ Holding t held visited' s

theorem Holding.still (h : Holding t held visited s) : Still t ctx held visited s :=
  ⟨visited, fun _ => rfl, h⟩

theorem Still.stable : engine.Stable t (Still t ctx held visited) := by
  rintro s s' hi hi' hr ⟨visited', hsame, h⟩
  exact ⟨visited', hsame, (h.rely hr).1⟩

variable {plan : Plan} {E : Stop → PlanStore → Prop} {drive : Option (Nat → EngineTask Unit)}

/-- **A re-plan**, given what the driving of the new plan keeps. -/
theorem replan_ensures {n : Nat} (hdrive : ∀ run, drive = some run → ∀ child,
      engine.Ensures t (run child) (Known t held visited child)
        (fun _ => Still t ctx held visited) fun _ => Still t ctx held visited) :
    engine.Ensures t (replan cfg p plan n drive) (Holding t held visited)
      (fun _ => Still t ctx held visited) fun _ => Still t ctx held visited := by
  cases drive with
  | none => exact .pure fun _ _ h => h.still
  | some run =>
    refine .catching (E := fun _ => Still t ctx held visited) ?_ fun e => ?_
    · refine .bind (Q := fun created => Known t held visited created.1)
        (Ensures.weaken createPlan_ensures (fun _ _ _ h => h)
          fun _ _ _ h => h.still) fun created => ?_
      have hemit : ∀ c, engine.Ensures t (emitAlone p none c)
          (Known t held visited created.1) (fun _ => Known t held visited created.1)
          fun _ => Still t ctx held visited := fun c =>
        Ensures.weaken (emitAlone_ensures Known.stable) (fun _ _ _ h => h) fun _ _ _ h => h.1.still
      refine .bind (hemit _) fun _ => ?_
      refine .bind (Q := fun _ => Known t held visited created.1) ?_ fun _ => ?_
      · unfold emitTruncated
        split
        · exact hemit _
        · exact .pure fun _ _ h => h
      · refine .bind (hdrive run rfl created.1) fun _ => ?_
        exact .pure fun _ _ h => h
    · cases e with
      | returned => exact .throw fun _ _ h => h
      | thrown => exact .pure fun _ _ h => h

theorem afterSteps_ensures {n : Nat} (hdrive : ∀ run, drive = some run → ∀ child,
      engine.Ensures t (run child) (Known t held visited child)
        (fun _ => Still t ctx held visited) fun _ => Still t ctx held visited) (ended : Ended) :
    engine.Ensures t (afterSteps cfg p plan n drive ended) (Holding t held visited)
      (fun _ => Still t ctx held visited) fun _ => Still t ctx held visited := by
  have hstable := @Holding.stable t held visited
  cases ended with
  | stopped => exact .pure fun _ _ h => h.still
  | finished =>
    unfold afterSteps
    dsimp only
    split
    · refine .bind (ask_ensures hstable) fun _ => ?_
      exact .weaken (emitAlone_ensures hstable) (fun _ _ _ h => h.still) fun _ _ _ h => h.still
    · exact .pure fun _ _ h => h.still
  | retryable =>
    refine .bind (replan_ensures hdrive) fun replaced => ?_
    split
    · exact .pure fun _ _ h => h
    · exact emitAlone_ensures Still.stable

theorem Plan.Unseen.ahead (h : plan.Unseen t) (hkeys : plan.keys = keys) : Ahead t keys 0 plan :=
  ⟨hkeys, fun j hj => absurd hj (Nat.not_lt_zero j),
    fun _ _ key _ found optional hmem => h.clear key.1 found optional hmem⟩

theorem release_still {p : Nat} (hp : p ∉ held) :
    engine.Ensures t (release p) (Still t ctx (p :: held) visited)
      (fun _ => Still t ctx held visited) E := by
  refine .mono (Ensures.of_exists fun visited' =>
    Ensures.of_pure fun hsame : ctx = false → visited' = visited =>
      Ensures.weaken (release_ensures hp) (fun _ _ _ h => ⟨visited', hsame, h⟩) fun _ _ _ h => h) ?_
  rintro s - ⟨visited', hsame, h⟩
  exact ⟨visited', h, hsame⟩

variable {body : EngineTask Unit}

/-- **What is done under a lock**: the lock is taken, the body keeps it, and it is released
    whichever way the body ends. -/
theorem locked_ensures {p : Nat} {F : PlanStore → Prop}
    (hmoves : ∀ s s', EngineMoves t s s' → F s → F s') (hF : engine.Stable t F)
    (hbody : engine.Ensures t body
      (fun s => Own t (p :: held) (p :: visited) p (Plan.Unseen t) s ∧ F s)
      (fun _ => Still t ctx (p :: held) (p :: visited))
      fun _ => Still t ctx (p :: held) (p :: visited)) :
    engine.Ensures t (do
        let driving ← acquireDriver t p
        if driving = true then Task.andFinally body (release p) else emitAlone p none .plan_busy)
      (fun s => Known t held visited p s ∧ F s)
      (fun _ s => Still t ctx held (p :: visited) s ∨ Holding t held visited s)
      fun _ s => Still t ctx held (p :: visited) s ∨ Holding t held visited s := by
  refine .mono (L := fun s => (Known t held visited p s ∧ F s) ∧ p ∉ held)
    (Ensures.of_pure fun hp => ?_) fun s _ h => ⟨h, fun hin => h.1.2.1 (h.1.1.held p hin).2⟩
  refine .bind (Q := fun driving s => (if driving = true then
      Own t (p :: held) (p :: visited) p (Plan.Unseen t) else Holding t held visited) s ∧ F s)
    (Ensures.weaken (Ensures.frame (fun s s' _ _ => hmoves s s') hF
      acquireDriver_ensures) (fun _ _ _ h => h) fun _ _ _ h => .inr h.1) fun driving => ?_
  cases driving with
  | true =>
    exact .andFinally hbody
      (fun _ => .weaken (release_still hp) (fun _ _ _ h => .inl h) fun _ _ _ h => h)
      fun _ => .weaken (release_still hp) (fun _ _ _ h => .inl h) fun _ _ _ h => h
  | false =>
    refine .mono ?_ fun s _ h => h.1
    exact .weaken (emitAlone_ensures Holding.stable) (fun _ _ _ h => .inr h) fun _ _ _ h => .inr h

/-- **The new plan of a re-plan**, given what the driving under its lock keeps. -/
theorem driveNew_ensures {run : Nat → Plan → EngineTask Unit} {child : Nat}
    (hrun : ∀ new : Plan, engine.Ensures t (run child new)
      (Own t (child :: held) (child :: visited) child (Ahead t new.keys 0))
      (fun _ => Still t true (child :: held) (child :: visited))
      fun _ => Still t true (child :: held) (child :: visited)) :
    engine.Ensures t (driveNew t run child) (Known t held visited child)
      (fun _ => Still t true held visited) fun _ => Still t true held visited := by
  have hend : ∀ s, Still t true held (child :: visited) s ∨ Holding t held visited s →
      Still t true held visited s := by
    rintro s (⟨visited', -, h⟩ | h)
    · exact ⟨visited', nofun, h⟩
    · exact h.still
  -- the new plan is read before its lock is taken; its keys stay
  refine .bind (Q := fun new s => Known t held visited child s ∧
      Keyed child new.keys s) ?_ fun new => ?_
  · refine Ensures.read (fun new => Known.stable.and Keyed.stable) fun s _ h => ?_
    exact ⟨h, h.2.2, fun _ => rfl⟩
  · refine .bind (Ensures.weaken
      (emitAlone_ensures (Known.stable.and Keyed.stable)) (fun _ _ _ h => h)
      fun _ _ _ h => h.1.1.still) fun _ => ?_
    refine .weaken (locked_ensures (fun s s' hm h => h.moves hm) Keyed.stable
      (Ensures.mono (hrun new) ?_)) (fun _ s _ h => hend s h) fun _ s _ h => hend s h
    rintro s - ⟨⟨hold, hunseen⟩, -, hkeys⟩
    exact ⟨hold, fun hplain => (hunseen hplain).ahead (hkeys hplain)⟩

/-- **`runSteps`** keeps the locks the call holds. -/
theorem runSteps_ensures (n : Nat) {start : Nat} (hp : p ∈ held) :
    engine.Ensures t (runSteps cfg t ctx n p plan start)
      (Own t held visited p (Ahead t plan.keys start))
      (fun _ => Still t ctx held visited) fun _ => Still t ctx held visited := by
  have hdrive : ∀ {p : Nat} {held visited : List Nat} {plan : Plan} {start : Nat}, p ∈ held →
      engine.Ensures t ((driveSteps cfg t p (stepsFrom plan start)).on (planPart p))
        (Own t held visited p (Ahead t plan.keys start)) (fun _ => Holding t held visited)
        fun _ => Still t ctx held visited := fun hp =>
    Ensures.weaken ((driveSteps_driven _ rfl).on hp) (fun _ _ _ h => h.1) fun _ _ _ h => h.still
  induction n generalizing p plan start held visited with
  | zero =>
    refine .bind (hdrive hp) fun ended => ?_
    exact afterSteps_ensures (fun _ h => by cases h) ended
  | succ n ih =>
    refine .bind (hdrive hp) fun ended => ?_
    refine afterSteps_ensures (fun run hrun child => ?_) ended
    cases ctx with
    | false => cases hrun
    | true =>
      cases hrun
      exact driveNew_ensures fun new => ih mem_cons_self

/-- **`resumeLeased`** of a plan whose steps no receipt forbids to delegate. -/
theorem resumeLeased_ensures (hp : p ∈ held) :
    engine.Ensures t (resumeLeased cfg t p ctx) (Own t held visited p (Plan.Clear t))
      (fun _ => Still t ctx held visited) fun _ => Still t ctx held visited := by
  refine .bind (Q := fun plan =>
      Own t held visited p (Ahead t plan.keys plan.current_step_index)) ?_ fun plan => ?_
  · refine .read (fun plan => Own.stable hp _) fun s hi h => ?_
    refine ⟨h.1, fun hplain => ⟨rfl, (hi p hplain).before, fun _ _ key _ found optional hmem => ?_⟩⟩
    exact h.2 hplain key.1 found optional hmem
  · split
    · exact runSteps_ensures _ hp
    · exact .pure fun _ _ h => h.1.still

theorem getPlan_ensures : engine.Ensures t (Task.read fun s => s.getPlan p) (Holding t [] [])
      (fun found => if found.isSome then Known t [] [] p else Holding t [] []) E := by
  refine .read (fun found => ?_) fun s _ h => ?_
  · split
    · exact .stable
    · exact .stable
  · unfold PlanStore.getPlan
    split
    · next hlt => exact ⟨h, not_mem_nil, hlt⟩
    · exact h

/-- How a call ends is nobody's business. -/
abbrev Keeps (t : Nat) {α : Type} (x : EngineTask α) (L : PlanStore → Prop) : Prop :=
  engine.Ensures t x L (fun _ _ => True) fun _ _ => True

theorem Keeps.of_ensures {x : EngineTask α} {Q : α → PlanStore → Prop}
    (h : engine.Ensures t x L Q E) : Keeps t x L :=
  Ensures.weaken h (fun _ _ _ _ => trivial) fun _ _ _ _ => trivial

theorem locked_keeps (hbody : engine.Ensures t body (Own t [p] [p] p (Plan.Unseen t))
      (fun _ => Still t ctx [p] [p]) fun _ => Still t ctx [p] [p]) :
    Keeps t (do
        let driving ← acquireDriver t p
        if driving = true then Task.andFinally body (release p) else emitAlone p none .plan_busy)
      (Known t [] [] p) := by
  refine Keeps.of_ensures (Ensures.mono (locked_ensures (F := fun _ => True)
    (fun _ _ _ _ => trivial) Stable.true
    (Ensures.mono hbody fun _ _ h => h.1)) fun _ _ h => ⟨h, trivial⟩)

theorem executePlan_keeps : Keeps t (executePlan cfg t p ctx) (Holding t [] []) := by
  refine .bind getPlan_ensures fun found => ?_
  cases found with
  | none => exact .throw fun _ _ _ => trivial
  | some plan =>
    refine @locked_keeps t ctx p _ ?_
    have hp : p ∈ [p] := mem_cons_self
    refine .bind (Q := fun plan =>
        Own t [p] [p] p (Ahead t plan.keys plan.current_step_index)) ?_ fun plan => ?_
    · refine .read (fun plan => Own.stable hp _) fun s hi h => ?_
      refine ⟨h.1, fun hplain => ⟨rfl, (hi p hplain).before, fun _ _ key _ found opt hmem => ?_⟩⟩
      exact (h.2 hplain).clear key.1 found opt hmem
    · refine .bind (Ensures.weaken (emitAlone_ensures (Own.stable hp _))
        (fun _ _ _ h => h) fun _ _ _ h => h.1.still) fun _ => ?_
      exact runSteps_ensures _ hp

theorem resumePlan_keeps : Keeps t (resumePlan cfg t p ctx) (Holding t [] []) := by
  refine .bind getPlan_ensures fun found => ?_
  cases found with
  | none => exact .throw fun _ _ _ => trivial
  | some =>
    dsimp only
    split
    · exact .throw fun _ _ _ => trivial
    · refine @locked_keeps t ctx p _ (Ensures.mono
        (resumeLeased_ensures mem_cons_self) fun s _ h => ⟨h.1, fun hplain => ?_⟩)
      exact (h.2 hplain).clear

/-- **`recoverLeasedPlan`** of a plan the call has not touched. -/
theorem recoverLeasedPlan_ensures (hp : p ∈ held) :
    engine.Ensures t (recoverLeasedPlan cfg t p) (Own t held visited p (Plan.Unseen t))
      (fun _ => Still t false held visited) fun _ => Still t false held visited := by
  refine .bind (Ensures.weaken (recoverPlan_driven.on hp)
    (fun _ _ _ h => h) fun _ _ _ h => h.still) fun resumes => ?_
  split
  · next hresumes =>
    exact .mono (resumeLeased_ensures hp) fun s _ h =>
      ⟨h.1, fun hplain => h.2 hplain hresumes⟩
  · exact .pure fun _ _ h => h.1.still

theorem recoverPlans_keeps (plans : List Nat) (hnodup : plans.Nodup) :
    Keeps t (Task.forEach (fun plan_id => do
        let driving ← acquireDriver t plan_id
        if driving = true then
          Task.andFinally (recoverLeasedPlan cfg t plan_id) (release plan_id)
        else emitAlone plan_id none .plan_busy) plans)
      fun s => Holding t [] visited s ∧ (∀ q ∈ plans, q < s.next) ∧ ∀ q ∈ plans, q ∉ visited := by
  induction plans generalizing visited with
  | nil => exact .pure fun _ _ _ => trivial
  | cons q rest ih =>
    obtain ⟨hq, hrest⟩ := nodup_cons.mp hnodup
    have hmono : ∀ s s' : PlanStore, s.next ≤ s'.next → (∀ r ∈ rest, r < s.next) → ∀ r ∈ rest, r < s'.next :=
      fun s s' hle h r hr => Nat.lt_of_lt_of_le (h r hr) hle
    have hstable : engine.Stable t fun s => ∀ r ∈ rest, r < s.next := by
      rintro s s' - - (⟨u, -, hm⟩ | henv) h
      · exact hmono s s' hm.next h
      · exact hmono s s' (Nat.le_of_eq henv.1.symm) h
    refine .mono (L := fun s => (Known t [] visited q s ∧ ∀ r ∈ rest, r < s.next) ∧
        ∀ r ∈ rest, r ∉ visited) (Ensures.of_pure fun hfresh => ?_) fun s _ h => ?_
    · have hlocked : engine.Ensures t (do
            let driving ← acquireDriver t q
            if driving = true then
              Task.andFinally (recoverLeasedPlan cfg t q) (release q)
            else emitAlone q none .plan_busy)
          (fun s => Known t [] visited q s ∧ ∀ r ∈ rest, r < s.next)
          (fun _ s => ∃ visited', (Holding t [] visited' s ∧ (∀ r ∈ rest, r < s.next)) ∧
            ∀ r ∈ rest, r ∉ visited') fun _ _ => True := by
        refine .weaken (Ensures.frame (fun s s' _ _ hm => hmono s s' (EngineMoves.next hm)) hstable
          (Ensures.mono (locked_ensures (F := fun _ => True) (fun _ _ _ _ => trivial)
            Stable.true (Ensures.mono (recoverLeasedPlan_ensures
              mem_cons_self) fun _ _ h => h.1)) fun _ _ h => ⟨h, trivial⟩))
          (fun _ s _ h => ?_) fun _ _ _ _ => trivial
        obtain ⟨⟨visited', hsame, hold⟩ | hold, hlt⟩ := h
        · refine ⟨visited', ⟨hold, hlt⟩, fun r hr => ?_⟩
          rw [hsame rfl]
          rintro (_ | ⟨_, hin⟩)
          · exact hq hr
          · exact hfresh r hr hin
        · exact ⟨visited, ⟨hold, hlt⟩, hfresh⟩
      refine .bind hlocked fun _ => .of_exists fun visited' => ?_
      refine .mono (ih hrest) fun s _ h => ⟨h.1.1, h.1.2, h.2⟩
    · exact ⟨⟨⟨h.1, h.2.2 q mem_cons_self, h.2.1 q mem_cons_self⟩,
        fun r hr => h.2.1 r (mem_cons_of_mem _ hr)⟩,
        fun r hr => h.2.2 r (mem_cons_of_mem _ hr)⟩

theorem recoverDelegatedSteps_keeps {motebit_id : String} :
    Keeps t (recoverDelegatedSteps cfg t motebit_id) (Holding t [] []) := by
  unfold recoverDelegatedSteps
  split
  · refine .bind (Q := fun active s => (Holding t [] [] s ∧
      ∀ q ∈ active, q < s.next) ∧ active.Nodup) ?_ fun active => ?_
    · refine .read (fun active => ?_) fun s _ h => ⟨⟨h, fun q hq => ?_⟩, ?_⟩
      · refine .and (Stable.and Holding.stable ?_) fun _ _ _ _ _ h => h
        rintro s s' - - (⟨u, -, hm⟩ | henv) h q hq
        · exact Nat.lt_of_lt_of_le (h q hq) (EngineMoves.next hm)
        · rw [henv.1]
          exact h q hq
      · exact List.mem_range.mp (mem_filter.mp hq).1
      · exact List.Nodup.sublist filter_sublist nodup_range
    · refine .of_pure fun hnodup => ?_
      exact .mono (recoverPlans_keeps active hnodup) fun s _ h =>
        ⟨h.1, h.2, fun _ _ => not_mem_nil⟩
  · exact .pure fun _ _ _ => trivial

end

/-! ## §5. Every run -/

/-- **Every call keeps the plans sound**, in every interleaving. -/
theorem engine_verified : engine.Verified where
  init s hs := by
    obtain ⟨hfree, hplans⟩ := hs
    refine ⟨fun p hplain => ?_, fun t => ⟨nofun, nofun, fun p _ => ⟨?_, fun hplain => ?_⟩⟩⟩
    · obtain ⟨hbefore, hnone⟩ := hplans p hplain
      refine ⟨hbefore, ?_⟩
      rw [hnone]
      exact List.Pairwise.nil
    · rw [hfree]
      nofun
    · intro e he
      rw [(hplans p hplain).2] at he
      cases he
  env s s' hi henv := by
    refine ⟨fun p hplain => ?_, fun t h => (h.rely (.inr henv)).1⟩
    rcases henv.2.2 p with hsame | hcollab
    · rw [hsame] at hplain ⊢
      exact hi p hplain
    · rw [hcollab] at hplain
      cases hplain
  crash s s' hi hcrash := by
    obtain ⟨hnext, hplans, hfree⟩ := hcrash
    refine ⟨fun p => ?_, fun t h => ⟨nofun, nofun, fun p hp => ⟨?_, ?_⟩⟩⟩
    · rw [hplans]
      exact hi p
    · rw [hfree]
      nofun
    · rw [hplans]
      exact (h.idle p hp).2
  fresh t u s s' htu _ hm h := (h.rely (.inl ⟨u, Ne.symm htu, hm⟩)).1
  entry t x hx := by
    refine ⟨Holding.stable, ?_⟩
    cases hx with
    | create => exact Ensures.detach createPlan_ensures
    | execute => exact Ensures.detach executePlan_keeps
    | resume => exact Ensures.detach resumePlan_keeps
    | recover => exact Ensures.detach recoverDelegatedSteps_keeps

variable {c c' : Config PlanStore Req Resp}

/-- **No call delegates a step again that it found refused**, but for an optional step in a
    recovery. -/
theorem orderly_history (hreach : engineWorld.Reachable c) {p : Nat}
    (hplain : (c.store.plans p).collaborative = false) : Orderly (c.store.plans p).history :=
  (Protocol.sound engine_verified hreach p hplain).orderly

/-- **A plan that becomes completed has every step done.** -/
theorem completed_plan_done (hreach : engineWorld.Reachable c) (hstep : engineWorld.Step c c')
    {p : Nat} (hplain : (c'.store.plans p).collaborative = false)
    (hbefore : (c.store.plans p).status ≠ .completed)
    (hafter : (c'.store.plans p).status = .completed) : (c'.store.plans p).AllDone := by
  have hholds := Protocol.Holds.of_reachable engine_verified hreach
  rcases hholds.moved hstep with hsame | ⟨t, hm⟩ | henv | hcrash
  · rw [hsame] at hafter
    exact absurd hafter hbefore
  · rcases EngineMoves.plans hm p with hsame | ⟨-, hdrives⟩ | ⟨-, -, hactive⟩
    · rw [hsame] at hafter
      exact absurd hafter hbefore
    · rw [collaborative_congr hdrives.keys] at hplain
      exact (hdrives.moves hplain).completed hafter hbefore
    · rw [hactive] at hafter
      cases hafter
  · rcases henv.2.2 p with hsame | hcollab
    · rw [hsame] at hafter
      exact absurd hafter hbefore
    · rw [hcollab] at hplain
      cases hplain
  · rw [hcrash.2.1] at hafter
    exact absurd hafter hbefore

end Motebit.Planner
