/-
  Motebit.Policy.SpendRuns — WHAT A CEILING BOUNDS over a run of `tryConsume` calls.

  A run consumes under any grants, each with one ceiling throughout, with arbitrary amounts,
  counterparties, nonces and clock readings; the SQLite store may restart anywhere.  Beside the
  store the run keeps the actions it allowed, and `windowOf` reads the window off those alone:
  it opens with the first allowed action and again with each one that comes a window length
  after the opening.

  Main results: `Tracks.step`, `spend_bounded`, `rolling_window_bounded`.
-/

import Mathlib.Data.Real.Basic
import Motebit.Lib.Transition
import Motebit.Policy.BlastRadius

namespace Motebit.Policy

open Motebit.Lib List Function
open InMemoryGrantSpendStore GrantSpendState

/-! ## §1. Runs -/

/-- An action that was allowed. -/
structure Consumed where
  amount : Int
  counterparty : String
  nonce : Int
  now : ℚ
  deriving DecidableEq

/-- A store, and the actions it allowed each grant, newest first. -/
structure Metered (σ : Type) where
  store : σ
  allowed : String → List Consumed

/-- One step of a run. -/
inductive SpendAct
  | tryConsume (input : ConsumeInput)
  | restart
  deriving DecidableEq

/-- The action a call consumes, under its canonical counterparty. -/
def ConsumeInput.consumed (input : ConsumeInput) : Consumed where
  amount := input.action.amountMicro.safeInteger?.getD 0
  counterparty := (canonicalizeCounterparty input.action.counterparty).getD ""
  nonce := input.nonce
  now := input.now

section

variable {σ : Type} (tryConsume : σ → ConsumeInput → BlastRadiusDecision × σ)

/-- A call, its answer recorded. -/
def Metered.act (s : Metered σ) : SpendAct → Metered σ
  | .tryConsume input =>
    match tryConsume s.store input with
    | (.allowed _, store) =>
      ⟨store, update s.allowed input.grantId (input.consumed :: s.allowed input.grantId)⟩
    | (.denied .., store) => ⟨store, s.allowed⟩
  | .restart => s

/-- Runs from an empty store under fixed ceilings, whose calls meet `cond`. -/
def spendSystem (init : σ) (restarts : Bool) (ceilings : String → GrantSpendCeiling)
    (cond : Metered σ → ConsumeInput → Prop) : System (Metered σ) SpendAct where
  init := ⟨init, fun _ => []⟩
  enabled s
    | .tryConsume input => input.ceiling = ceilings input.grantId ∧ cond s input
    | .restart => restarts = true
  apply := Metered.act tryConsume

end

/-- Runs of `InMemoryGrantSpendStore`, which does not survive a restart. -/
def inMemorySystem (ceilings : String → GrantSpendCeiling)
    (cond : Metered InMemoryGrantSpendStore → ConsumeInput → Prop) :
    System (Metered InMemoryGrantSpendStore) SpendAct :=
  spendSystem InMemoryGrantSpendStore.tryConsume (fun _ => none) false ceilings cond

/-- Runs of `SqliteGrantSpendStore`; a restart finds the table as it was. -/
def sqliteSystem (ceilings : String → GrantSpendCeiling)
    (cond : Metered SqliteGrantSpendStore → ConsumeInput → Prop) :
    System (Metered SqliteGrantSpendStore) SpendAct :=
  spendSystem SqliteGrantSpendStore.tryConsume (fun _ => none) true ceilings cond

/-- The ceiling was read off a grant. -/
def Admitted (ceiling : GrantSpendCeiling) : Prop :=
  ∃ wire, spendCeilingFromGrant wire = .ok (some ceiling)

/-! ## §2. The window -/

/-- The window the allowed actions (newest first) leave open: when it opened, and what was
    allowed since. -/
def windowOf (length : Option ℚ) : List Consumed → Option (ℚ × List Consumed)
  | [] => none
  | a :: older =>
    match windowOf length older with
    | none => some (a.now, [a])
    | some (start, since) =>
      if length.any fun w => decide (start + w ≤ a.now) then some (a.now, [a])
      else some (start, a :: since)

def sinceOpened (length : Option ℚ) (allowed : List Consumed) : List Consumed :=
  ((windowOf length allowed).map Prod.snd).getD []

def total (actions : List Consumed) : Int := sumWhere (fun _ => true) Consumed.amount actions

def totalTo (cp : String) (actions : List Consumed) : Int :=
  sumWhere (fun a => a.counterparty == cp) Consumed.amount actions

/-- A limit that is set is a non-negative safe integer and covers `n`. -/
def Within (n : Int) (limit : Option JsValue) : Prop :=
  ∀ v, limit = some v → ∃ l, v.nonNegativeSafeInteger? = some l ∧ n ≤ l

/-- **What a ceiling bounds**: the life total, the window's sums and counts, and each
    counterparty's part of it; the counters are those sums, and nonces increase. -/
structure Bounded (ceiling : GrantSpendCeiling) (state : Option GrantSpendState)
    (allowed : List Consumed) : Prop where
  lifetime : Within (total allowed) ceiling.lifetimeLimitMicro
  nonces : allowed.Pairwise fun newer older => older.nonce < newer.nonce
  counters : ∀ st, state = some st →
    st.windowSpentMicro = total (sinceOpened ceiling.window allowed) ∧
    st.windowActionCount = (sinceOpened ceiling.window allowed).length ∧
    st.lifetimeSpentMicro = total allowed
  cumulative : Within (total (sinceOpened ceiling.window allowed)) ceiling.cumulativeLimitMicro
  actions : Within (sinceOpened ceiling.window allowed).length ceiling.maxActionCount
  perCounterparty : ∀ cp, Within (totalTo cp (sinceOpened ceiling.window allowed))
    ceiling.perCounterpartyLimitMicro

/-! ## §3. The invariant -/

def Covers (n : Int) (limit : Option JsValue) : Prop :=
  ∀ v l, limit = some v → v.nonNegativeSafeInteger? = some l → n ≤ l

/-- The store's state of a grant and the actions it allowed. -/
inductive Tracks (ceiling : GrantSpendCeiling) : Option GrantSpendState → List Consumed → Prop
  | fresh : Tracks ceiling none []
  | running (st : GrantSpendState) (allowed since : List Consumed)
      (hwindow : windowOf ceiling.window allowed = some (st.windowStartedAt, since))
      (hspent : st.windowSpentMicro = total since)
      (hcount : st.windowActionCount = since.length)
      (hlifetime : st.lifetimeSpentMicro = total allowed)
      (hnonce : ∀ a ∈ allowed, a.nonce ≤ st.highWaterNonce)
      (hincreasing : allowed.Pairwise fun newer older => older.nonce < newer.nonce)
      (hcp : ∀ cp, cp ∉ Js.objectPrototype → st.cpSpent cp = .micro (totalTo cp since))
      (hlife : Covers (total allowed) ceiling.lifetimeLimitMicro)
      (hcum : Covers (total since) ceiling.cumulativeLimitMicro)
      (hact : Covers since.length ceiling.maxActionCount)
      (hper : ∀ cp, cp ∉ Js.objectPrototype →
        Covers (totalTo cp since) ceiling.perCounterpartyLimitMicro) :
      Tracks ceiling (some st) allowed

@[simp] theorem total_cons (a : Consumed) (actions : List Consumed) :
    total (a :: actions) = a.amount + total actions := by
  simp [total]

theorem totalTo_cons (cp : String) (a : Consumed) (actions : List Consumed) :
    totalTo cp (a :: actions)
      = (if a.counterparty = cp then a.amount else 0) + totalTo cp actions := by
  simp [totalTo]

theorem cpSpent_spend (st : GrantSpendState) (amt : Int) (cp : String) (nonce : Int)
    (cp' : String) : (st.spend amt cp nonce).cpSpent cp'
      = if cp' = cp then (st.cpSpent cp).add amt else st.cpSpent cp' := by
  unfold cpSpent spend PerCounterparty.get
  rw [PerCounterparty.own_set]
  by_cases hcp : cp' = cp
  · simp [hcp, cpSpent, PerCounterparty.get]
  · simp [hcp]

theorem cpSpent_empty {st : GrantSpendState} (h : st.perCounterpartyMicro = .empty) {cp : String}
    (hcp : cp ∉ Js.objectPrototype) : st.cpSpent cp = .micro 0 := by
  unfold cpSpent PerCounterparty.get
  rw [h]
  simp [PerCounterparty.own, PerCounterparty.empty, hcp]

theorem nonNegativeSafeInteger?_nonneg {v : JsValue} {l : Int}
    (h : v.nonNegativeSafeInteger? = some l) : 0 ≤ l := by
  obtain ⟨-, hnn⟩ := Option.filter_eq_some_iff.mp h
  simpa using hnn

variable {ceiling : GrantSpendCeiling} {ceilings : String → GrantSpendCeiling}
  {s : Metered InMemoryGrantSpendStore} {allowed : List Consumed}

/-- The state a call evaluates, rolled if its window is over, tracks the window the call's
    own action extends. -/
theorem Tracks.rolled {states : InMemoryGrantSpendStore}
    {input : ConsumeInput} (h : Tracks ceiling (states input.grantId) allowed) :
    let st := (stateFor states input).rolled ceiling input.now
    ∃ since, windowOf ceiling.window (input.consumed :: allowed)
        = some (st.windowStartedAt, input.consumed :: since) ∧
      st.windowSpentMicro = total since ∧ st.windowActionCount = since.length ∧
      st.lifetimeSpentMicro = total allowed ∧ (∀ a ∈ allowed, a.nonce ≤ st.highWaterNonce) ∧
      (allowed.Pairwise fun newer older => older.nonce < newer.nonce) ∧
      (∀ cp, cp ∉ Js.objectPrototype → st.cpSpent cp = .micro (totalTo cp since)) ∧
      ∀ cp, cp ∉ Js.objectPrototype →
        Covers (totalTo cp since) ceiling.perCounterpartyLimitMicro := by
  have hzero : ∀ cp, Covers (totalTo cp []) ceiling.perCounterpartyLimitMicro := by
    intro cp v l _ hvl
    exact nonNegativeSafeInteger?_nonneg hvl
  generalize hg : states input.grantId = stored at h
  cases h with
  | fresh =>
    have hst : stateFor states input = freshGrantSpendState input.grantId input.now := by
      simp [stateFor, hg]
    have hrolled : (stateFor states input).rolled ceiling input.now
        = freshGrantSpendState input.grantId input.now := by
      rw [hst]
      unfold rolled
      split <;> rfl
    rw [hrolled]
    refine ⟨[], rfl, rfl, rfl, rfl, by simp, List.Pairwise.nil, ?_, fun cp _ => hzero cp⟩
    intro cp hcp
    exact cpSpent_empty rfl hcp
  | running st _ since hwindow hspent hcount hlifetime hnonce hincreasing hcp hlife hcum hact
      hper =>
    have hst : stateFor states input = st := by simp [stateFor, hg]
    rw [hst]
    unfold GrantSpendState.rolled GrantSpendState.rolls
    have hnext : windowOf ceiling.window (input.consumed :: allowed)
        = if ceiling.window.any fun w => decide (st.windowStartedAt + w ≤ input.now) then
            some (input.now, [input.consumed])
          else some (st.windowStartedAt, input.consumed :: since) := by
      simp only [windowOf, hwindow]
      rfl
    by_cases hroll : (ceiling.window.any fun w => decide (st.windowStartedAt + w ≤ input.now)) = true
    · -- the window is over: the call meets an empty one
      rw [if_pos hroll] at hnext ⊢
      refine ⟨[], hnext, rfl, rfl, hlifetime, hnonce, hincreasing, ?_, fun cp _ => hzero cp⟩
      intro cp hcp'
      exact cpSpent_empty rfl hcp'
    · rw [if_neg hroll] at hnext ⊢
      exact ⟨since, hnext, hspent, hcount, hlifetime, hnonce, hincreasing, hcp, hper⟩

/-- **An allowed action extends what is tracked.** -/
theorem Tracks.allow {states : InMemoryGrantSpendStore}
    {input : ConsumeInput} (h : Tracks ceiling (states input.grantId) allowed) {amt : Int}
    {cp : String}
    (hpass : Passed ceiling (stateFor states input) input.action input.nonce input.now amt cp) :
    Tracks ceiling
      (some (((stateFor states input).rolled ceiling input.now).spend amt cp input.nonce))
      (input.consumed :: allowed) := by
  obtain ⟨since, hwindow, hspent, hcount, hlifetime, hnonce, hincreasing, hcps, hper⟩ := h.rolled
  have hamount : input.consumed.amount = amt := by simp [ConsumeInput.consumed, hpass.amount]
  have hcounterparty : input.consumed.counterparty = cp := by
    simp [ConsumeInput.consumed, hpass.counterparty]
  have hstate : ((stateFor states input).rolled ceiling input.now).lifetimeSpentMicro
        = (stateFor states input).lifetimeSpentMicro ∧
      ((stateFor states input).rolled ceiling input.now).highWaterNonce
        = (stateFor states input).highWaterNonce := by
    unfold GrantSpendState.rolled
    split <;> exact ⟨rfl, rfl⟩
  generalize hst : (stateFor states input).rolled ceiling input.now = st at *
  have hfresh : ∀ a ∈ allowed, a.nonce < input.nonce := by
    intro a ha
    have hle := hnonce a ha
    have hlt := hpass.fresh
    omega
  have hnew : ∀ cp', cp' ∉ Js.objectPrototype → (st.spend amt cp input.nonce).cpSpent cp'
        = .micro (totalTo cp' (input.consumed :: since)) := by
    intro cp' hcp'
    rw [cpSpent_spend, totalTo_cons, hcounterparty, hamount]
    by_cases heq : cp' = cp
    · subst heq
      rw [if_pos rfl, if_pos rfl, hcps cp' hcp']
      simp only [CpSpend.add]
      congr 1
      omega
    · have hne : ¬ cp = cp' := fun h => heq h.symm
      rw [if_neg heq, if_neg hne, hcps cp' hcp']
      simp
  refine .running _ _ (input.consumed :: since) hwindow ?_ ?_ ?_ ?_ ?_ hnew ?_ ?_ ?_ ?_
  · show st.windowSpentMicro + amt = _
    rw [total_cons, hamount, hspent]
    omega
  · show st.windowActionCount + 1 = _
    rw [hcount]
    simp
  · show st.lifetimeSpentMicro + amt = _
    rw [total_cons, hamount, hlifetime]
    omega
  · intro a ha
    show a.nonce ≤ input.nonce
    rcases mem_cons.mp ha with rfl | ha
    · exact Int.le_refl _
    · have hlt := hfresh a ha
      omega
  · exact pairwise_cons.mpr ⟨hfresh, hincreasing⟩
  · intro v l hv hvl
    have hle := hpass.lifetime v l hv hvl
    rw [total_cons, hamount]
    omega
  · intro v l hv hvl
    have hle := hpass.cumulative v l hv hvl
    rw [hst] at hle
    rw [total_cons, hamount]
    omega
  · intro v l hv hvl
    have hle := hpass.actions v l hv hvl
    rw [hst] at hle
    simp only [length_cons]
    omega
  · intro cp' hcp' v l hv hvl
    rw [totalTo_cons, hcounterparty, hamount]
    by_cases heq : cp = cp'
    · subst heq
      have hle := hpass.perCounterparty v l hv hvl
      rw [hst, hcps cp hcp'] at hle
      simp only [CpSpend.add, CpSpend.exceeds, decide_eq_false_iff_not] at hle
      rw [if_pos rfl]
      omega
    · have hle := hper cp' hcp' v l hv hvl
      rw [if_neg heq]
      omega

/-! ## §4. Runs keep it -/

def Tracked (ceilings : String → GrantSpendCeiling) (s : Metered InMemoryGrantSpendStore) : Prop :=
  ∀ g, Tracks (ceilings g) (s.store g) (s.allowed g)

/-- What a call of the in-memory store does: it allows an action that has passed, or changes
    nothing. -/
theorem inMemory_cases (states : InMemoryGrantSpendStore) (input : ConsumeInput) :
    (∃ remaining amt cp, Passed input.ceiling (stateFor states input) input.action input.nonce
        input.now amt cp ∧
      states.tryConsume input = (.allowed remaining, update states input.grantId
        (some (((stateFor states input).rolled input.ceiling input.now).spend amt cp
          input.nonce)))) ∨
    ∃ denial missing, states.tryConsume input = (.denied denial missing, states) := by
  unfold tryConsume
  cases heval : evaluateBlastRadius input.ceiling (stateFor states input) input.action input.nonce
      input.now with
  | denied denial missing => exact .inr ⟨denial, missing, rfl⟩
  | allowed remaining next =>
    obtain ⟨amt, cp, hpass, rfl⟩ := evaluate_allowed heval
    exact .inl ⟨remaining, amt, cp, hpass, rfl⟩

/-- **Every step keeps the tracks.** -/
theorem Tracked.act (h : Tracked ceilings s) (input : ConsumeInput)
    (hceiling : input.ceiling = ceilings input.grantId) :
    Tracked ceilings (s.act tryConsume (.tryConsume input)) := by
  unfold Metered.act
  dsimp only
  rcases inMemory_cases s.store input with ⟨remaining, amt, cp, hpass, heq⟩ | ⟨denial, missing, heq⟩
  · rw [heq]
    intro g
    by_cases hg : g = input.grantId
    · subst hg
      rw [hceiling] at hpass ⊢
      simpa using (h input.grantId).allow hpass
    · simpa [hg] using h g
  · rw [heq]
    exact h

variable {cond : Metered InMemoryGrantSpendStore → ConsumeInput → Prop}

theorem tracked_reachable
    (h : (inMemorySystem ceilings cond).Reachable s) : Tracked ceilings s := by
  refine System.Reachable.invariant (Tracked ceilings) (fun g => .fresh) ?_ h
  intro u a hu hen
  cases a with
  | tryConsume input => exact hu.act input hen.1
  | restart => exact hu

def Metered.states (s : Metered SqliteGrantSpendStore) : Metered InMemoryGrantSpendStore :=
  ⟨s.store.states, s.allowed⟩

/-- **The SQLite store's runs are the in-memory store's**, restarts and all. -/
theorem sqlite_reachable {s : Metered SqliteGrantSpendStore}
    (h : (sqliteSystem ceilings fun s input => cond s.states input).Reachable s) :
    (inMemorySystem ceilings cond).Reachable s.states := by
  have hinit : (inMemorySystem ceilings cond).Reachable
      (sqliteSystem ceilings fun s input => cond s.states input).init.states := .refl
  refine .map Metered.states hinit ?_ h
  intro s a hen
  cases a with
  | restart => exact .refl
  | tryConsume input =>
    have hstep : (s.act SqliteGrantSpendStore.tryConsume (.tryConsume input)).states
        = s.states.act tryConsume (.tryConsume input) := by
      obtain ⟨hdec, hstore⟩ := tryConsume_row s.store input
      unfold Metered.act Metered.states
      dsimp only
      rw [← Prod.mk.eta (p := s.store.tryConsume input)]
      rw [← Prod.mk.eta (p := tryConsume s.store.states input)]
      rw [← hdec, ← hstore]
      cases (s.store.tryConsume input).1 <;> rfl
    show (inMemorySystem ceilings cond).ReachableFrom s.states
      (s.act SqliteGrantSpendStore.tryConsume (.tryConsume input)).states
    rw [hstep]
    exact .step (SpendAct.tryConsume input) .refl hen

/-! ## §5. The bounds of a ceiling -/

theorem Admitted.limits (h : Admitted ceiling) :
    ∀ v, ceiling.cumulativeLimitMicro = some v ∨ ceiling.perCounterpartyLimitMicro = some v ∨
      ceiling.maxActionCount = some v ∨ ceiling.lifetimeLimitMicro = some v →
      ∃ l, v.nonNegativeSafeInteger? = some l := by
  obtain ⟨wire, hwire⟩ := h
  unfold spendCeilingFromGrant at hwire
  split at hwire
  · cases hwire
  next wire =>
  dsimp only at hwire
  split at hwire
  · cases hwire
  next hfind =>
  cases hwire
  intro v hv
  -- no field is malformed, or the search had found one
  have hnone : ∀ f : String × Option JsValue,
      f ∈ [("cumulative_limit_micro", ceiling.cumulativeLimitMicro),
        ("per_counterparty_limit_micro", ceiling.perCounterpartyLimitMicro),
        ("max_action_count", ceiling.maxActionCount),
        ("lifetime_limit_micro", ceiling.lifetimeLimitMicro),
        ("window_ms", ceiling.windowMs)] → f.2 = some v →
      ∃ l, v.nonNegativeSafeInteger? = some l := by
    intro f hf hfv
    cases hl : v.nonNegativeSafeInteger? with
    | some l => exact ⟨l, rfl⟩
    | none =>
      exfalso
      cases hsearch : List.find? (fun f : String × Option JsValue =>
          f.2.any fun v => v.nonNegativeSafeInteger?.isNone)
          [("cumulative_limit_micro", ceiling.cumulativeLimitMicro),
            ("per_counterparty_limit_micro", ceiling.perCounterpartyLimitMicro),
            ("max_action_count", ceiling.maxActionCount),
            ("lifetime_limit_micro", ceiling.lifetimeLimitMicro),
            ("window_ms", ceiling.windowMs)] with
      | none =>
        have hbad := find?_eq_none.mp hsearch f hf
        rw [hfv] at hbad
        simp [hl] at hbad
      | some found =>
        obtain ⟨field, value⟩ := found
        have hbad := find?_some hsearch
        cases value with
        | none => simp at hbad
        | some value => exact hfind field value hsearch
  rcases hv with hv | hv | hv | hv
  · exact hnone ("cumulative_limit_micro", ceiling.cumulativeLimitMicro) (by simp) hv
  · exact hnone ("per_counterparty_limit_micro", ceiling.perCounterpartyLimitMicro) (by simp) hv
  · exact hnone ("max_action_count", ceiling.maxActionCount) (by simp) hv
  · exact hnone ("lifetime_limit_micro", ceiling.lifetimeLimitMicro) (by simp) hv

theorem Covers.within {n : Int} {limit : Option JsValue} (h : Covers n limit)
    (hread : ∀ v, limit = some v → ∃ l, v.nonNegativeSafeInteger? = some l) : Within n limit := by
  intro v hv
  obtain ⟨l, hl⟩ := hread v hv
  exact ⟨l, hl, h v l hv hl⟩

theorem windowOf_append {length : Option ℚ} {allowed since : List Consumed} {start : ℚ}
    (h : windowOf length allowed = some (start, since)) : ∃ rest, allowed = since ++ rest := by
  induction allowed generalizing start since with
  | nil => cases h
  | cons a older ih =>
    unfold windowOf at h
    split at h
    · cases h
      exact ⟨older, rfl⟩
    next start' since' hold =>
    obtain ⟨rest, hrest⟩ := ih hold
    split at h
    · cases h
      exact ⟨older, rfl⟩
    · cases h
      exact ⟨rest, by rw [hrest]; rfl⟩

/-- What a tracked grant's ceiling bounds, when no counterparty it paid is an inherited
    member. -/
theorem Tracks.bounded {state : Option GrantSpendState}
    (h : Tracks ceiling state allowed) (hadm : Admitted ceiling)
    (hplain : ceiling.perCounterpartyLimitMicro = none ∨
      ∀ a ∈ allowed, a.counterparty ∉ Js.objectPrototype) : Bounded ceiling state allowed := by
  have hread := hadm.limits
  cases h with
  | fresh =>
    have hzero : ∀ limit, Covers 0 limit := fun limit v l _ hl => nonNegativeSafeInteger?_nonneg hl
    exact ⟨(hzero _).within fun v hv => hread v (by simp [hv]), .nil, by simp,
      (hzero _).within fun v hv => hread v (by simp [hv]),
      (hzero _).within fun v hv => hread v (by simp [hv]),
      fun cp => (hzero _).within fun v hv => hread v (by simp [hv])⟩
  | running st _ since hwindow hspent hcount hlifetime hnonce hincreasing hcp hlife hcum hact
      hper =>
    have hsince : sinceOpened ceiling.window allowed = since := by
      simp [sinceOpened, hwindow]
    refine ⟨hlife.within fun v hv => hread v (by simp [hv]), hincreasing, ?_, ?_, ?_, ?_⟩
    · rintro _ ⟨⟩
      rw [hsince]
      exact ⟨hspent, hcount, hlifetime⟩
    · rw [hsince]
      exact hcum.within fun v hv => hread v (by simp [hv])
    · rw [hsince]
      exact hact.within fun v hv => hread v (by simp [hv])
    · intro cp
      rw [hsince]
      refine Covers.within ?_ fun v hv => hread v (by simp [hv])
      by_cases hcp' : cp ∈ Js.objectPrototype
      · -- nothing was paid to an inherited member
        intro v l hv hl
        have hallowed : ∀ a ∈ allowed, a.counterparty ∉ Js.objectPrototype :=
          hplain.resolve_left (by rw [hv]; simp)
        have hnone : totalTo cp since = 0 := by
          refine sumWhere_eq_zero fun a ha hpaid => ?_
          obtain ⟨rest, hrest⟩ := windowOf_append hwindow
          have hmem : a ∈ allowed := by rw [hrest]; exact mem_append_left rest ha
          rw [beq_iff_eq] at hpaid
          exact absurd (hpaid ▸ hcp') (hallowed a hmem)
        rw [hnone]
        exact nonNegativeSafeInteger?_nonneg hl
      · exact hper cp hcp'

/-- Where the grant bounds a counterparty's part, the call pays none whose canonical form is
    a member every object inherits. -/
def AvoidsInherited {σ : Type} (ceilings : String → GrantSpendCeiling) (_ : Metered σ)
    (input : ConsumeInput) : Prop :=
  (ceilings input.grantId).perCounterpartyLimitMicro = none ∨
    ∀ cp, canonicalizeCounterparty input.action.counterparty = some cp → cp ∉ Js.objectPrototype

theorem avoids_reachable (h : (inMemorySystem ceilings (AvoidsInherited ceilings)).Reachable s)
    (g : String) : (ceilings g).perCounterpartyLimitMicro = none ∨
      ∀ a ∈ s.allowed g, a.counterparty ∉ Js.objectPrototype := by
  refine System.Reachable.invariant (fun s : Metered InMemoryGrantSpendStore =>
    (ceilings g).perCounterpartyLimitMicro = none ∨
      ∀ a ∈ s.allowed g, a.counterparty ∉ Js.objectPrototype) (.inr (by intro a ha; cases ha)) ?_ h
  intro u act hu hen
  cases act with
  | restart => exact hu
  | tryConsume input =>
    obtain ⟨-, havoid⟩ := hen
    show _ ∨ ∀ a ∈ (u.act tryConsume (.tryConsume input)).allowed g, _
    unfold Metered.act
    dsimp only
    rcases inMemory_cases u.store input with ⟨remaining, amt, cp, hpass, heq⟩ | ⟨denial, missing, heq⟩
    · rw [heq]
      by_cases hg : g = input.grantId
      · subst hg
        rcases havoid with hnone | havoid
        · exact .inl hnone
        · rcases hu with hnone | hu
          · exact .inl hnone
          · right
            intro a ha
            simp only [update_self, mem_cons] at ha
            rcases ha with rfl | ha
            · have hcp := havoid cp hpass.counterparty
              simpa [ConsumeInput.consumed, hpass.counterparty] using hcp
            · exact hu a ha
      · simpa [hg] using hu
    · rw [heq]
      exact hu

/-- **The ceiling bounds every run** of either store, and a denied call changes nothing. -/
theorem spend_bounded (ceilings : String → GrantSpendCeiling) (hadm : ∀ g, Admitted (ceilings g)) :
    (∀ s, (inMemorySystem ceilings (AvoidsInherited ceilings)).Reachable s → ∀ g,
      Bounded (ceilings g) (s.store g) (s.allowed g)) ∧
    (∀ s, (sqliteSystem ceilings (AvoidsInherited ceilings)).Reachable s → ∀ g,
      Bounded (ceilings g) (s.store.states g) (s.allowed g)) ∧
    (∀ (states : InMemoryGrantSpendStore) input denial missing,
      (states.tryConsume input).1 = .denied denial missing → (states.tryConsume input).2 = states) ∧
    ∀ (rows : SqliteGrantSpendStore) input denial missing,
      (rows.tryConsume input).1 = .denied denial missing → (rows.tryConsume input).2 = rows := by
  refine ⟨?_, ?_, ?_, ?_⟩
  · intro s h g
    exact (tracked_reachable h g).bounded (hadm g) (avoids_reachable h g)
  · intro s h g
    have hmem : (inMemorySystem ceilings (AvoidsInherited ceilings)).Reachable s.states :=
      sqlite_reachable h
    exact (tracked_reachable hmem g).bounded (hadm g) (avoids_reachable hmem g)
  · intro states input denial missing h
    unfold InMemoryGrantSpendStore.tryConsume at h ⊢
    dsimp only at h ⊢
    split at h
    · cases h
    · rfl
  · intro rows input denial missing h
    unfold SqliteGrantSpendStore.tryConsume at h ⊢
    dsimp only at h ⊢
    split at h
    · cases h
    · rfl

/-- A ceiling with every limit set. -/
def fullCeiling : GrantSpendCeiling :=
  ⟨some (.number 100), some (.number 5), some (.number 3), some (.number 500), some (.number 1000)⟩

/-- Two payments: the first opens the window, the second rolls it. -/
def twoWindows : List SpendAct :=
  [.tryConsume ⟨"g", fullCeiling, ⟨.number 5, " alice "⟩, 1, 0⟩, .restart,
    .tryConsume ⟨"g", fullCeiling, ⟨.number 4, "alice"⟩, 2, 1000⟩]

theorem spend_bounded_twoWindows :
    let s := (sqliteSystem (fun _ => fullCeiling) (AvoidsInherited fun _ => fullCeiling)).run
      ⟨fun _ => none, fun _ => []⟩ twoWindows
    sinceOpened fullCeiling.window (s.allowed "g") = [⟨4, "alice", 2, 1000⟩] ∧
    Bounded fullCeiling (s.store.states "g") (s.allowed "g") := by
  refine ⟨by decide +kernel,
    (spend_bounded (fun _ => fullCeiling) fun _ => ⟨some fullCeiling, by decide +kernel⟩).2.1 _
      (System.reachableFrom_run _ _ _ ?_) "g"⟩
  have halice : ∀ raw, canonicalizeCounterparty raw = some "alice" →
      ∀ cp, canonicalizeCounterparty raw = some cp → cp ∉ Js.objectPrototype := by
    intro raw hraw cp hcp
    rw [hraw] at hcp
    cases hcp
    decide +kernel
  exact ⟨⟨rfl, .inr (halice " alice " (by decide +kernel))⟩, rfl,
    ⟨rfl, .inr (halice "alice" (by decide +kernel))⟩, trivial⟩

/-- A payment of twice the counterparty's limit, to a name every object inherits. -/
def inheritedPayment : List SpendAct :=
  [.tryConsume ⟨"g", fullCeiling, ⟨.number 10, "toString"⟩, 1, 0⟩]

/-- **An inherited name has no limit**: 10 is paid to a counterparty held to 5. -/
theorem inherited_counterparty_unbounded :
    ∃ s, (inMemorySystem (fun _ => fullCeiling) fun _ _ => True).Reachable s ∧
      totalTo "toString" (sinceOpened fullCeiling.window (s.allowed "g")) = 10 ∧
      ¬ Bounded fullCeiling (s.store "g") (s.allowed "g") := by
  refine ⟨(inMemorySystem (fun _ => fullCeiling) fun _ _ => True).run ⟨fun _ => none, fun _ => []⟩
    inheritedPayment, System.reachableFrom_run _ _ _ ⟨⟨rfl, trivial⟩, trivial⟩, by decide +kernel,
    ?_⟩
  intro h
  obtain ⟨l, hl, hle⟩ := h.perCounterparty "toString" (.number 5) rfl
  have hfive : l = 5 := by
    exact (Option.some.inj hl).symm
  subst hfive
  revert hle
  decide +kernel

end Motebit.Policy
