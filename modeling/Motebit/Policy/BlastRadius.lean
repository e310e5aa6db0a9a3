/-
  Motebit.Policy.BlastRadius — THE SPEND CEILING OF A STANDING GRANT.

  Translated from `packages/policy/src/grant-blast-radius.ts` and `SqliteGrantSpendStore`
  (`packages/persistence/src/index.ts`): the ceiling read off a grant, the pure evaluator, and
  the two stores that commit what it allows.

  The spend by counterparty is kept in a plain JavaScript object, so a lookup also finds what
  the object inherits; `PerCounterparty.get` models that.  The JSON text a row keeps is
  represented by the entries it lists.

  Main results: `evaluate_allowed`, `parse_stringify`, `tryConsume_row`.
-/

import Mathlib.Data.Rat.Defs
import Motebit.Lib.Js
import Motebit.Lib.Table

namespace Motebit.Policy

open Motebit.Lib List Function

/-! ## §1. Values -/

/-- A value found where a number is expected. -/
inductive JsValue
  | number (q : ℚ)
  | infinity
  | negInfinity
  | nan
  | other
  deriving DecidableEq

def maxSafeInteger : Int := 2 ^ 53 - 1

def isSafeInteger (n : Int) : Bool := decide (-maxSafeInteger ≤ n) && decide (n ≤ maxSafeInteger)

def JsValue.safeInteger? : JsValue → Option Int
  | .number q => if q.den = 1 ∧ isSafeInteger q.num then some q.num else none
  | _ => none

def JsValue.nonNegativeSafeInteger? (v : JsValue) : Option Int :=
  v.safeInteger?.filter (0 ≤ ·)

def isHexDigit (c : Char) : Bool :=
  ('0' ≤ c && c ≤ '9') || ('a' ≤ c && c ≤ 'f') || ('A' ≤ c && c ≤ 'F')

/-- `/^0x[0-9a-fA-F]{40}$/`. -/
def isEvmAddress : List Char → Bool
  | '0' :: 'x' :: digits => digits.length == 40 && digits.all isHexDigit
  | _ => false

def canonicalizeCounterparty (raw : String) : Option String :=
  let t := Js.trim raw.toList
  if t = [] then none
  else if isEvmAddress t then some (String.ofList (t.map Char.toLower))
  else some (String.ofList t)

/-! ## §2. The spend by counterparty -/

/-- What is found under a counterparty: an amount, or the text an addition to something that
    is no number leaves. -/
inductive CpSpend
  | micro (n : Int)
  | text (s : String)
  deriving DecidableEq

def CpSpend.add : CpSpend → Int → CpSpend
  | .micro n, amt => .micro (n + amt)
  | .text s, amt => .text (s ++ toString amt)

/-- `newCp > limit`.  No text found here reads as a number, and NaN exceeds nothing. -/
def CpSpend.exceeds : CpSpend → Int → Bool
  | .micro n, limit => decide (limit < n)
  | .text _, _ => false

def CpSpend.headroom : CpSpend → Int → JsValue
  | .micro n, limit => .number (limit - n)
  | .text _, _ => .nan

/-- What an inherited member reads as when it is added to a number. -/
def inheritedText (name : String) : String :=
  if name = "__proto__" then "[object Object]"
  else if name = "constructor" then "function Object() { [native code] }"
  else "function " ++ name ++ "() { [native code] }"

/-- `per_counterparty_micro`: the object's own entries. -/
structure PerCounterparty where
  entries : List (String × CpSpend)
  nodup : (entries.map Prod.fst).Nodup

namespace PerCounterparty

/-- `{}`. -/
def empty : PerCounterparty := ⟨[], nodup_nil⟩

def own (o : PerCounterparty) (cp : String) : Option CpSpend :=
  (o.entries.find? fun e => e.1 == cp).map Prod.snd

/-- `o[cp]`: an own entry, else an inherited member, else nothing. -/
def get (o : PerCounterparty) (cp : String) : Option CpSpend :=
  match o.own cp with
  | some v => some v
  | none => if cp ∈ Js.objectPrototype then some (.text (inheritedText cp)) else none

def set (o : PerCounterparty) (cp : String) (v : CpSpend) : PerCounterparty :=
  ⟨upsertBy Prod.fst (cp, v) o.entries, nodup_upsertBy o.nodup⟩

theorem own_set (o : PerCounterparty) (cp cp' : String) (v : CpSpend) :
    (o.set cp v).own cp' = if cp' = cp then some v else o.own cp' := by
  unfold own set
  rw [find?_upsertBy]
  split <;> rfl

end PerCounterparty

/-! ## §3. Ceilings -/

/-- `GrantSpendCeiling`; an absent field is `undefined`. -/
structure GrantSpendCeiling where
  cumulativeLimitMicro : Option JsValue
  perCounterpartyLimitMicro : Option JsValue
  maxActionCount : Option JsValue
  lifetimeLimitMicro : Option JsValue
  windowMs : Option JsValue
  deriving DecidableEq

/-- A limit that is absent, or present and a non-negative safe integer; `none` is a malformed
    one. -/
def readLimit : Option JsValue → Option (Option Int)
  | none => some none
  | some v => v.nonNegativeSafeInteger?.map some

namespace GrantSpendCeiling

variable (ceiling : GrantSpendCeiling)

def hasWindowLimit : Bool :=
  ceiling.cumulativeLimitMicro.isSome || ceiling.perCounterpartyLimitMicro.isSome
    || ceiling.maxActionCount.isSome

def hasTotalBound : Bool :=
  ceiling.cumulativeLimitMicro.isSome || ceiling.lifetimeLimitMicro.isSome

def hasPositiveWindow : Bool :=
  match ceiling.windowMs with
  | some (.number q) => decide (0 < q)
  | some .infinity => true
  | _ => false

/-- The window length, where a window limit is set and the window ends at all. -/
def window : Option ℚ :=
  if ceiling.hasWindowLimit then
    match ceiling.windowMs with
    | some (.number q) => some q
    | _ => none
  else none

end GrantSpendCeiling

structure InvalidSpendCeilingError where
  field : String
  value : JsValue
  deriving DecidableEq

def spendCeilingFromGrant (wire : Option GrantSpendCeiling) :
    Except InvalidSpendCeilingError (Option GrantSpendCeiling) :=
  match wire with
  | none => .ok none
  | some wire =>
    let fields : List (String × Option JsValue) :=
      [("cumulative_limit_micro", wire.cumulativeLimitMicro),
        ("per_counterparty_limit_micro", wire.perCounterpartyLimitMicro),
        ("max_action_count", wire.maxActionCount),
        ("lifetime_limit_micro", wire.lifetimeLimitMicro),
        ("window_ms", wire.windowMs)]
    match fields.find? fun f => f.2.any fun v => v.nonNegativeSafeInteger?.isNone with
    | some (field, some value) => .error ⟨field, value⟩
    | _ => .ok (some wire)

/-! ## §4. The evaluator -/

structure GrantSpendState where
  grantId : String
  windowStartedAt : ℚ
  windowSpentMicro : Int
  windowActionCount : Int
  perCounterpartyMicro : PerCounterparty
  lifetimeSpentMicro : Int
  highWaterNonce : Int

def freshGrantSpendState (grantId : String) (now : ℚ) : GrantSpendState where
  grantId := grantId
  windowStartedAt := now
  windowSpentMicro := 0
  windowActionCount := 0
  perCounterpartyMicro := .empty
  lifetimeSpentMicro := 0
  highWaterNonce := -1

structure MoneyAction where
  amountMicro : JsValue
  counterparty : String
  deriving DecidableEq

inductive BlastRadiusDenial
  | ceilingAbsent | invalidAmount | invalidCounterparty | invalidCeiling | invalidWindow | replay
  | lifetimeExceeded | cumulativeExceeded | perCounterpartyExceeded | actionCountExceeded
  deriving DecidableEq

/-- The part of `AuthorityDelta` a denial names. -/
structure AuthorityDelta where
  spendOverageMicro : Option JsValue
  notBefore : Option JsValue
  deriving DecidableEq

/-- `remaining`: the headroom left. -/
structure Remaining where
  cumulativeMicro : Option Int
  lifetimeMicro : Option Int
  perCounterpartyMicro : Option JsValue
  actions : Option Int
  deriving DecidableEq

inductive BlastRadiusDecision
  | denied (denial : BlastRadiusDenial) (missingAuthority : Option AuthorityDelta)
  | allowed (remaining : Remaining)
  deriving DecidableEq

/-- `BlastRadiusEvaluation`: a state to commit comes with an allowed decision only. -/
inductive BlastRadiusEvaluation
  | denied (denial : BlastRadiusDenial) (missingAuthority : Option AuthorityDelta)
  | allowed (remaining : Remaining) (nextState : GrantSpendState)

namespace GrantSpendState

/-- Whether the window rolls: forward only. -/
def rolls (ceiling : GrantSpendCeiling) (state : GrantSpendState) (now : ℚ) : Bool :=
  ceiling.window.any fun w => decide (state.windowStartedAt + w ≤ now)

/-- The state a call meets, its window rolled if it is over. -/
def rolled (ceiling : GrantSpendCeiling) (state : GrantSpendState) (now : ℚ) : GrantSpendState :=
  if state.rolls ceiling now then
    { state with
      windowStartedAt := now, windowSpentMicro := 0, windowActionCount := 0
      perCounterpartyMicro := .empty }
  else state

def cpSpent (state : GrantSpendState) (cp : String) : CpSpend :=
  (state.perCounterpartyMicro.get cp).getD (.micro 0)

/-- The state an allowed action commits. -/
def spend (state : GrantSpendState) (amt : Int) (cp : String) (nonce : Int) : GrantSpendState :=
  { state with
    windowSpentMicro := state.windowSpentMicro + amt
    windowActionCount := state.windowActionCount + 1
    perCounterpartyMicro := state.perCounterpartyMicro.set cp ((state.cpSpent cp).add amt)
    lifetimeSpentMicro := state.lifetimeSpentMicro + amt
    highWaterNonce := nonce }

end GrantSpendState

def exceeds (n : Int) (limit : Option Int) : Bool := limit.any fun l => decide (l < n)

/-- The checks against the limits, on the state the window roll left. -/
def checkLimits (window : Option JsValue) (cumulative perCounterparty actions lifetime : Option Int)
    (state : GrantSpendState) (amt : Int) (cp : String) (nonce : Int) : BlastRadiusEvaluation :=
  let next := state.spend amt cp nonce
  let newCp := (state.cpSpent cp).add amt
  if !isSafeInteger next.windowSpentMicro || !isSafeInteger next.lifetimeSpentMicro then
    .denied .invalidAmount none
  else if exceeds next.lifetimeSpentMicro lifetime then
    .denied .lifetimeExceeded
      (some ⟨lifetime.map fun l => .number (next.lifetimeSpentMicro - l), none⟩)
  else if exceeds next.windowSpentMicro cumulative then
    .denied .cumulativeExceeded
      (some ⟨cumulative.map fun l => .number (next.windowSpentMicro - l), window⟩)
  else if perCounterparty.any newCp.exceeds then
    .denied .perCounterpartyExceeded
      (some ⟨perCounterparty.map fun l =>
        match newCp with
        | .micro n => .number (n - l)
        | .text _ => .nan, window⟩)
  else if exceeds next.windowActionCount actions then
    -- a zero instant is no instant
    .denied .actionCountExceeded
      (if window.any (· ≠ .number 0) then some ⟨none, window⟩ else none)
  else
    .allowed
      ⟨cumulative.map (· - next.windowSpentMicro), lifetime.map (· - next.lifetimeSpentMicro),
        perCounterparty.map newCp.headroom, actions.map (· - next.windowActionCount)⟩
      next

def evaluateBlastRadius (ceiling : GrantSpendCeiling) (state : GrantSpendState)
    (action : MoneyAction) (nonce : Int) (now : ℚ) : BlastRadiusEvaluation :=
  match action.amountMicro.safeInteger?.filter (0 < ·) with
  | none => .denied .invalidAmount none
  | some amt =>
    match canonicalizeCounterparty action.counterparty with
    | none => .denied .invalidCounterparty none
    | some cp =>
      match readLimit ceiling.cumulativeLimitMicro, readLimit ceiling.perCounterpartyLimitMicro,
          readLimit ceiling.maxActionCount, readLimit ceiling.lifetimeLimitMicro with
      | some cumulative, some perCounterparty, some actions, some lifetime =>
        if !ceiling.hasTotalBound then .denied .ceilingAbsent none
        else if ceiling.hasWindowLimit && !ceiling.hasPositiveWindow then
          .denied .invalidWindow none
        else if nonce ≤ state.highWaterNonce then .denied .replay none
        else
          let state := state.rolled ceiling now
          let unlock := if ceiling.hasWindowLimit then
              some (match ceiling.window with
                | some w => .number (state.windowStartedAt + w)
                | none => .infinity)
            else none
          checkLimits unlock cumulative perCounterparty actions lifetime state amt cp nonce
      | _, _, _, _ => .denied .invalidCeiling none

/-! ## §5. What an evaluation can be -/

variable {remaining : Remaining}

/-- **What passes the limits**: every limit that is set covers the committed state. -/
theorem checkLimits_allowed {window : Option JsValue}
    {cumulative perCounterparty actions lifetime : Option Int} {state next : GrantSpendState}
    {amt nonce : Int} {cp : String}
    (h : checkLimits window cumulative perCounterparty actions lifetime state amt cp nonce
      = .allowed remaining next) :
    next = state.spend amt cp nonce ∧
    (∀ l, lifetime = some l → next.lifetimeSpentMicro ≤ l) ∧
    (∀ l, cumulative = some l → next.windowSpentMicro ≤ l) ∧
    (∀ l, perCounterparty = some l → ((state.cpSpent cp).add amt).exceeds l = false) ∧
    (∀ l, actions = some l → next.windowActionCount ≤ l) := by
  unfold checkLimits at h
  dsimp only at h
  split at h
  · cases h
  split at h
  · cases h
  next hlifetime =>
  split at h
  · cases h
  next hcumulative =>
  split at h
  · cases h
  next hcp =>
  split at h
  · cases h
  next hactions =>
  cases h
  refine ⟨rfl, ?_, ?_, ?_, ?_⟩
  · rintro l rfl
    simpa [exceeds] using hlifetime
  · rintro l rfl
    simpa [exceeds] using hcumulative
  · rintro l rfl
    simpa using hcp
  · rintro l rfl
    simpa [exceeds] using hactions

/-- **What an allowed action has passed**: its amount is positive, its nonce new, and what it
    commits is spent from the rolled state within every limit. -/
structure Passed (ceiling : GrantSpendCeiling) (state : GrantSpendState) (action : MoneyAction)
    (nonce : Int) (now : ℚ) (amt : Int) (cp : String) : Prop where
  amount : action.amountMicro.safeInteger? = some amt
  pos : 0 < amt
  counterparty : canonicalizeCounterparty action.counterparty = some cp
  fresh : state.highWaterNonce < nonce
  lifetime : ∀ v l, ceiling.lifetimeLimitMicro = some v → v.nonNegativeSafeInteger? = some l →
    state.lifetimeSpentMicro + amt ≤ l
  cumulative : ∀ v l, ceiling.cumulativeLimitMicro = some v → v.nonNegativeSafeInteger? = some l →
    (state.rolled ceiling now).windowSpentMicro + amt ≤ l
  perCounterparty : ∀ v l, ceiling.perCounterpartyLimitMicro = some v →
    v.nonNegativeSafeInteger? = some l →
    (((state.rolled ceiling now).cpSpent cp).add amt).exceeds l = false
  actions : ∀ v l, ceiling.maxActionCount = some v → v.nonNegativeSafeInteger? = some l →
    (state.rolled ceiling now).windowActionCount + 1 ≤ l

theorem readLimit_some {v : JsValue} {l : Int} (h : v.nonNegativeSafeInteger? = some l) :
    readLimit (some v) = some (some l) := by
  simp [readLimit, h]

/-- **A call is denied, or passes and commits `spend` of the rolled state.** -/
theorem evaluate_allowed {ceiling : GrantSpendCeiling} {state next : GrantSpendState}
    {action : MoneyAction} {nonce : Int} {now : ℚ}
    (h : evaluateBlastRadius ceiling state action nonce now = .allowed remaining next) :
    ∃ amt cp, Passed ceiling state action nonce now amt cp ∧
      next = (state.rolled ceiling now).spend amt cp nonce := by
  unfold evaluateBlastRadius at h
  split at h
  · cases h
  next amt hamt =>
  obtain ⟨hamt, hpos⟩ := Option.filter_eq_some_iff.mp hamt
  split at h
  · cases h
  next cp hcp =>
  split at h
  · next cumulative perCounterparty actions lifetime hc hp ha hl =>
    iterate 3
      split at h
      · cases h
    next hnonce =>
    obtain ⟨hnext, hlife, hcum, hcounter, hact⟩ := checkLimits_allowed h
    subst hnext
    have hlifetime : (state.rolled ceiling now).lifetimeSpentMicro = state.lifetimeSpentMicro := by
      unfold GrantSpendState.rolled
      split <;> rfl
    refine ⟨amt, cp, ⟨hamt, by simpa using hpos, hcp, by omega, ?_, ?_, ?_, ?_⟩, rfl⟩
    · intro v l hv hvl
      rw [hv, readLimit_some hvl] at hl
      have hle := hlife l (Option.some.inj hl).symm
      rw [← hlifetime]
      exact hle
    · intro v l hv hvl
      rw [hv, readLimit_some hvl] at hc
      exact hcum l (Option.some.inj hc).symm
    · intro v l hv hvl
      rw [hv, readLimit_some hvl] at hp
      exact hcounter l (Option.some.inj hp).symm
    · intro v l hv hvl
      rw [hv, readLimit_some hvl] at ha
      exact hact l (Option.some.inj ha).symm
  · cases h

/-! ## §6. The stores -/

structure ConsumeInput where
  grantId : String
  ceiling : GrantSpendCeiling
  action : MoneyAction
  nonce : Int
  now : ℚ
  deriving DecidableEq

def BlastRadiusEvaluation.decision : BlastRadiusEvaluation → BlastRadiusDecision
  | .denied denial missing => .denied denial missing
  | .allowed remaining _ => .allowed remaining

abbrev InMemoryGrantSpendStore := String → Option GrantSpendState

/-- The state a call reads: the stored one, or a fresh one. -/
def stateFor (states : InMemoryGrantSpendStore) (input : ConsumeInput) : GrantSpendState :=
  (states input.grantId).getD (freshGrantSpendState input.grantId input.now)

def InMemoryGrantSpendStore.tryConsume (states : InMemoryGrantSpendStore)
    (input : ConsumeInput) : BlastRadiusDecision × InMemoryGrantSpendStore :=
  let evaluation := evaluateBlastRadius input.ceiling (stateFor states input) input.action
    input.nonce input.now
  match evaluation with
  | .allowed remaining next =>
    (.allowed remaining, update states input.grantId (some next))
  | .denied denial missing => (.denied denial missing, states)

/-- A row of `grant_spend_state`; the JSON column lists the object's entries. -/
structure GrantSpendRow where
  grantId : String
  windowStartedAt : ℚ
  windowSpentMicro : Int
  windowActionCount : Int
  perCounterpartyJson : List (String × CpSpend)
  lifetimeSpentMicro : Int
  highWaterNonce : Int

/-- `JSON.stringify`: the own entries in their order. -/
def PerCounterparty.stringify (o : PerCounterparty) : List (String × CpSpend) := o.entries

/-- `JSON.parse`: the members in their order, a repeated one replacing the first. -/
def PerCounterparty.parse (text : List (String × CpSpend)) : PerCounterparty :=
  text.foldl (fun o e => o.set e.1 e.2) .empty

def GrantSpendState.row (state : GrantSpendState) : GrantSpendRow where
  grantId := state.grantId
  windowStartedAt := state.windowStartedAt
  windowSpentMicro := state.windowSpentMicro
  windowActionCount := state.windowActionCount
  perCounterpartyJson := state.perCounterpartyMicro.stringify
  lifetimeSpentMicro := state.lifetimeSpentMicro
  highWaterNonce := state.highWaterNonce

def GrantSpendRow.state (row : GrantSpendRow) : GrantSpendState where
  grantId := row.grantId
  windowStartedAt := row.windowStartedAt
  windowSpentMicro := row.windowSpentMicro
  windowActionCount := row.windowActionCount
  perCounterpartyMicro := .parse row.perCounterpartyJson
  lifetimeSpentMicro := row.lifetimeSpentMicro
  highWaterNonce := row.highWaterNonce

/-- `grant_spend_state`, by its primary key. -/
abbrev SqliteGrantSpendStore := String → Option GrantSpendRow

def SqliteGrantSpendStore.tryConsume (rows : SqliteGrantSpendStore) (input : ConsumeInput) :
    BlastRadiusDecision × SqliteGrantSpendStore :=
  let state := match rows input.grantId with
    | none => freshGrantSpendState input.grantId input.now
    | some row => row.state
  match evaluateBlastRadius input.ceiling state input.action input.nonce input.now with
  | .allowed remaining next =>
    (.allowed remaining, update rows input.grantId (some next.row))
  | .denied denial missing => (.denied denial missing, rows)

theorem foldl_set (o : PerCounterparty) (text : List (String × CpSpend))
    (h : ((o.entries ++ text).map Prod.fst).Nodup) :
    (text.foldl (fun o e => o.set e.1 e.2) o).entries = o.entries ++ text := by
  induction text generalizing o with
  | nil => simp
  | cons e text ih =>
    have hfresh : ∀ a ∈ o.entries, a.1 ≠ e.1 := by
      intro a ha heq
      rw [map_append, nodup_append] at h
      exact h.2.2 a.1 (mem_map_of_mem ha) e.1 (by simp) heq
    have hset : (o.set e.1 e.2).entries = o.entries ++ [e] := upsertBy_of_fresh hfresh
    rw [foldl_cons, ih, hset]
    · simp
    · rw [hset]
      simpa using h

/-- **The row reads back**: `JSON.parse` of `JSON.stringify` is the object. -/
theorem parse_stringify (o : PerCounterparty) : PerCounterparty.parse o.stringify = o := by
  have hentries : (PerCounterparty.parse o.stringify).entries = o.entries := by
    unfold PerCounterparty.parse PerCounterparty.stringify
    rw [foldl_set .empty o.entries]
    · rfl
    · exact o.nodup
  obtain ⟨entries, nodup⟩ := o
  cases hparse : PerCounterparty.parse (PerCounterparty.stringify ⟨entries, nodup⟩) with
  | mk =>
    rw [hparse] at hentries
    cases hentries
    rfl

@[simp] theorem row_state (state : GrantSpendState) : state.row.state = state := by
  unfold GrantSpendState.row GrantSpendRow.state
  rw [parse_stringify]

def SqliteGrantSpendStore.states (rows : SqliteGrantSpendStore) : InMemoryGrantSpendStore :=
  fun g => (rows g).map GrantSpendRow.state

/-- **The SQLite store commits what the in-memory store does**, and decides the same. -/
theorem tryConsume_row (rows : SqliteGrantSpendStore) (input : ConsumeInput) :
    (rows.tryConsume input).1 = (InMemoryGrantSpendStore.tryConsume rows.states input).1 ∧
    (rows.tryConsume input).2.states
      = (InMemoryGrantSpendStore.tryConsume rows.states input).2 := by
  have hstate : (match rows input.grantId with
      | none => freshGrantSpendState input.grantId input.now
      | some row => row.state) = stateFor rows.states input := by
    unfold stateFor SqliteGrantSpendStore.states
    cases rows input.grantId <;> rfl
  unfold SqliteGrantSpendStore.tryConsume InMemoryGrantSpendStore.tryConsume
  dsimp only
  rw [hstate]
  cases evaluateBlastRadius input.ceiling (stateFor rows.states input) input.action input.nonce
      input.now with
  | denied denial missing => exact ⟨rfl, rfl⟩
  | allowed remaining next =>
    refine ⟨rfl, ?_⟩
    funext g
    unfold SqliteGrantSpendStore.states
    by_cases hg : g = input.grantId
    · simp [hg]
    · simp [hg]

end Motebit.Policy
