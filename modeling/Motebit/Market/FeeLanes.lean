/-
  Motebit.Market.FeeLanes — THE FEE FORMULAS OF THE THREE SETTLEMENT LANES, in exact arithmetic.

  Translated from the fee functions of `packages/protocol/src/money.ts` and from
  `settleOnReceipt` of `packages/market/src/settlement.ts`.  Numbers are rationals;
  `Math.round` rounds half up.

  Main results: `settled_eq`, `settled_price`, `payout_mono`, `fee_lanes`.
-/

import Mathlib.Data.Rat.Floor
import Mathlib.Tactic.LinearCombination
import Motebit.Lib.HalfUp

namespace Motebit.Market

open Motebit.Lib

/-! ## §1. The canonical formulas -/

def mathRound (x : ℚ) : ℤ := halfUp x

def IsFeeRate (rate : ℚ) : Prop := 0 ≤ rate ∧ rate < 1

instance (rate : ℚ) : Decidable (IsFeeRate rate) := inferInstanceAs (Decidable (_ ∧ _))

/-- The rate a formula refuses. -/
inductive MoneyError
  | feeRate (got : ℚ)
  | executorFeeRate (got : ℚ)
  deriving DecidableEq

def computeP2pFeeMicro (netCostMicro : ℤ) (feeRate : ℚ) : Except MoneyError ℤ :=
  if IsFeeRate feeRate then
    .ok (mathRound (netCostMicro / (1 - feeRate)) - netCostMicro)
  else .error (.feeRate feeRate)

structure SettlementSplitMicro where
  netMicro : ℤ
  feeMicro : ℤ
  deriving DecidableEq

def roundSettlementSplitMicro (netExact feeExact : ℚ) : SettlementSplitMicro :=
  let grossMicro := mathRound (netExact + feeExact)
  let feeMicro := mathRound feeExact
  { netMicro := grossMicro - feeMicro, feeMicro }

structure FederatedFeeSplit where
  originFeeMicro : ℤ
  executorFeeMicro : ℤ
  workerNetMicro : ℤ
  deriving DecidableEq

def computeFederatedFeeSplit (budgetMicro : ℤ) (feeRate : ℚ) (executorFeeRate : Option ℚ) :
    Except MoneyError FederatedFeeSplit :=
  let executorRate := executorFeeRate.getD feeRate
  if ¬ IsFeeRate feeRate then .error (.feeRate feeRate)
  else if ¬ IsFeeRate executorRate then .error (.executorFeeRate executorRate)
  else
    let originFeeMicro := mathRound (budgetMicro * feeRate)
    let forwardedMicro := budgetMicro - originFeeMicro
    let executorFeeMicro := mathRound (forwardedMicro * executorRate)
    .ok ⟨originFeeMicro, executorFeeMicro, forwardedMicro - executorFeeMicro⟩

/-! ## §2. Settlement on a receipt -/

def PLATFORM_FEE_RATE : ℚ := 1 / 20

def MAX_SAFE_INTEGER : ℚ := 2 ^ 53 - 1

def overflows (n : ℚ) : Bool :=
  !(n.den == 1 && decide (|n| ≤ MAX_SAFE_INTEGER)) && decide (MAX_SAFE_INTEGER < n)

def microRound (n : ℚ) : ℚ := halfUpTo 1000000 n

/-- Why a settlement throws. -/
inductive SettlementError
  /-- `feeRate must be in [0, 1], got …`. -/
  | feeRate (got : ℚ)
  | invariant (message : String)
  deriving DecidableEq

structure BudgetAllocation where
  allocation_id : String
  amount_locked : ℚ

inductive ReceiptStatus
  | completed | failed | denied
  deriving DecidableEq

/-- `ExecutionReceipt`, as far as a settlement reads it. -/
structure ExecutionReceipt where
  motebit_id : String
  result_hash : Option String
  status : ReceiptStatus

/-- `GoalExecutionManifest`: of its steps the statuses. -/
structure GoalExecutionManifest where
  content_hash : String
  steps : List String

inductive SettlementStatus
  | completed | partially | refunded
  deriving DecidableEq

structure SettlementRecordBody where
  settlement_id : String
  allocation_id : String
  motebit_id : String
  receipt_hash : String
  ledger_hash : Option String
  amount_settled : ℚ
  platform_fee : ℚ
  platform_fee_rate : ℚ
  status : SettlementStatus
  settled_at : ℤ
  deriving DecidableEq

def validateAllocation (allocation : BudgetAllocation) : Except SettlementError Unit :=
  if allocation.amount_locked < 0 then
    .error (.invariant "settlement invariant: negative allocation")
  else if overflows allocation.amount_locked then
    .error (.invariant "settlement invariant: allocation exceeds safe integer range")
  else .ok ()

def GoalExecutionManifest.completed (ledger : GoalExecutionManifest) : ℕ :=
  ledger.steps.countP fun status => status = "completed"

/-- The gross to settle, and the status: in part only between none and all of the steps. -/
def grossOf (amountLocked : ℚ) (ledger : Option GoalExecutionManifest) :
    Except SettlementError (ℚ × SettlementStatus) :=
  match ledger with
  | none => .ok (amountLocked, .completed)
  | some ledger =>
    let total := ledger.steps.length
    let completed := ledger.completed
    if total < completed then
      .error (.invariant "settlement invariant: completed steps exceed total")
    else if completed < total ∧ 0 < completed then
      if overflows (amountLocked * completed) then
        .error (.invariant
          "settlement invariant: amount_locked * completed overflows safe integer range")
      else .ok (microRound (amountLocked * (completed / total)), .partially)
    else .ok (amountLocked, .completed)

def settleOnReceipt (allocation : BudgetAllocation) (receipt : ExecutionReceipt)
    (ledger : Option GoalExecutionManifest) (settlementId : String) (rate : Option ℚ)
    (now : ℤ) : Except SettlementError SettlementRecordBody := do
  let feeRate := rate.getD PLATFORM_FEE_RATE
  let record (amount_settled platform_fee : ℚ) (status : SettlementStatus) :
      SettlementRecordBody :=
    { settlement_id := settlementId
      allocation_id := allocation.allocation_id
      motebit_id := receipt.motebit_id
      receipt_hash := receipt.result_hash.getD ""
      ledger_hash := ledger.map GoalExecutionManifest.content_hash
      amount_settled, platform_fee
      platform_fee_rate := feeRate
      status
      settled_at := now }
  if feeRate < 0 ∨ 1 < feeRate then .error (.feeRate feeRate)
  else
    validateAllocation allocation
    if receipt.status = .failed ∨ receipt.status = .denied then .ok (record 0 0 .refunded)
    else
      let (gross, status) ← grossOf allocation.amount_locked ledger
      let fee := microRound (gross * feeRate)
      let net := microRound (gross - fee)
      if net < 0 then
        .error (.invariant "settlement invariant: net amount after fee is negative")
      else .ok (record net fee status)

def SettlementRecordBody.legs (body : SettlementRecordBody) : SettlementSplitMicro :=
  roundSettlementSplitMicro body.amount_settled body.platform_fee

/-! ## §3. What a settlement is made of -/

/-- A ledger whose steps are neither partly done nor partly undone. -/
def GoalExecutionManifest.Whole (ledger : GoalExecutionManifest) : Prop :=
  ledger.completed = 0 ∨ ledger.completed = ledger.steps.length

/-- What a lock and the done part of a ledger may come to without overflowing. -/
def Settleable (amountLocked : ℤ) (ledger : Option GoalExecutionManifest) : Prop :=
  0 ≤ amountLocked ∧ (amountLocked : ℚ) ≤ MAX_SAFE_INTEGER ∧
    ∀ l ∈ ledger, ¬ l.Whole → (amountLocked : ℚ) * l.completed ≤ MAX_SAFE_INTEGER

def gross (amountLocked : ℚ) : Option GoalExecutionManifest → ℚ
  | none => amountLocked
  | some l =>
    if l.completed < l.steps.length ∧ 0 < l.completed then
      microRound (amountLocked * (l.completed / l.steps.length))
    else amountLocked

theorem overflows_intCast {n : ℤ} : overflows (n : ℚ) = false ↔ (n : ℚ) ≤ MAX_SAFE_INTEGER := by
  unfold overflows
  constructor
  · intro h
    by_contra hlt
    rw [not_le] at hlt
    have habs : ¬ |(n : ℚ)| ≤ MAX_SAFE_INTEGER := by
      intro hle
      exact absurd (lt_of_lt_of_le hlt (le_abs_self _)) (not_lt_of_ge hle)
    simp [habs, hlt] at h
  · intro h
    simp [not_lt_of_ge h]

theorem GoalExecutionManifest.completed_le (l : GoalExecutionManifest) :
    l.completed ≤ l.steps.length := List.countP_le_length

theorem GoalExecutionManifest.not_whole_iff {l : GoalExecutionManifest} :
    ¬ l.Whole ↔ l.completed < l.steps.length ∧ 0 < l.completed := by
  have h := l.completed_le
  unfold GoalExecutionManifest.Whole
  omega

theorem gross_of_whole {L : ℚ} {ledger : Option GoalExecutionManifest}
    (h : ∀ l ∈ ledger, l.Whole) : gross L ledger = L := by
  cases ledger with
  | none => rfl
  | some l =>
    have hw : l.Whole := h l rfl
    rw [← not_not (a := l.Whole), GoalExecutionManifest.not_whole_iff] at hw
    simp only [gross, if_neg hw]

theorem part_le {L : ℚ} (hL : 0 ≤ L) {done total : ℕ} (h : done ≤ total) :
    L * (done / total) ≤ L := by
  have hle : (done : ℚ) / total ≤ 1 := by
    apply div_le_one_of_le₀ _ (Nat.cast_nonneg _)
    exact_mod_cast h
  calc L * (done / total) ≤ L * 1 := mul_le_mul_of_nonneg_left hle hL
    _ = L := mul_one L

theorem gross_grid {L : ℤ} (hL : 0 ≤ L) (ledger : Option GoalExecutionManifest) :
    ∃ m : ℤ, gross L ledger = (m : ℚ) / (1000000 : ℕ) ∧ 0 ≤ m ∧ gross L ledger ≤ L := by
  have hL' : (0 : ℚ) ≤ L := by exact_mod_cast hL
  have hwhole : ∃ m : ℤ, (L : ℚ) = (m : ℚ) / (1000000 : ℕ) ∧ 0 ≤ m ∧ (L : ℚ) ≤ L := by
    refine ⟨L * 1000000, ?_, by omega, le_rfl⟩
    push_cast
    ring
  cases ledger with
  | none => exact hwhole
  | some l =>
    by_cases hpart : l.completed < l.steps.length ∧ 0 < l.completed
    · simp only [gross, if_pos hpart]
      refine ⟨halfUp ((L : ℚ) * (l.completed / l.steps.length) * (1000000 : ℕ)), rfl, ?_, ?_⟩
      · exact halfUp_nonneg (by positivity)
      · calc microRound ((L : ℚ) * (l.completed / l.steps.length)) ≤ microRound L :=
              halfUpTo_mono (part_le hL' hpart.1.le)
          _ = L := halfUpTo_intCast (by norm_num) L
    · simp only [gross, if_neg hpart]
      exact hwhole

theorem grossOf_ok {L : ℤ} {ledger : Option GoalExecutionManifest} (h : Settleable L ledger) :
    ∃ status, grossOf L ledger = .ok (gross L ledger, status) := by
  cases ledger with
  | none => exact ⟨.completed, rfl⟩
  | some l =>
    have hle : ¬ l.steps.length < l.completed := not_lt_of_ge l.completed_le
    by_cases hpart : l.completed < l.steps.length ∧ 0 < l.completed
    · have hsafe : overflows ((L : ℚ) * l.completed) = false := by
        have hl := h.2.2 l rfl (GoalExecutionManifest.not_whole_iff.2 hpart)
        have hcast : (L : ℚ) * l.completed = ((L * l.completed : ℤ) : ℚ) := by push_cast; rfl
        rw [hcast] at hl ⊢
        exact overflows_intCast.2 hl
      refine ⟨.partially, ?_⟩
      simp [grossOf, gross, hle, hpart, hsafe]
    · refine ⟨.completed, ?_⟩
      simp only [grossOf, gross, if_neg hle, if_neg hpart]

theorem grossOf_eq {L : ℤ} {ledger : Option GoalExecutionManifest} {g : ℚ}
    {status : SettlementStatus} (h : grossOf L ledger = .ok (g, status)) :
    g = gross L ledger ∧ ∀ l ∈ ledger, ¬ l.Whole → (L : ℚ) * l.completed ≤ MAX_SAFE_INTEGER := by
  cases ledger with
  | none =>
    cases h
    exact ⟨rfl, by simp⟩
  | some l =>
    have hle : ¬ l.steps.length < l.completed := not_lt_of_ge l.completed_le
    by_cases hpart : l.completed < l.steps.length ∧ 0 < l.completed
    · simp only [grossOf, gross, if_neg hle, if_pos hpart] at h ⊢
      have hcast : (L : ℚ) * l.completed = ((L * l.completed : ℤ) : ℚ) := by push_cast; rfl
      cases hsafe : overflows ((L : ℚ) * l.completed) with
      | true => simp [hsafe] at h
      | false =>
        rw [hsafe] at h
        cases h
        refine ⟨rfl, ?_⟩
        intro l' hl' _
        cases hl'
        rw [hcast] at hsafe ⊢
        exact overflows_intCast.1 hsafe
    · simp only [grossOf, gross, if_neg hle, if_neg hpart] at h ⊢
      cases h
      refine ⟨rfl, ?_⟩
      intro l' hl' hw
      cases hl'
      exact absurd (GoalExecutionManifest.not_whole_iff.1 hw) hpart

/-! ## §4. The legs of a settlement -/

section Settlement

variable {allocation : BudgetAllocation} {receipt : ExecutionReceipt}
  {ledger : Option GoalExecutionManifest} {settlementId : String} {rate : Option ℚ} {now : ℤ}
  {L : ℤ}

/-- A fee taken of a gross of whole micro-units leaves a net the rounding does not touch. -/
theorem net_eq {g r : ℚ} {m : ℤ} (hg : g = (m : ℚ) / (1000000 : ℕ)) :
    microRound (g - microRound (g * r)) = g - microRound (g * r) := by
  rw [hg]
  exact halfUpTo_sub (by norm_num) m _

theorem fee_le {g r : ℚ} {m : ℤ} (hg : g = (m : ℚ) / (1000000 : ℕ)) (hm : 0 ≤ m)
    (hr : r ≤ 1) : microRound (g * r) ≤ g := by
  have hg0 : 0 ≤ g := by
    rw [hg]
    positivity
  calc microRound (g * r) ≤ microRound g :=
        halfUpTo_mono (mul_le_of_le_one_right hg0 hr)
    _ = g := by
        rw [hg]
        exact halfUpTo_of_grid (by norm_num) m

theorem validateAllocation_ok :
    validateAllocation allocation = .ok () ↔
      0 ≤ allocation.amount_locked ∧ overflows allocation.amount_locked = false := by
  unfold validateAllocation
  by_cases hneg : allocation.amount_locked < 0
  · simp [hneg, not_le_of_gt hneg]
  · cases h : overflows allocation.amount_locked <;> simp [hneg, le_of_not_gt hneg]

theorem settleOnReceipt_ok (hlock : allocation.amount_locked = L)
    (hdone : receipt.status = .completed)
    (h0 : 0 ≤ rate.getD PLATFORM_FEE_RATE) (h1 : rate.getD PLATFORM_FEE_RATE ≤ 1)
    (hs : Settleable L ledger) :
    ∃ body, settleOnReceipt allocation receipt ledger settlementId rate now = .ok body ∧
      body.platform_fee = microRound (gross L ledger * rate.getD PLATFORM_FEE_RATE) ∧
      body.amount_settled = gross L ledger - body.platform_fee := by
  have hvalid : validateAllocation allocation = .ok () := by
    rw [validateAllocation_ok, hlock]
    exact ⟨by exact_mod_cast hs.1, overflows_intCast.2 hs.2.1⟩
  have hrate : ¬ (rate.getD PLATFORM_FEE_RATE < 0 ∨ 1 < rate.getD PLATFORM_FEE_RATE) := by
    rw [not_or, not_lt, not_lt]
    exact ⟨h0, h1⟩
  have hlive : ¬ (receipt.status = .failed ∨ receipt.status = .denied) := by simp [hdone]
  obtain ⟨status, hgross⟩ := grossOf_ok hs
  obtain ⟨m, hm, hm0, -⟩ := gross_grid hs.1 ledger
  have hnet := net_eq (r := rate.getD PLATFORM_FEE_RATE) hm
  have hle := fee_le hm hm0 h1
  have hpos : ¬ gross L ledger - microRound (gross L ledger * rate.getD PLATFORM_FEE_RATE) < 0 := by
    rw [not_lt, sub_nonneg]
    exact hle
  unfold settleOnReceipt
  rw [if_neg hrate, hvalid, if_neg hlive, hlock, hgross]
  simp only [bind, Except.bind, hnet, if_neg hpos]
  exact ⟨_, rfl, rfl, rfl⟩

variable {body : SettlementRecordBody}

theorem settleable_of_ok (hlock : allocation.amount_locked = L)
    (hdone : receipt.status = .completed)
    (h : settleOnReceipt allocation receipt ledger settlementId rate now = .ok body) :
    0 ≤ rate.getD PLATFORM_FEE_RATE ∧ rate.getD PLATFORM_FEE_RATE ≤ 1 ∧ Settleable L ledger := by
  have hlive : ¬ (receipt.status = .failed ∨ receipt.status = .denied) := by simp [hdone]
  unfold settleOnReceipt at h
  by_cases hrate : rate.getD PLATFORM_FEE_RATE < 0 ∨ 1 < rate.getD PLATFORM_FEE_RATE
  · simp [hrate] at h
  rw [if_neg hrate, if_neg hlive, hlock] at h
  rw [not_or, not_lt, not_lt] at hrate
  cases hvalid : validateAllocation allocation with
  | error =>
    rw [hvalid] at h
    cases h
  | ok =>
    rw [validateAllocation_ok, hlock] at hvalid
    cases hgross : grossOf (L : ℚ) ledger with
    | error =>
      simp [hgross, bind, Except.bind, validateAllocation_ok.2 (hlock ▸ hvalid)] at h
    | ok gs =>
      have hover := (grossOf_eq (show grossOf (L : ℚ) ledger = .ok (gs.1, gs.2) from hgross)).2
      refine ⟨hrate.1, hrate.2, ?_, overflows_intCast.1 hvalid.2, hover⟩
      exact_mod_cast hvalid.1

theorem settled_eq (hlock : allocation.amount_locked = L) (hdone : receipt.status = .completed)
    (h : settleOnReceipt allocation receipt ledger settlementId rate now = .ok body) :
    body.platform_fee = microRound (gross L ledger * rate.getD PLATFORM_FEE_RATE) ∧
      body.amount_settled = gross L ledger - body.platform_fee := by
  obtain ⟨h0, h1, hs⟩ := settleable_of_ok hlock hdone h
  have hok : ∃ body, settleOnReceipt allocation receipt ledger settlementId rate now = .ok body ∧
      _ ∧ _ := settleOnReceipt_ok hlock hdone h0 h1 hs
  obtain ⟨body', hbody, hfee, hnet⟩ := hok
  rw [h] at hbody
  cases hbody
  exact ⟨hfee, hnet⟩

theorem SettlementRecordBody.legs_add {g : ℚ} (h : body.amount_settled = g - body.platform_fee) :
    body.legs.netMicro + body.legs.feeMicro = halfUp g := by
  simp only [legs, roundSettlementSplitMicro, mathRound, h]
  rw [sub_add_cancel, sub_add_cancel]

theorem settled_bounds (hlock : allocation.amount_locked = L) (hdone : receipt.status = .completed)
    (h : settleOnReceipt allocation receipt ledger settlementId rate now = .ok body) :
    0 ≤ body.legs.netMicro ∧ 0 ≤ body.legs.feeMicro ∧
      body.legs.netMicro + body.legs.feeMicro ≤ L ∧
      ((∀ l ∈ ledger, l.Whole) → body.legs.netMicro + body.legs.feeMicro = L) := by
  obtain ⟨h0, h1, hs⟩ := settleable_of_ok hlock hdone h
  obtain ⟨hfee, hnet⟩ := settled_eq hlock hdone h
  obtain ⟨m, hm, hm0, hle⟩ := gross_grid hs.1 ledger
  have hg0 : 0 ≤ gross L ledger := by
    rw [hm]
    positivity
  have hfee0 : 0 ≤ body.platform_fee := by
    rw [hfee]
    have hround := halfUp_nonneg (show
      0 ≤ gross L ledger * rate.getD PLATFORM_FEE_RATE * (1000000 : ℕ) by positivity)
    exact div_nonneg (by exact_mod_cast hround) (Nat.cast_nonneg _)
  have hsum := SettlementRecordBody.legs_add hnet
  have hfeeLe : body.legs.feeMicro ≤ halfUp (gross L ledger) := by
    apply halfUp_mono
    rw [hfee]
    exact fee_le hm hm0 h1
  refine ⟨?_, halfUp_nonneg hfee0, ?_, ?_⟩
  · omega
  · calc body.legs.netMicro + body.legs.feeMicro = halfUp (gross L ledger) := hsum
      _ ≤ halfUp (L : ℚ) := halfUp_mono hle
      _ = L := halfUp_intCast L
  · intro hwhole
    rw [hsum, gross_of_whole hwhole, halfUp_intCast]

end Settlement

/-! ## §5. The price of a p2p payment -/

theorem halfUp_fee {P : ℤ} {e : ℚ} (hlo : -(1 / 2) ≤ e) (hhi : e < 1 / 2) :
    halfUp (microRound (P + e)) = if 1 / 2 - 1 / 2000000 ≤ e then P + 1 else P := by
  have hmicro : microRound (P + e) = P + (halfUp (e * (1000000 : ℕ)) : ℚ) / 1000000 := by
    have hshift := halfUp_add_int (e * (1000000 : ℕ)) (P * 1000000)
    unfold microRound halfUpTo
    rw [show ((P : ℚ) + e) * (1000000 : ℕ) = e * (1000000 : ℕ) + (P * 1000000 : ℤ) by
      push_cast; ring, hshift]
    push_cast
    ring
  have hcast : ((1000000 : ℕ) : ℚ) = 1000000 := by norm_num
  have hroundLo : (-500000 : ℤ) ≤ halfUp (e * (1000000 : ℕ)) := by
    rw [← halfUp_intCast (K := ℚ) (-500000)]
    apply halfUp_mono
    push_cast
    linarith
  have hroundLo' : (-500000 : ℚ) ≤ halfUp (e * (1000000 : ℕ)) := by exact_mod_cast hroundLo
  rw [hmicro]
  split
  · have hround : halfUp (e * (1000000 : ℕ)) = 500000 := by
      rw [halfUp_eq_iff, hcast]
      push_cast
      constructor <;> linarith
    rw [hround, halfUp_eq_iff]
    push_cast
    constructor <;> linarith
  · have hroundHi : halfUp (e * (1000000 : ℕ)) < 500000 := by
      rw [← Int.add_one_le_iff]
      unfold halfUp
      rw [Int.add_one_le_iff, Int.floor_lt, hcast]
      push_cast
      linarith
    have hroundHi' : (halfUp (e * (1000000 : ℕ)) : ℚ) < 500000 := by exact_mod_cast hroundHi
    rw [halfUp_eq_iff]
    generalize (halfUp (e * (1000000 : ℕ)) : ℚ) = k at hroundLo' hroundHi' ⊢
    constructor <;> linarith

variable {N P : ℤ}

theorem price_fee {f : ℚ} (hf : IsFeeRate f) (h : computeP2pFeeMicro N f = .ok P) :
    ∃ e : ℚ, ((N + P : ℤ) : ℚ) * f = P + e ∧ -(1 / 2) ≤ e ∧ e < 1 / 2 ∧
      (f = 0 → e = 0) ∧ (0 < f → e < (1 - f) / 2) := by
  have hpos : 0 < 1 - f := sub_pos.2 hf.2
  unfold computeP2pFeeMicro at h
  rw [if_pos hf] at h
  have hP : mathRound (N / (1 - f)) = N + P := by
    cases h
    ring
  obtain ⟨hlo, hhi⟩ := halfUp_eq_iff.1 hP
  have hN : (N : ℚ) = N / (1 - f) * (1 - f) := by field_simp
  push_cast at hlo hhi ⊢
  generalize hx : (N : ℚ) / (1 - f) = x at hlo hhi hN
  refine ⟨(x - (N + P)) * (1 - f), ?_, ?_, ?_, ?_, ?_⟩
  · linear_combination hN
  · nlinarith [hf.1]
  · nlinarith [hf.1]
  · intro hzero
    rw [hzero] at hx hP ⊢
    have hxN : x = N := by simpa using hx.symm
    rw [sub_zero, div_one] at hP
    unfold mathRound at hP
    rw [halfUp_intCast] at hP
    have hP0 : P = 0 := by omega
    rw [hxN, hP0]
    simp
  · intro _
    nlinarith

theorem price_nonneg {f : ℚ} (hN : 0 ≤ N) (hf : IsFeeRate f)
    (h : computeP2pFeeMicro N f = .ok P) : 0 ≤ P := by
  have hpos : 0 < 1 - f := sub_pos.2 hf.2
  have hN' : (0 : ℚ) ≤ N := by exact_mod_cast hN
  unfold computeP2pFeeMicro at h
  rw [if_pos hf] at h
  have hle : (N : ℚ) ≤ N / (1 - f) := by
    rw [le_div_iff₀ hpos]
    nlinarith [hf.1]
  have hround : N ≤ mathRound (N / (1 - f)) := by
    have hmono := halfUp_mono hle
    rwa [halfUp_intCast] at hmono
  cases h
  omega

/-- A completed settlement of the price splits it as the p2p lane does, to a micro-unit and
exactly at every rate of a millionth or more. -/
theorem settled_price {f : ℚ} {allocation : BudgetAllocation}
    {receipt : ExecutionReceipt} {ledger : Option GoalExecutionManifest} {settlementId : String}
    {now : ℤ} {body : SettlementRecordBody} (hf : IsFeeRate f)
    (hP : computeP2pFeeMicro N f = .ok P) (hlock : allocation.amount_locked = (N + P : ℤ))
    (hdone : receipt.status = .completed) (hwhole : ∀ l ∈ ledger, l.Whole)
    (h : settleOnReceipt allocation receipt ledger settlementId (some f) now = .ok body) :
    body.legs = ⟨N, P⟩ ∨ 0 < f ∧ f < 1 / 1000000 ∧ body.legs = ⟨N - 1, P + 1⟩ := by
  obtain ⟨hfee, hnet⟩ := settled_eq hlock hdone h
  rw [gross_of_whole hwhole] at hfee hnet
  obtain ⟨e, he, hlo, hhi, hzero, hpos⟩ := price_fee hf hP
  have hfeeLeg : body.legs.feeMicro = if 1 / 2 - 1 / 2000000 ≤ e then P + 1 else P := by
    show halfUp body.platform_fee = _
    rw [hfee, Option.getD_some, he]
    exact halfUp_fee hlo hhi
  have hsum : body.legs.netMicro + body.legs.feeMicro = N + P := by
    rw [SettlementRecordBody.legs_add hnet, halfUp_intCast]
  have hlegs : body.legs = ⟨N + P - body.legs.feeMicro, body.legs.feeMicro⟩ := by
    rw [← hsum, add_sub_cancel_right]
  by_cases hdust : 1 / 2 - 1 / 2000000 ≤ e
  · right
    rw [if_pos hdust] at hfeeLeg
    have hfpos : 0 < f := by
      rcases hf.1.eq_or_lt with hf0 | hfpos
      · have he0 := hzero hf0.symm
        norm_num [he0] at hdust
      · exact hfpos
    have hfe := hpos hfpos
    refine ⟨hfpos, by linarith, ?_⟩
    rw [hlegs, hfeeLeg]
    congr 1
    omega
  · left
    rw [if_neg hdust] at hfeeLeg
    rw [hlegs, hfeeLeg, add_sub_cancel_right]

/-! ## §6. More steps done, and legs across relays -/

theorem net_mono {m₁ m₂ : ℤ} {r : ℚ} (hm : m₁ ≤ m₂) (hr : r ≤ 1) :
    (m₁ : ℚ) / (1000000 : ℕ) - microRound ((m₁ : ℚ) / (1000000 : ℕ) * r) ≤
      (m₂ : ℚ) / (1000000 : ℕ) - microRound ((m₂ : ℚ) / (1000000 : ℕ) * r) := by
  have hscale (m : ℤ) : (m : ℚ) / (1000000 : ℕ) * r * (1000000 : ℕ) = m * r := by
    push_cast
    ring
  have hround : halfUp ((m₂ : ℚ) * r) ≤ halfUp ((m₁ : ℚ) * r) + (m₂ - m₁) := by
    rw [← halfUp_add_int]
    apply halfUp_mono
    have hgap : (0 : ℚ) ≤ m₂ - m₁ := by
      rw [sub_nonneg]
      exact_mod_cast hm
    push_cast
    nlinarith
  have hround' : (halfUp ((m₂ : ℚ) * r) : ℚ) ≤ halfUp ((m₁ : ℚ) * r) + (m₂ - m₁) := by
    exact_mod_cast hround
  simp only [microRound, halfUpTo, hscale]
  rw [← sub_div, ← sub_div]
  apply div_le_div_of_nonneg_right _ (Nat.cast_nonneg _)
  linarith

variable {l₁ l₂ : GoalExecutionManifest}

theorem gross_mono {L : ℤ} (hL : 0 ≤ L)
    (hlen : l₁.steps.length = l₂.steps.length) (hpos : 0 < l₁.completed)
    (hle : l₁.completed ≤ l₂.completed) : gross L (some l₁) ≤ gross L (some l₂) := by
  by_cases hfull : l₂.completed = l₂.steps.length
  · have hwhole : gross L (some l₂) = L := by
      apply gross_of_whole
      rintro l ⟨⟩
      exact .inr hfull
    obtain ⟨m, -, -, h⟩ := gross_grid hL (some l₁)
    rw [hwhole]
    exact h
  · have hpart₂ : l₂.completed < l₂.steps.length ∧ 0 < l₂.completed :=
      ⟨lt_of_le_of_ne l₂.completed_le hfull, lt_of_lt_of_le hpos hle⟩
    have hpart₁ : l₁.completed < l₁.steps.length ∧ 0 < l₁.completed :=
      ⟨by omega, hpos⟩
    simp only [gross, if_pos hpart₁, if_pos hpart₂]
    apply halfUpTo_mono
    rw [hlen]
    apply mul_le_mul_of_nonneg_left _ (by exact_mod_cast hL)
    apply div_le_div_of_nonneg_right _ (Nat.cast_nonneg _)
    exact_mod_cast hle

theorem netMicro_bounds (body : SettlementRecordBody) :
    ⌊body.amount_settled⌋ ≤ body.legs.netMicro ∧ body.legs.netMicro ≤ ⌈body.amount_settled⌉ := by
  simp only [SettlementRecordBody.legs, roundSettlementSplitMicro, mathRound]
  constructor
  · rw [le_sub_iff_add_le, add_comm, ← halfUp_add_int]
    apply halfUp_mono
    have := Int.floor_le body.amount_settled
    linarith
  · rw [sub_le_iff_le_add, add_comm ⌈_⌉, ← halfUp_add_int]
    apply halfUp_mono
    have := Int.le_ceil body.amount_settled
    linarith

theorem payout_mono {L : ℤ} {allocation : BudgetAllocation} {receipt : ExecutionReceipt}
    {settlementId : String} {rate : Option ℚ} {now : ℤ}
    {body₁ body₂ : SettlementRecordBody} (hlock : allocation.amount_locked = L)
    (hdone : receipt.status = .completed) (hlen : l₁.steps.length = l₂.steps.length)
    (hpos : 0 < l₁.completed) (hle : l₁.completed ≤ l₂.completed)
    (h₁ : settleOnReceipt allocation receipt (some l₁) settlementId rate now = .ok body₁)
    (h₂ : settleOnReceipt allocation receipt (some l₂) settlementId rate now = .ok body₂) :
    body₁.amount_settled ≤ body₂.amount_settled ∧
      body₁.legs.netMicro ≤ body₂.legs.netMicro + 1 := by
  obtain ⟨hrate0, hrate1, hs⟩ := settleable_of_ok hlock hdone h₁
  obtain ⟨hfee₁, hnet₁⟩ := settled_eq hlock hdone h₁
  obtain ⟨hfee₂, hnet₂⟩ := settled_eq hlock hdone h₂
  obtain ⟨m₁, hm₁, -, -⟩ := gross_grid hs.1 (some l₁)
  obtain ⟨m₂, hm₂, -, -⟩ := gross_grid hs.1 (some l₂)
  have hgross := gross_mono hs.1 hlen hpos hle
  have hm : m₁ ≤ m₂ := by
    rw [hm₁, hm₂, div_le_div_iff_of_pos_right (by norm_num)] at hgross
    exact_mod_cast hgross
  have hsettled : body₁.amount_settled ≤ body₂.amount_settled := by
    rw [hnet₁, hnet₂, hfee₁, hfee₂, hm₁, hm₂]
    exact net_mono hm hrate1
  have hceil : ⌈body₁.amount_settled⌉ ≤ ⌊body₂.amount_settled⌋ + 1 := by
    rw [Int.ceil_le]
    push_cast
    exact hsettled.trans (Int.lt_floor_add_one _).le
  have hlow := (netMicro_bounds body₂).1
  have hhigh := (netMicro_bounds body₁).2
  exact ⟨hsettled, by omega⟩

theorem mathRound_part {budget : ℤ} {rate : ℚ} (hb : 0 ≤ budget) (hr : IsFeeRate rate) :
    0 ≤ mathRound (budget * rate) ∧ mathRound (budget * rate) ≤ budget := by
  have hb' : (0 : ℚ) ≤ budget := by exact_mod_cast hb
  constructor
  · exact halfUp_nonneg (mul_nonneg hb' hr.1)
  · calc mathRound (budget * rate) ≤ halfUp (budget : ℚ) :=
          halfUp_mono (mul_le_of_le_one_right hb' hr.2.le)
      _ = budget := halfUp_intCast budget

theorem computeFederatedFeeSplit_ok {budget : ℤ} {rate : ℚ} {executorRate : Option ℚ}
    (hr : IsFeeRate rate) (he : ∀ r ∈ executorRate, IsFeeRate r) :
    ∃ split, computeFederatedFeeSplit budget rate executorRate = .ok split ∧
      split.originFeeMicro + split.executorFeeMicro + split.workerNetMicro = budget ∧
      (0 ≤ budget → 0 ≤ split.originFeeMicro ∧ 0 ≤ split.executorFeeMicro ∧
        0 ≤ split.workerNetMicro) := by
  have hexec : IsFeeRate (executorRate.getD rate) := by
    cases executorRate with
    | none => exact hr
    | some r => exact he r rfl
  unfold computeFederatedFeeSplit
  simp only [not_true, hr, hexec, if_false]
  refine ⟨_, rfl, by ring, ?_⟩
  intro hb
  obtain ⟨horigin0, horigin⟩ := mathRound_part hb hr
  have hforwarded : 0 ≤ budget - mathRound (budget * rate) := by omega
  obtain ⟨hexec0, hexecLe⟩ := mathRound_part hforwarded hexec
  exact ⟨horigin0, hexec0, sub_nonneg.2 hexecLe⟩

/-! ## §7. The lanes together -/

/-- At a price and a rate below one the p2p fee is charged, and a completed settlement of the
two together, where it is not too large to settle, pays the worker the price and records that
fee; only at a positive rate below a millionth may a micro-unit of the price be recorded as
fee.  A settlement of a whole lock has legs that are no negative and come to no more than the
lock, to all of it where all of the steps or none is completed.  Once a step is completed,
more completed steps settle no less, and pay no less but for a micro-unit of dust.  The three
legs across relays come to the budget, and split it. -/
theorem fee_lanes :
    (∀ (N : ℤ) (f : ℚ), 0 ≤ N → IsFeeRate f → ∃ P : ℤ, 0 ≤ P ∧ computeP2pFeeMicro N f = .ok P ∧
      ∀ (allocation : BudgetAllocation) (receipt : ExecutionReceipt)
        (ledger : Option GoalExecutionManifest) (settlementId : String) (now : ℤ),
        allocation.amount_locked = (N + P : ℤ) → receipt.status = .completed →
        (∀ l ∈ ledger, l.completed = l.steps.length) → ((N + P : ℤ) : ℚ) ≤ MAX_SAFE_INTEGER →
        ∃ body, settleOnReceipt allocation receipt ledger settlementId (some f) now = .ok body ∧
          (body.legs = ⟨N, P⟩ ∨ 0 < f ∧ f < 1 / 1000000 ∧ body.legs = ⟨N - 1, P + 1⟩)) ∧
    (∀ (L : ℤ) (allocation : BudgetAllocation) (receipt : ExecutionReceipt)
      (ledger : Option GoalExecutionManifest) (settlementId : String) (rate : Option ℚ) (now : ℤ),
      allocation.amount_locked = L → receipt.status = .completed →
      ((∃ body, settleOnReceipt allocation receipt ledger settlementId rate now = .ok body) ↔
        0 ≤ rate.getD PLATFORM_FEE_RATE ∧ rate.getD PLATFORM_FEE_RATE ≤ 1 ∧
          Settleable L ledger) ∧
      ∀ body, settleOnReceipt allocation receipt ledger settlementId rate now = .ok body →
        0 ≤ body.legs.netMicro ∧ 0 ≤ body.legs.feeMicro ∧
          body.legs.netMicro + body.legs.feeMicro ≤ L ∧
          ((∀ l ∈ ledger, l.Whole) → body.legs.netMicro + body.legs.feeMicro = L)) ∧
    (∀ (L : ℤ) (allocation : BudgetAllocation) (receipt : ExecutionReceipt)
      (l₁ l₂ : GoalExecutionManifest) (settlementId : String) (rate : Option ℚ) (now : ℤ)
      (body₁ body₂ : SettlementRecordBody),
      allocation.amount_locked = L → receipt.status = .completed →
      l₁.steps.length = l₂.steps.length → 0 < l₁.completed → l₁.completed ≤ l₂.completed →
      settleOnReceipt allocation receipt (some l₁) settlementId rate now = .ok body₁ →
      settleOnReceipt allocation receipt (some l₂) settlementId rate now = .ok body₂ →
      body₁.amount_settled ≤ body₂.amount_settled ∧
        body₁.legs.netMicro ≤ body₂.legs.netMicro + 1) ∧
    (∀ (budget : ℤ) (rate : ℚ) (executorRate : Option ℚ), IsFeeRate rate →
      (∀ r ∈ executorRate, IsFeeRate r) →
      ∃ split, computeFederatedFeeSplit budget rate executorRate = .ok split ∧
        split.originFeeMicro + split.executorFeeMicro + split.workerNetMicro = budget ∧
        (0 ≤ budget → 0 ≤ split.originFeeMicro ∧ 0 ≤ split.executorFeeMicro ∧
          0 ≤ split.workerNetMicro)) := by
  refine ⟨?_, ?_, ?_, ?_⟩
  · intro N f hN hf
    have hP : computeP2pFeeMicro N f = .ok (mathRound (N / (1 - f)) - N) := if_pos hf
    have hP0 := price_nonneg hN hf hP
    generalize mathRound ((N : ℚ) / (1 - f)) - N = P at hP hP0
    refine ⟨P, hP0, hP, ?_⟩
    intro allocation receipt ledger settlementId now hlock hdone hall hsafe
    have hwhole : ∀ l ∈ ledger, l.Whole := fun l hl => .inr (hall l hl)
    have hs : Settleable (N + P) ledger := by
      refine ⟨by omega, hsafe, ?_⟩
      intro l hl hpart
      exact absurd (hwhole l hl) hpart
    have hrate1 : (some f).getD PLATFORM_FEE_RATE ≤ 1 := hf.2.le
    have hok : ∃ body, settleOnReceipt allocation receipt ledger settlementId (some f) now =
        .ok body ∧ _ ∧ _ := settleOnReceipt_ok hlock hdone hf.1 hrate1 hs
    obtain ⟨body, hbody, -, -⟩ := hok
    exact ⟨body, hbody, settled_price hf hP hlock hdone hwhole hbody⟩
  · intro L allocation receipt ledger settlementId rate now hlock hdone
    refine ⟨⟨?_, ?_⟩, ?_⟩
    · rintro ⟨body, hbody⟩
      exact settleable_of_ok hlock hdone hbody
    · rintro ⟨h0, h1, hs⟩
      have hok : ∃ body, settleOnReceipt allocation receipt ledger settlementId rate now =
          .ok body ∧ _ ∧ _ := settleOnReceipt_ok hlock hdone h0 h1 hs
      obtain ⟨body, hbody, -, -⟩ := hok
      exact ⟨body, hbody⟩
    · intro body hbody
      exact settled_bounds hlock hdone hbody
  · intro L allocation receipt l₁ l₂ settlementId rate now body₁ body₂ hlock hdone hlen hpos hle
      h₁ h₂
    exact payout_mono hlock hdone hlen hpos hle h₁ h₂
  · intro budget rate executorRate hr he
    exact computeFederatedFeeSplit_ok hr he

/-- A price of nineteen at a twentieth: a fee of one. -/
theorem fee_lanes_nineteen : ∃ P : ℤ, 0 ≤ P ∧ computeP2pFeeMicro 19 (1 / 20) = .ok P :=
  have hrate : IsFeeRate (1 / 20) := by norm_num [IsFeeRate]
  (fee_lanes.1 19 (1 / 20) (by decide) hrate).imp fun _ h => ⟨h.1, h.2.1⟩

/-! ## §8. Where the lanes part -/

def legsOf (lock : ℚ) (steps : List String) (rate : ℚ) : Option SettlementSplitMicro :=
  match settleOnReceipt ⟨"a", lock⟩ ⟨"w", none, .completed⟩ (some ⟨"h", steps⟩) "s" (some rate) 0 with
  | .ok body => some body.legs
  | .error _ => none

/-- At a rate of a ten-millionth the p2p fee of a price is nothing while the settlement of it
records one micro-unit.  With no step completed the lock is paid in full, with one of two it
is half; by dust ten completed steps pay less than nine; skipped steps pay no part; and a
budget below nothing is shared out below nothing. -/
theorem lanes_part :
    (computeP2pFeeMicro 4999999 (1 / 10000000) = .ok 0 ∧
      legsOf 4999999 [] (1 / 10000000) = some ⟨4999998, 1⟩) ∧
    (legsOf 100 ["failed", "failed"] 0 = some ⟨100, 0⟩ ∧
      legsOf 100 ["completed", "failed"] 0 = some ⟨50, 0⟩) ∧
    (legsOf 1 (List.replicate 9 "completed" ++ ["failed"]) (1 / 2) = some ⟨1, 0⟩ ∧
      legsOf 1 (List.replicate 10 "completed") (1 / 2) = some ⟨0, 1⟩) ∧
    legsOf 100 ["completed", "skipped"] 0 = some ⟨50, 0⟩ ∧
    computeFederatedFeeSplit (-100) (1 / 2) none = .ok ⟨-50, -25, -25⟩ := by
  decide +kernel

end Motebit.Market
