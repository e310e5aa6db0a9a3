/-
  Motebit.Sovereign.Payments — WHAT A STEP PAYS FOR: one delegated step of the pay-forward
  adapter, over every candidate list and every answer of wallet, worker, ledger and caller.

  A receipt says which key it is to be checked under.  The adapter takes that key at its word: it
  checks no binding of the key to the paid worker or of the receipt to the task, takes a
  completed receipt that carries no key, and lets an exception of the check escape as an
  ordinary failure, which the next attempt follows with another payment.

  Main results: `pays_once_per_work`, `pays_twice`.
-/

import Motebit.Lib.Run
import Motebit.Sovereign.Adapter

namespace Motebit.Sovereign

open Motebit.Lib Motebit.Lib.Protocol List

/-! ## §1. The world -/

/-- Which receipts may answer a payment, given the worker and the task, and how the caller's
    callback may end. -/
structure Conduct where
  receipt : String → String → ExecutionReceipt → Prop
  submitted : Except String Unit → Prop

/-- Anything may be answered. -/
def Conduct.any : Conduct := ⟨fun _ _ _ => True, fun _ => True⟩

def Conduct.allows (C : Conduct) : (q : Question) → Answer q → Prop
  | .executeMcpTask call, .receipt r =>
    C.receipt call.workerMotebitId (sovereignTaskId call.workerMotebitId call.txHash) r
  | .onTaskSubmitted _, x => C.submitted x
  | _, _ => True

/-- Other steps delegated through the same adapter may add to its paid signatures. -/
def world (C : Conduct) : World Adapter Question Answer where
  init s := s.payments = []
  entry t p := t = 0 ∧ ∃ cfg step timeoutMs crossStepExclude,
    p = (delegateStep cfg step timeoutMs crossStepExclude).detach
  answer s q x s' := C.allows q x ∧ s' = Adapter.hears q x s
  env s s' := s'.payments = s.payments
  crash s s' := s'.payments = s.payments

/-! ## §2. What a payment may be followed by -/

section

-- `keyOf` is the key of each identity; `concerns task r` says that `r` is for the task.
variable (cfg : SovereignDelegationConfig) (keyOf : String → Bytes)
  (concerns : String → ExecutionReceipt → Prop)

/-- The receipt's signature verifies under the worker's own key. -/
def SignedBy (worker : String) (r : ExecutionReceipt) : Prop :=
  cfg.verifyReceipt r (keyOf worker) = .ok true

/-- The worker itself signed that it did not complete the task. -/
structure Declined (worker task : String) (r : ExecutionReceipt) : Prop where
  notCompleted : r.status ≠ "completed"
  names : r.motebitId = worker
  concerns : concerns task r
  signed : SignedBy cfg keyOf worker r

/-- The payment is proven absent, or the paid worker itself declined the task. -/
def Payment.Cleared (p : Payment) : Prop :=
  p.absent = true ∨
    ∃ r ∈ p.receipts, ∃ task, p.taskId = some task ∧ Declined cfg keyOf concerns p.worker task r

/-- Every payment but the latest is cleared. -/
def PaysOnce (s : Adapter) : Prop := ∀ p ∈ s.payments.tail, p.Cleared cfg keyOf concerns

/-- The step is reported completed with the paid worker's own receipt for the submitted task. -/
def Completed (result : DelegatedStepResult) (s : Adapter) : Prop :=
  ∃ p, s.payments.head? = some p ∧ p.taskId = some result.taskId ∧
    result.receipt ∈ p.receipts ∧ result.receipt.status = "completed" ∧
    concerns result.taskId result.receipt ∧ SignedBy cfg keyOf p.worker result.receipt

/-- The key the receipt carries can be checked; a completed receipt carries one; and where the
    adapter acts on a receipt that verified, the key is the paid worker's own and the receipt is
    for the task. -/
structure Genuine (worker task : String) (r : ExecutionReceipt) : Prop where
  readable : ∀ raw, r.publicKey = some raw →
    ∃ key verified, cfg.hexToBytes raw = .ok key ∧ cfg.verifyReceipt r key = .ok verified
  keyed : r.status = "completed" → r.publicKey ≠ none
  own : ∀ raw key, r.publicKey = some raw → cfg.hexToBytes raw = .ok key →
    cfg.verifyReceipt r key = .ok true → r.status = "completed" ∨ r.motebitId = worker →
    key = keyOf worker ∧ concerns task r

/-- Receipts are genuine, and the caller's callback does not throw. -/
def Conduct.sound : Conduct where
  receipt := Genuine cfg keyOf concerns
  submitted x := x = .ok ()

end

/-! ## §3. Assertions -/

section

variable (cfg : SovereignDelegationConfig) (keyOf : String → Bytes)
  (concerns : String → ExecutionReceipt → Prop)

/-- Every payment so far is cleared: another may be made. -/
def Ready (s : Adapter) : Prop := ∀ p ∈ s.payments, p.Cleared cfg keyOf concerns

def Sent (worker : String) (s : Adapter) : Prop :=
  ∃ p, s.payments.head? = some p ∧ p.worker = worker

def Paid (worker task : String) (s : Adapter) : Prop :=
  ∃ p, s.payments.head? = some p ∧ p.worker = worker ∧ p.taskId = some task

/-- The receipt was answered for that payment. -/
def Heard (worker task : String) (r : ExecutionReceipt) (s : Adapter) : Prop :=
  ∃ p, s.payments.head? = some p ∧ p.worker = worker ∧ p.taskId = some task ∧ r ∈ p.receipts

/-- An attempt that failed ends the step, or may be followed by another. -/
def Failed (err : DelegationError) (s : Adapter) : Prop :=
  err.terminal = true ∨ Ready cfg keyOf concerns s

/-- The one thread is the step's; whatever else happens leaves its payments alone. -/
def protocol : Protocol (world (Conduct.sound cfg keyOf concerns)) where
  Inv := PaysOnce cfg keyOf concerns
  Guar t s s' := t ≠ 0 → s'.payments = s.payments
  Fresh _ _ := True
  refl _ _ _ := rfl

def AboutPayments (L : Adapter → Prop) : Prop :=
  ∀ s s' : Adapter, s'.payments = s.payments → L s → L s'

variable {cfg keyOf concerns}

theorem AboutPayments.stable {L : Adapter → Prop} (h : AboutPayments L) :
    (protocol cfg keyOf concerns).Stable 0 L := by
  intro s s' _ _ hrely hl
  rcases hrely with ⟨u, hu, hguar⟩ | henv
  · exact h s s' (hguar hu) hl
  · exact h s s' henv hl

theorem AboutPayments.of_list (F : List Payment → Prop) : AboutPayments fun s => F s.payments := by
  intro s s' heq h
  rw [heq]
  exact h

theorem about_ready : AboutPayments (Ready cfg keyOf concerns) :=
  .of_list fun ps => ∀ p ∈ ps, p.Cleared cfg keyOf concerns

theorem about_failed (err : DelegationError) : AboutPayments (Failed cfg keyOf concerns err) :=
  .of_list fun ps => err.terminal = true ∨ ∀ p ∈ ps, p.Cleared cfg keyOf concerns

theorem about_sent (worker : String) : AboutPayments (Sent worker) :=
  .of_list fun ps => ∃ p, ps.head? = some p ∧ p.worker = worker

theorem about_paid (worker task : String) : AboutPayments (Paid worker task) :=
  .of_list fun ps => ∃ p, ps.head? = some p ∧ p.worker = worker ∧ p.taskId = some task

theorem about_heard (worker task : String) (r : ExecutionReceipt) :
    AboutPayments (Heard worker task r) :=
  .of_list fun ps =>
    ∃ p, ps.head? = some p ∧ p.worker = worker ∧ p.taskId = some task ∧ r ∈ p.receipts

theorem PaysOnce.ready {s : Adapter} {p : Payment} (h : PaysOnce cfg keyOf concerns s)
    (hhead : s.payments.head? = some p) (hp : p.Cleared cfg keyOf concerns) :
    Ready cfg keyOf concerns s := by
  obtain ⟨rest, hpayments⟩ := head?_eq_some_iff.mp hhead
  intro q hq
  rw [hpayments] at hq
  rcases mem_cons.mp hq with rfl | hrest
  · exact hp
  · refine h q ?_
    rw [hpayments]
    exact hrest

variable {f : Payment → Payment}

theorem PaysOnce.modifyHead {s s' : Adapter}
    (h : PaysOnce cfg keyOf concerns s) (heq : s'.payments = s.payments.modifyHead f) :
    PaysOnce cfg keyOf concerns s' := by
  intro p hp
  rw [heq] at hp
  refine h p ?_
  cases hpayments : s.payments with
  | nil | cons => rw [hpayments] at hp; exact hp

theorem head_modifyHead {ps : List Payment} {p : Payment}
    (h : ps.head? = some p) : (ps.modifyHead f).head? = some (f p) := by
  obtain ⟨rest, rfl⟩ := head?_eq_some_iff.mp h
  rfl

end

/-! ## §4. Steps that do not pay -/

section

variable {cfg : SovereignDelegationConfig} {keyOf : String → Bytes}
  {concerns : String → ExecutionReceipt → Prop} {α : Type} {L : Adapter → Prop}
  {E : DelegationError → Adapter → Prop} {worker task : String} {r : ExecutionReceipt}

/-- What holds of the payments before a question holds after it, if its answers add nothing. -/
theorem ask_quiet {q : Question} (hq : ∀ x s, (Adapter.hears q x s).payments = s.payments)
    (hL : AboutPayments L) :
    (protocol cfg keyOf concerns).Ensures 0 (Task.ask q) L (fun _ => L) E := by
  refine .ask (fun _ => hL.stable) ?_
  rintro s x _ hinv hl ⟨-, rfl⟩
  refine ⟨?_, fun hne => absurd rfl hne, hL s _ (hq x s) hl⟩
  show PaysOnce cfg keyOf concerns _
  unfold PaysOnce
  rw [hq x s]
  exact hinv

theorem ask_now (hL : AboutPayments L) :
    (protocol cfg keyOf concerns).Ensures 0 (Task.ask Question.now) L (fun _ => L) E :=
  ask_quiet (fun _ _ => rfl) hL

theorem ledgerWrite_quiet {op : LedgerWrite} {entry : SovereignPaidEntry} (hL : AboutPayments L) :
    (protocol cfg keyOf concerns).Ensures 0 (ledgerWrite cfg op entry) L (fun _ => L) E := by
  unfold ledgerWrite
  split
  · exact ask_quiet (fun _ _ => rfl) hL
  · exact .pure fun _ _ hl => hl

theorem discoverCandidates_quiet (step : PlanStep) (excludeAgents : List String)
    (hL : AboutPayments L) :
    (protocol cfg keyOf concerns).Ensures 0 (discoverCandidates step excludeAgents) L
      (fun _ => L) fun _ => L := by
  refine (ask_quiet (fun _ _ => rfl) hL).bind fun x => ?_
  cases x with
  | threw | refused => exact .throw fun _ _ hl => hl
  | candidates => exact .pure fun _ _ hl => hl

theorem refuseIfAlreadyPaid_quiet (worker capability : String) (hL : AboutPayments L) :
    (protocol cfg keyOf concerns).Ensures 0 (refuseIfAlreadyPaid cfg worker capability) L
      (fun _ => L) fun _ => L := by
  unfold refuseIfAlreadyPaid
  split
  · refine (ask_quiet (fun _ _ => rfl) hL).bind fun x => ?_
    cases x with
    | error => exact .throw fun _ _ hl => hl
    | ok verdict =>
      cases verdict with
      | unlocked => exact .pure fun _ _ hl => hl
      | locked scope => cases scope <;> exact .throw fun _ _ hl => hl
  · exact .pure fun _ _ hl => hl

/-! ## §5. Paying -/

/-- What a look at the wallet has settled: the payment stands, and an absent one is cleared. -/
def Looked (cfg : SovereignDelegationConfig) (keyOf : String → Bytes)
    (concerns : String → ExecutionReceipt → Prop) (worker : String) : Verdict → Adapter → Prop
  | .absent, s => Ready cfg keyOf concerns s
  | _, s => Sent worker s

theorem ask_confirmSend (worker : String) (query : ConfirmQuery) (exclude : List String) :
    (protocol cfg keyOf concerns).Ensures 0 (Task.ask (Question.confirmSend query exclude))
      (Sent worker)
      (fun x s => match x with
        | .ok .absent => Ready cfg keyOf concerns s
        | _ => Sent worker s) E := by
  refine .ask (fun x => AboutPayments.stable ?_) ?_
  · split
    · exact about_ready
    · exact about_sent worker
  rintro s x _ hinv hsent ⟨-, rfl⟩
  split
  · have hinv' : PaysOnce cfg keyOf concerns s.provedAbsent := .modifyHead hinv rfl
    obtain ⟨p, hhead, -⟩ := hsent
    exact ⟨hinv', fun hne => absurd rfl hne, hinv'.ready (head_modifyHead hhead) (.inl rfl)⟩
  next hother =>
  have hsame : Adapter.hears (.confirmSend query exclude) x s = s := by
    cases x with
    | error => rfl
    | ok verdict =>
      cases verdict with
      | absent => exact absurd rfl hother
      | landed | pending | unknown => rfl
  rw [hsame]
  exact ⟨hinv, fun hne => absurd rfl hne, hsent⟩

theorem confirmLoop_looked (worker : String) (query : ConfirmQuery) (deadline : Int) (looks : Nat) :
    (protocol cfg keyOf concerns).Ensures 0 (confirmLoop query deadline looks) (Sent worker)
      (Looked cfg keyOf concerns worker) E := by
  induction looks with
  | zero => exact .pure fun _ _ hl => hl
  | succ looks ih =>
    refine .bind (Ensures.read (Q := fun _ => Sent worker)
      (fun _ => (about_sent worker).stable) fun _ _ hl => hl) fun exclude => ?_
    refine (ask_confirmSend worker query exclude).bind fun x => ?_
    cases x with
    | error => exact .pure fun _ _ hl => hl
    | ok verdict =>
      cases verdict with
      | landed | absent | unknown => exact .pure fun _ _ hl => hl
      | pending =>
        -- A transfer that may still land is looked for again, within the deadline.
        dsimp only
        split
        · exact .pure fun _ _ hl => hl
        · refine (ask_now (about_sent worker)).bind fun now => ?_
          exact (ask_quiet (fun _ _ => rfl) (about_sent worker)).bind fun _ => ih

theorem confirmPayment_looked (worker : String) (query : ConfirmQuery) :
    (protocol cfg keyOf concerns).Ensures 0 (confirmPayment cfg query) (Sent worker)
      (Looked cfg keyOf concerns worker) E := by
  unfold confirmPayment
  split
  · exact confirmLoop_looked worker query _ 3
  · exact .pure fun _ _ hl => hl

theorem afterFailedSend_sent (worker toAddress : String) (microAmount sentAtMs : Int)
    (sendMsg : String) : (protocol cfg keyOf concerns).Ensures 0
      (afterFailedSend cfg worker toAddress microAmount sentAtMs sendMsg) (Sent worker)
      (fun _ => Sent worker) (Failed cfg keyOf concerns) := by
  refine (ask_now (about_sent worker)).bind fun failedAtMs => ?_
  refine (confirmPayment_looked worker _).bind fun v => ?_
  cases v with
  | landed => exact .pure fun _ _ hl => hl
  | absent => exact .throw fun _ _ hready => .inr hready
  | unknown => exact .throw fun _ _ _ => .inl rfl

theorem paying_sent (p : Payment) :
    (protocol cfg keyOf concerns).Ensures 0 (Task.modify (Adapter.paying p))
      (Ready cfg keyOf concerns) (fun _ => Sent p.worker) E := by
  refine .act (fun _ => (about_sent p.worker).stable) fun s _ hready => ?_
  exact ⟨hready, fun hne => absurd rfl hne, p, rfl, rfl⟩

theorem pay_sent (worker toAddress : String) (costMicro : ℚ) :
    (protocol cfg keyOf concerns).Ensures 0 (pay cfg worker toAddress costMicro)
      (Ready cfg keyOf concerns) (fun _ => Sent worker) (Failed cfg keyOf concerns) := by
  unfold pay
  cases hcost : bigInt costMicro with
  | error => exact .throw fun _ _ hready => .inr hready
  | ok microAmount =>
    refine (ask_now about_ready).bind fun sentAtMs => ?_
    refine (paying_sent { worker, toAddress, microAmount }).bind fun _ => ?_
    refine (ask_quiet (fun _ _ => rfl) (about_sent worker)).bind fun x => ?_
    cases x with
    | ok => exact .pure fun _ _ hl => hl
    | error sendMsg =>
      refine (afterFailedSend_sent worker toAddress microAmount sentAtMs sendMsg).bind fun _ => ?_
      exact .pure fun _ _ hl => hl

/-! ## §6. Reading the receipt -/

section

variable (h : Genuine cfg keyOf concerns worker task r)
include h

/-- A genuine receipt that was checked was checked under a key, which is the worker's own where
    the adapter acts on it. -/
theorem Genuine.checked (hcheck : checkReceipt cfg r = .ok (some true))
    (hacts : r.status = "completed" ∨ r.motebitId = worker) :
    concerns task r ∧ SignedBy cfg keyOf worker r := by
  unfold checkReceipt at hcheck
  split at hcheck
  · cases hcheck
  next raw hraw =>
  split at hcheck
  · cases hcheck
  next key hkey =>
  split at hcheck
  · cases hcheck
  next verified hverified =>
  cases hcheck
  obtain ⟨rfl, hconcerns⟩ := h.own raw key hraw hkey hverified hacts
  exact ⟨hconcerns, hverified⟩

theorem Genuine.check_ne_error {err : String} : checkReceipt cfg r ≠ .error err := by
  unfold checkReceipt
  split
  · exact fun hne => by cases hne
  next raw hraw =>
  obtain ⟨key, verified, hkey, hverified⟩ := h.readable raw hraw
  rw [hkey]
  dsimp only
  rw [hverified]
  exact fun hne => by cases hne

theorem Genuine.check_ne_none
    (hcompleted : r.status = "completed") : checkReceipt cfg r ≠ .ok none := by
  unfold checkReceipt
  split
  next hraw => exact absurd hraw (h.keyed hcompleted)
  next raw hraw =>
  split
  · exact fun hne => by cases hne
  split
  · exact fun hne => by cases hne
  · exact fun hne => by cases hne

end

/-- The receipt decides: the step is completed by the worker's own receipt, or it failed, and
    only the worker's own refusal lets another attempt follow. -/
theorem readReceipt_completed (step : PlanStep) (entry : SovereignPaidEntry) (r : ExecutionReceipt)
    (hr : Genuine cfg keyOf concerns entry.workerMotebitId entry.taskId r) :
    (protocol cfg keyOf concerns).Ensures 0 (readReceipt cfg step entry r)
      (Heard entry.workerMotebitId entry.taskId r) (Completed cfg keyOf concerns)
      (Failed cfg keyOf concerns) := by
  have habout := about_heard entry.workerMotebitId entry.taskId r
  unfold readReceipt
  cases hcheck : checkReceipt cfg r with
  | error => exact absurd hcheck hr.check_ne_error
  | ok verified =>
    cases verified with
    | none =>
      -- Without a key nothing was verified, and a genuine receipt is not completed.
      dsimp only
      rw [if_pos (fun hcompleted => hr.check_ne_none hcompleted hcheck), if_pos (.inl rfl)]
      exact (ledgerWrite_quiet habout).bind fun _ => .throw fun _ _ _ => .inl rfl
    | some verified =>
      cases verified with
      | false => exact (ledgerWrite_quiet habout).bind fun _ => .throw fun _ _ _ => .inl rfl
      | true =>
        dsimp only
        split
        next hnot =>
          split
          · exact (ledgerWrite_quiet habout).bind fun _ => .throw fun _ _ _ => .inl rfl
          next hnames =>
            refine (ledgerWrite_quiet habout).bind fun _ => .throw fun s hinv hheard => .inr ?_
            have hworker : r.motebitId = entry.workerMotebitId := by
              by_contra hne
              exact hnames (.inr hne)
            obtain ⟨hconcerns, hsigned⟩ := hr.checked hcheck (.inr hworker)
            obtain ⟨p, hhead, hpaid, htask, hmem⟩ := hheard
            refine PaysOnce.ready hinv hhead (.inr ⟨r, hmem, entry.taskId, htask, ?_⟩)
            rw [hpaid]
            exact ⟨hnot, hworker, hconcerns, hsigned⟩
        next hcompleted =>
          have hcompleted : r.status = "completed" := not_not.mp hcompleted
          refine (ledgerWrite_quiet habout).bind fun _ => .pure fun s _ hheard => ?_
          obtain ⟨hconcerns, hsigned⟩ := hr.checked hcheck (.inl hcompleted)
          obtain ⟨p, hhead, hpaid, htask, hmem⟩ := hheard
          refine ⟨p, hhead, htask, hmem, hcompleted, hconcerns, ?_⟩
          rw [hpaid]
          exact hsigned

theorem ask_executeMcpTask (worker txHash : String) (call : McpCall)
    (hworker : call.workerMotebitId = worker) (htx : call.txHash = txHash) :
    (protocol cfg keyOf concerns).Ensures 0 (Task.ask (Question.executeMcpTask call))
      (Paid worker (sovereignTaskId worker txHash))
      (fun x s => match x with
        | .receipt r => Heard worker (sovereignTaskId worker txHash) r s ∧
            Genuine cfg keyOf concerns worker (sovereignTaskId worker txHash) r
        | .undelivered _ => Paid worker (sovereignTaskId worker txHash) s) E := by
  subst hworker htx
  refine .ask (fun x => ?_) ?_
  · cases x with
    | receipt r =>
      exact fun s s' hi hi' hrely hl => ⟨(about_heard _ _ r).stable s s' hi hi' hrely hl.1, hl.2⟩
    | undelivered => exact (about_paid _ _).stable
  rintro s x _ hinv ⟨p, hhead, hpaid, htask⟩ ⟨hallows, rfl⟩
  cases x with
  | receipt r =>
    have hinv' : PaysOnce cfg keyOf concerns (s.answered r) := .modifyHead hinv rfl
    refine ⟨hinv', fun hne => absurd rfl hne, ?_, hallows⟩
    exact ⟨_, head_modifyHead hhead, hpaid, htask, mem_cons_self⟩
  | undelivered => exact ⟨hinv, fun hne => absurd rfl hne, p, hhead, hpaid, htask⟩

theorem present_completed (step : PlanStep) (timeoutMs : Int) (endpointUrl : String)
    (entry : SovereignPaidEntry)
    (htask : entry.taskId = sovereignTaskId entry.workerMotebitId entry.txHash) :
    (protocol cfg keyOf concerns).Ensures 0 (present cfg step timeoutMs endpointUrl entry)
      (Paid entry.workerMotebitId entry.taskId) (Completed cfg keyOf concerns)
      (Failed cfg keyOf concerns) := by
  have habout := about_paid entry.workerMotebitId entry.taskId
  refine (ledgerWrite_quiet habout).bind fun _ => ?_
  have hsubmitted : (protocol cfg keyOf concerns).Ensures 0
      (Task.ask (Question.onTaskSubmitted entry.taskId))
      (Paid entry.workerMotebitId entry.taskId)
      (fun x s => Paid entry.workerMotebitId entry.taskId s ∧ x = .ok ())
      (Failed cfg keyOf concerns) := by
    refine .ask (fun x => ?_) ?_
    · exact fun s s' hi hi' hrely hl => ⟨habout.stable s s' hi hi' hrely hl.1, hl.2⟩
    · rintro s x _ hinv hpaid ⟨hallows, rfl⟩
      exact ⟨hinv, fun hne => absurd rfl hne, hpaid, hallows⟩
  refine hsubmitted.bind fun x => .of_pure fun hx => ?_
  subst hx
  rw [htask]
  refine (ask_executeMcpTask entry.workerMotebitId entry.txHash _ rfl rfl).bind fun x => ?_
  cases x with
  | receipt r =>
    refine .of_pure fun hr => ?_
    rw [← htask] at hr ⊢
    exact readReceipt_completed step entry r hr
  | undelivered =>
    exact (ledgerWrite_quiet (about_paid _ _)).bind fun _ => .throw fun _ _ _ => .inl rfl

/-! ## §7. Attempts -/

theorem paid_task (worker txHash task : String) :
    (protocol cfg keyOf concerns).Ensures 0 (Task.modify (Adapter.paid txHash task))
      (Sent worker) (fun _ => Paid worker task) E := by
  refine .act (fun _ => (about_paid worker task).stable) ?_
  rintro s hinv ⟨p, hhead, hworker⟩
  have hinv' : PaysOnce cfg keyOf concerns (s.paid txHash task) := .modifyHead hinv rfl
  exact ⟨hinv', fun hne => absurd rfl hne, _, head_modifyHead hhead, hworker, rfl⟩

theorem hire_completed (step : PlanStep) (timeoutMs : Int) (candidate : DiscoveredCandidate) :
    (protocol cfg keyOf concerns).Ensures 0 (hire cfg step timeoutMs candidate)
      (Ready cfg keyOf concerns) (Completed cfg keyOf concerns) (Failed cfg keyOf concerns) := by
  unfold hire
  dsimp only
  split
  · exact .throw fun _ _ hready => .inr hready
  split
  · exact .throw fun _ _ hready => .inr hready
  · refine .bind ((refuseIfAlreadyPaid_quiet _ _ about_ready).weaken
      (fun _ _ _ hl => hl) fun _ _ _ hl => .inr hl) fun _ => ?_
    refine (pay_sent candidate.motebitId _ _).bind fun payment => ?_
    refine (paid_task candidate.motebitId payment.1 _).bind fun _ => ?_
    refine (ask_now (about_paid _ _)).bind fun recordedAt => ?_
    exact present_completed step timeoutMs _ ⟨candidate.motebitId, step.capability,
      sovereignTaskId candidate.motebitId payment.1, payment.1, payment.2, 0, recordedAt⟩ rfl

theorem attempt_completed (step : PlanStep) (timeoutMs : Int) (excludeAgents : List String) :
    (protocol cfg keyOf concerns).Ensures 0
      (attemptSovereignDelegation cfg step timeoutMs excludeAgents)
      (Ready cfg keyOf concerns) (Completed cfg keyOf concerns) (Failed cfg keyOf concerns) := by
  refine .bind ((discoverCandidates_quiet step excludeAgents about_ready).weaken
    (fun _ _ _ hl => hl) fun _ _ _ hl => .inr hl) fun candidates => ?_
  split
  · exact .throw fun _ _ hready => .inr hready
  · refine (ask_quiet (fun _ _ => rfl) about_ready).bind fun x => ?_
    cases x with
    | error => exact .throw fun _ _ hready => .inr hready
    | ok =>
      dsimp only
      split
      · exact .throw fun _ _ hready => .inr hready
      next candidate _ => exact hire_completed step timeoutMs candidate

/-- The loop: induction on the attempts left, each of which starts with every payment cleared. -/
theorem attempts_completed (step : PlanStep) (timeoutMs : Int) (left : Nat) :
    ∀ (attempt : Nat) (excludeAgents : List String) (lastError : Option DelegationError),
      (protocol cfg keyOf concerns).Ensures 0
        (attempts cfg step timeoutMs left attempt excludeAgents lastError)
        (Ready cfg keyOf concerns) (Completed cfg keyOf concerns) fun _ _ => True := by
  induction left with
  | zero =>
    intro attempt excludeAgents lastError
    exact .throw fun _ _ _ => trivial
  | succ left ih =>
    intro attempt excludeAgents lastError
    refine (attempt_completed step timeoutMs excludeAgents).catching fun err => ?_
    refine (ask_quiet (fun _ _ => rfl) (about_failed err)).bind fun x => ?_
    cases x with
    | error => exact .throw fun _ _ _ => trivial
    | ok _ =>
      dsimp only
      split
      · exact .throw fun _ _ _ => trivial
      next hterminal =>
      split
      · exact .throw fun _ _ _ => trivial
      · refine (ih _ _ _).mono fun s _ hfailed => ?_
        rcases hfailed with hterm | hready
        · exact absurd hterm hterminal
        · exact hready

end

/-! ## §8. Every run -/

section

variable {cfg : SovereignDelegationConfig} {keyOf : String → Bytes}
  {concerns : String → ExecutionReceipt → Prop}

/-- **One payment for one piece of work**, in every store a run of the step reaches: a second
    payment was handed to the wallet only after the earlier one was proven absent or the worker
    paid declined the task under its own key, and a completed step has the paid worker's own
    receipt for the task. -/
theorem pays_once_per_work {step : PlanStep} {timeoutMs : Int} {crossStepExclude : List String}
    {s s' : Adapter} {q : Prog Adapter Question Answer (Except DelegationError DelegatedStepResult)}
    (hstart : s.payments = []) (hrun : Walk (world (Conduct.sound cfg keyOf concerns))
      (delegateStep cfg step timeoutMs crossStepExclude).run s q s') :
    PaysOnce cfg keyOf concerns s' ∧
      ∀ result, q = .done (.ok result) → Completed cfg keyOf concerns result s' := by
  have hready : Ready cfg keyOf concerns s := by
    intro p hp
    rw [hstart] at hp
    cases hp
  have hinv : PaysOnce cfg keyOf concerns s := fun p hp => hready p (mem_of_mem_tail hp)
  have hsafe : (protocol cfg keyOf concerns).Ensures 0
      (delegateStep cfg step timeoutMs crossStepExclude) (Ready cfg keyOf concerns)
      (Completed cfg keyOf concerns) fun _ _ => True :=
    attempts_completed step timeoutMs _ 0 crossStepExclude none
  have henv : ∀ s s' : Adapter, PaysOnce cfg keyOf concerns s → s'.payments = s.payments →
      PaysOnce cfg keyOf concerns s' ∧ (protocol cfg keyOf concerns).Rely 0 s s' := by
    intro s s' hs heq
    refine ⟨?_, .inr heq⟩
    unfold PaysOnce
    rw [heq]
    exact hs
  obtain ⟨hinv', L', hl', hq⟩ := Protocol.Safe.walk hsafe (fun _ _ _ _ ha => ha) henv hrun
    about_ready.stable hinv hready
  refine ⟨hinv', fun result hresult => ?_⟩
  subst hresult
  exact hq s' hinv' hl'

theorem PaysOnce.signed {s : Adapter} (h : PaysOnce cfg keyOf concerns s) :
    ∀ p ∈ s.payments.tail,
      p.absent = true ∨ ∃ r ∈ p.receipts, cfg.verifyReceipt r (keyOf p.worker) = .ok true := by
  intro p hp
  rcases h p hp with habsent | ⟨r, hr, task, -, hdeclined⟩
  · exact .inl habsent
  · exact .inr ⟨r, hr, hdeclined.signed⟩

theorem Completed.signed {result : DelegatedStepResult} {s : Adapter}
    (h : Completed cfg keyOf concerns result s) :
    ∃ p ∈ s.payments, cfg.verifyReceipt result.receipt (keyOf p.worker) = .ok true := by
  obtain ⟨p, hhead, -, -, -, -, hsigned⟩ := h
  exact ⟨p, mem_of_mem_head? hhead, hsigned⟩

end

/-! ## §9. Two workers

Keys are spelled as the identity they belong to, and a signature as the key it was made with. -/

def keyBytes (text : String) : Bytes := text.toList.map fun c => UInt8.ofNat c.toNat

def twoWorkerConfig : SovereignDelegationConfig where
  hasPaidLedger := true
  canConfirmSend := true
  maxRetries := none
  paymentConfirmMaxWaitMs := none
  verifyReceipt r key := .ok (keyBytes r.signature == key)
  hexToBytes
    | .text hex => .ok (keyBytes hex)
    | .json _ => .error "hex.slice is not a function"

def searchStep : PlanStep where
  stepId := "step-1"
  description := "search"
  prompt := "find it"
  requiredCapabilities := some ["search"]

def onlineWorker (motebitId : String) : DiscoveredCandidate where
  motebitId := motebitId
  endpointUrl := some "https://worker"
  payToAddress := some "wallet"
  pricing := [⟨500000, "task"⟩]
  isOnline := true

/-- Every question but the worker's is answered in favour of the step, which hires the first
    candidate it is offered. -/
def obliging (reply : McpCall → ExecutionReceipt) (n : ℕ) : (q : Question) → Answer q
  | .market _ => .candidates [onlineWorker "a", onlineWorker "b"]
  | .selectWorker cs _ => .ok (cs.head?.map RankedCandidate.motebitId)
  | .ledgerCheck .. => .ok .unlocked
  | .ledgerWrite .. => ()
  | .now => 0
  | .sleep _ => ()
  | .send .. => .ok s!"tx{n}"
  | .confirmSend .. => .ok .absent
  | .onTaskSubmitted _ => .ok ()
  | .executeMcpTask call => .receipt (reply call)
  | .onDelegationFailure .. => .ok ()

def ranToEnd (reply : McpCall → ExecutionReceipt) :
    Except DelegationError DelegatedStepResult × Adapter :=
  Prog.play Adapter.hears (obliging reply) 0 (delegateStep twoWorkerConfig searchStep 5000 []).run
    ⟨[], []⟩

theorem ranToEnd_walk {C : Conduct} {reply : McpCall → ExecutionReceipt}
    (hreply : ∀ call, C.receipt call.workerMotebitId
      (sovereignTaskId call.workerMotebitId call.txHash) (reply call))
    (hsubmitted : C.submitted (.ok ())) :
    Walk (world C) (delegateStep twoWorkerConfig searchStep 5000 []).run ⟨[], []⟩
      (.done (ranToEnd reply).1) (ranToEnd reply).2 := by
  have hallows : ∀ n q, C.allows q (obliging reply n q) := by
    intro n q
    cases q with
    | executeMcpTask call => exact hreply call
    | onTaskSubmitted => exact hsubmitted
    | _ => exact trivial
  exact Prog.play_walk (W := world C) (fun n q s => ⟨hallows n q, rfl⟩) _ 0 _

/-- A receipt for the call with the given status, key and signature. -/
def reply (status : McpCall → String) (publicKey : McpCall → Option PublicKey)
    (signature : McpCall → String) (call : McpCall) : ExecutionReceipt where
  taskId := sovereignTaskId call.workerMotebitId call.txHash
  motebitId := call.workerMotebitId
  publicKey := publicKey call
  status := status call
  result := "done"
  signature := signature call
  rest := ""

/-- The first worker declines, the second completes, each under its own key. -/
def honestReply : McpCall → ExecutionReceipt :=
  reply (fun call => if call.workerMotebitId = "a" then "failed" else "completed")
    (fun call => some (.text call.workerMotebitId)) fun call => call.workerMotebitId

theorem honestReply_genuine (call : McpCall) :
    Genuine twoWorkerConfig keyBytes (fun task r => r.taskId = task) call.workerMotebitId
      (sovereignTaskId call.workerMotebitId call.txHash) (honestReply call) where
  readable raw hraw := by
    cases hraw
    exact ⟨_, _, rfl, rfl⟩
  keyed _ := by
    nofun
  own raw key hraw hkey _ _ := by
    cases hraw
    cases hkey
    exact ⟨rfl, rfl⟩

theorem pays_once_per_work_rehired :
    (ranToEnd honestReply).2.payments.length = 2 ∧
      PaysOnce twoWorkerConfig keyBytes (fun task r => r.taskId = task) (ranToEnd honestReply).2 ∧
      ∀ result, Prog.done (ranToEnd honestReply).1 =
          (.done (.ok result) : Prog Adapter Question Answer _) →
        Completed twoWorkerConfig keyBytes (fun task r => r.taskId = task) result
          (ranToEnd honestReply).2 :=
  ⟨by decide +kernel, pays_once_per_work rfl (ranToEnd_walk honestReply_genuine rfl)⟩

/-- A completed receipt whose key is no string: the check throws. -/
def unreadableReply : McpCall → ExecutionReceipt :=
  reply (fun _ => "completed") (fun _ => some (.json "\x7b\"length\":2\x7d")) fun _ => ""

/-- A failure in the worker's name, under the attacker's own key. -/
def forgedReply : McpCall → ExecutionReceipt :=
  reply (fun _ => "failed") (fun _ => some (.text "mallory")) fun _ => "mallory"

/-- A completed receipt that carries no key and nobody signed. -/
def unsignedReply : McpCall → ExecutionReceipt :=
  reply (fun _ => "completed") (fun _ => none) fun _ => ""

/-- A key that cannot be read, or an attacker's own key under the worker's name, makes the step
    pay again though nobody declined; a receipt without a key completes it. -/
theorem pays_twice :
    (∀ reply ∈ [unreadableReply, forgedReply], ∃ q s',
      Walk (world Conduct.any) (delegateStep twoWorkerConfig searchStep 5000 []).run ⟨[], []⟩ q s' ∧
        ∀ concerns, ¬PaysOnce twoWorkerConfig keyBytes concerns s') ∧
    ∃ result s',
      Walk (world Conduct.any) (delegateStep twoWorkerConfig searchStep 5000 []).run ⟨[], []⟩
          (.done (.ok result)) s' ∧
        ∀ concerns, ¬Completed twoWorkerConfig keyBytes concerns result s' := by
  have hwalk : ∀ reply, Walk (world Conduct.any)
      (delegateStep twoWorkerConfig searchStep 5000 []).run ⟨[], []⟩
      (.done (ranToEnd reply).1) (ranToEnd reply).2 :=
    fun reply => ranToEnd_walk (fun _ => trivial) trivial
  refine ⟨fun reply hreply => ⟨_, _, hwalk reply, fun concerns hpays => ?_⟩, ?_⟩
  · have hsigned := hpays.signed
    revert hsigned
    simp only [mem_cons, not_mem_nil, or_false] at hreply
    rcases hreply with rfl | rfl
    · decide +kernel
    · decide +kernel
  · have hresult : (ranToEnd unsignedReply).1 = .ok ⟨"step-1", "sovereign:a:tx4",
        unsignedReply ⟨"", "a", "", "tx4", 0⟩, "done"⟩ := by decide +kernel
    refine ⟨_, _, hresult ▸ hwalk unsignedReply, fun concerns hcompleted => ?_⟩
    have hsigned := hcompleted.signed
    revert hsigned
    decide +kernel

end Motebit.Sovereign
