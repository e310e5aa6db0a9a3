/-
  Motebit.Disputes.FundAction — THE FUND ACTION OF A VERDICT (`executeFundAction` in
  services/relay/src/disputes.ts, dispute-fund-ledger.ts).

  What may move is read from the ledger inside the resolving transaction: the escrow still held
  and what the allocation's settlements paid.  The delegator's share of what was paid is clawed
  back, the escrow is distributed, and the claim that the allocation's one fund action ran is
  written with it.

  Main results: `executeFundAction_ok`.
-/

import Mathlib.Algebra.Order.BigOperators.Group.List
import Motebit.Disputes.Tables
import Motebit.Escrow.Effects

namespace Motebit.Disputes

open Motebit.Lib List
open Motebit.Accounts
open Motebit.Escrow (Db AllocationMove MoveError moveAllocationMoney)

/-! ## §1. Faults -/

inductive Fault
  | http (status : Nat) (message : String)
  | emergencyFrozen
  | fundActionRefused (reason : FundRefusalReason) (message : String)
  | error (message : String)
  deriving DecidableEq

/-- What the relay knows outside these tables: its own id, the payee named in a signed
    settlement body and the delegator column of a settlement row. -/
structure Relay where
  relayMotebitId : String
  signedPayee : String → Option String
  settlementDelegator : String → Option String

/-! ## §2. The ledger position -/

structure AllocationLedgerPosition where
  taskId : Option String
  delegator : Option String
  worker : Option String
  escrowRemaining : Int
  paid : List (String × Int)
  priorDisputeRows : Nat
  settled : Bool
  reviewReason : Option String

def allocationLedgerPosition (db : Db) (allocationId : String) : AllocationLedgerPosition where
  taskId := (db.allocation? allocationId).map (·.taskId)
  delegator := db.allocationHoldPayer allocationId
  worker := (db.allocation? allocationId).map (·.motebitId)
  escrowRemaining := db.allocationHeld allocationId
  paid := db.allocationPaidAccounts allocationId
  priorDisputeRows := (db.allocationDisputeRows allocationId).length
  settled := db.settlements.any fun s => s.allocationId == allocationId && s.isRelay
  reviewReason := db.allocationReviewReason allocationId

namespace AllocationLedgerPosition

variable (pos : AllocationLedgerPosition) (ratio : ℚ)

/-- The single paid account, if there is exactly one. -/
def recipient : Option String :=
  match pos.paid with
  | [p] => some p.1
  | _ => none

def net : Int := (pos.paid.map (·.2)).sum

def claw : Int := pos.net - mulFloor pos.net ratio

def escrowWorker : Int := mulFloor pos.escrowRemaining ratio

def delegatorCredit : Int := pos.escrowRemaining - pos.escrowWorker ratio + pos.claw ratio

def routable : Bool :=
  (pos.claw ratio == 0 || pos.recipient.isSome) &&
  (pos.delegatorCredit ratio == 0 || pos.delegator.isSome) &&
  (pos.escrowWorker ratio == 0 || pos.worker.isSome)

end AllocationLedgerPosition

/-! ## §3. The fund action -/

/-- `claimFundAction`: `INSERT … ON CONFLICT DO NOTHING` under three unique columns; `none`
    when a claim stands. -/
def claimFundAction (claim : FundActionClaim) (s : Store) : Option Store :=
  if s.fundActions.any fun c => c.allocationId == claim.allocationId
      || c.taskId == claim.taskId || c.disputeId == claim.disputeId then none
  else some { s with fundActions := s.fundActions ++ [claim] }

def closeDisputedAllocation (allocationId : String) (settled : Bool) (s : Store) : Store :=
  if s.allocationStatus allocationId = .disputed then
    let status : AllocationStatus := if settled then .settled else .released
    { s with allocationStatus := Function.update s.allocationStatus allocationId status }
  else s

def refusalReason : Escrow.AllocationMoneyRefusal → FundRefusalReason
  | .insufficientBalance => .clawbackInsufficient
  | .underReview => .underReview
  | _ => .unroutable

/-- A movement's error as the finalizing transaction sees it. -/
def legFault (disputeId : String) : MoveError → Fault
  | .emergencyFrozen => .emergencyFrozen
  | .refused reason _ message =>
    .fundActionRefused (refusalReason reason) ("Dispute " ++ disputeId ++ ": " ++ message)
  | .constraintFailed message => .error message
  | .escrowOverdrawn => .error "allocation escrow overdrawn"

section

variable (R : Relay)

/-- One leg, moved only when there is something to move. -/
def leg (amb : Escrow.Ambient) (disputeId : String) (move : AllocationMove) (db : Db) :
    Except Fault Db :=
  if 0 < move.amount then (moveAllocationMoney R.signedPayee db amb move).mapError (legFault disputeId)
  else .ok db

/-- The three legs, in the order they move. -/
def moveLegs (amb : Escrow.Ambient) (d : Dispute) (money : Money)
    (pos : AllocationLedgerPosition) (db : Db) : Except Fault Db := do
  let text := " (" ++ money.fundAction.text ++ "): " ++ d.disputeId
  -- `routable` holds here, so a leg with something to move has its party
  let db₁ ← leg R amb d.disputeId (.disputeClawback d.allocationId (pos.claw money.splitRatio)
    (pos.recipient.getD "") d.disputeId ("Dispute claw-back" ++ text)) db
  let db₂ ← leg R amb d.disputeId (.disputeWorker d.allocationId
    (pos.escrowWorker money.splitRatio) (pos.worker.getD "") d.disputeId
    ("Dispute release" ++ text)) db₁
  leg R amb d.disputeId (.disputeDelegator d.allocationId (pos.delegatorCredit money.splitRatio)
    (pos.delegator.getD "") d.disputeId ("Dispute refund" ++ text)) db₂

/-- The claim a fund action writes: the ledger delta on the hold payer and on everyone else. -/
def fundActionClaim (d : Dispute) (taskId : String) (money : Money)
    (pos : AllocationLedgerPosition) (now : Nat) : FundActionClaim where
  allocationId := d.allocationId
  taskId := taskId
  disputeId := d.disputeId
  money := money
  regime := if 0 < pos.net then .postSettlement else .preSettlement
  workerAmount := pos.escrowWorker money.splitRatio - pos.claw money.splitRatio
  delegatorAmount := pos.delegatorCredit money.splitRatio
  executedAt := now

/-- The fund action once the verdict may execute. -/
def distribute (d : Dispute) (taskId : String) (money : Money) (pos : AllocationLedgerPosition)
    (s : Store) : Except Fault Store :=
  match claimFundAction (fundActionClaim d taskId money pos s.now) s with
  | none => .ok (closeDisputedAllocation d.allocationId pos.settled s)
  | some s₁ =>
    match moveLegs R s₁.ambient d money pos s₁.escrow with
    | .error e => .error e
    | .ok db =>
      .ok (recordFundRefusal d.disputeId none
        (closeDisputedAllocation d.allocationId pos.settled { s₁ with escrow := db }))

/-- `executeFundAction`, inside the finalizing transaction. -/
def executeFundAction (d : Dispute) (money : Money) (s : Store) : Except Fault Store :=
  if d.amountLocked = 0 then .ok s
  else if money.splitRatio < 0 ∨ 1 < money.splitRatio then
    .error (.error ("Dispute " ++ d.disputeId ++ ": split_ratio outside [0, 1]"))
  else
    let pos := allocationLedgerPosition s.escrow d.allocationId
    match pos.taskId with
    | none => .ok (recordFundRefusal d.disputeId (some .noAllocation) s)
    | some taskId =>
      if taskId ≠ d.taskId then .ok (recordFundRefusal d.disputeId (some .taskMismatch) s)
      else if pos.reviewReason.isSome then
        .ok (recordFundRefusal d.disputeId (some .underReview) s)
      else if 0 < pos.priorDisputeRows then
        .ok (closeDisputedAllocation d.allocationId pos.settled s)
      else if !pos.routable money.splitRatio then
        .ok (recordFundRefusal d.disputeId (some .unroutable) s)
      else distribute R d taskId money pos s

end

/-! ## §4. One stamped row -/

def IsDisputeRow (A : String) (t : AccountTransaction) : Prop :=
  ∃ kind, t.stamp = some ⟨A, kind⟩ ∧ Escrow.isDisputeKind kind = true

/-- `delta` was posted to `party` in rows of dispute movements of `A`, and nothing else
    changed. -/
structure Posted (A : String) (db db' : Db) (party : String) (delta : Int) : Prop where
  balances : ∀ m, db'.books.balance m = db.books.balance m + if m = party then delta else 0
  held : db'.allocationHeldRaw A = db.allocationHeldRaw A - delta
  log : ∃ rows, db'.books.transactions = db.books.transactions ++ rows ∧
    ∀ t ∈ rows, IsDisputeRow A t
  tables : db'.allocations = db.allocations ∧ db'.settlements = db.settlements ∧
    db'.allocationFees = db.allocationFees ∧
    db'.federationSettlements = db.federationSettlements

theorem Posted.nothing (A : String) (db : Db) (party : String) : Posted A db db party 0 where
  balances m := by simp
  held := by omega
  log := ⟨[], by simp, by simp⟩
  tables := ⟨rfl, rfl, rfl, rfl⟩

theorem Posted.credit (A : String) (db : Db) (party : String) (delta : Int)
    (type : TransactionType) (ref desc : Option String) {kind : AllocationMoneyKind}
    (hkind : Escrow.isDisputeKind kind = true) :
    Posted A db { db with
      books := (db.books.credit party delta type ref desc (some ⟨A, kind⟩)).2 } party delta where
  balances m := by
    show (db.books.credit party delta type ref desc (some ⟨A, kind⟩)).2.balance m = _
    rw [Books.balance_credit]
    by_cases hm : m = party
    · rw [if_pos hm, if_pos hm, hm]
    · rw [if_neg hm, if_neg hm, Int.add_zero]
  held := by
    unfold Db.allocationHeldRaw
    dsimp only
    rw [Books.transactions_credit, sumWhere_append_row]
    have hrow : Db.attributed { db with
        books := (db.books.credit party delta type ref desc (some ⟨A, kind⟩)).2 } A
        ⟨party, type, delta, db.books.balance party + delta, ref, desc, some ⟨A, kind⟩⟩ = true := by
      simp [Db.attributed]
    rw [if_pos hrow]
    show -(sumWhere (db.attributed A) AccountTransaction.amount db.books.transactions + delta) - _
      - _ - _ = _
    have hforward : ∀ books, Db.forwardOf { db with books := books } A = db.forwardOf A :=
      fun _ => rfl
    have hjournal : ∀ books, Db.journaled { db with books := books } = db.journaled := fun _ => rfl
    rw [hforward, hjournal]
    omega
  log := by
    refine ⟨_, Books.transactions_credit .., fun t ht => ?_⟩
    rw [mem_singleton.mp ht]
    exact ⟨kind, rfl, hkind⟩
  tables := ⟨rfl, rfl, rfl, rfl⟩

/-! ## §5. The legs -/

section

variable {R : Relay} {amb : Escrow.Ambient} {db db' : Db} {A party disputeId description : String}
  {amount : Int}

theorem clawback_posted (h : moveAllocationMoney R.signedPayee db amb
      (.disputeClawback A amount party disputeId description) = .ok db') (hpos : 0 < amount) :
    Posted A db db' party (-amount) := by
  obtain ⟨alloc, h⟩ := Escrow.moveAllocationMoney_allocated h (by simp)
  unfold Escrow.moveAllocated at h
  dsimp only at h
  split at h
  · cases h
  rw [if_neg (by omega)] at h
  split at h
  · cases h
  split at h
  · cases h
  next b books hdebit =>
  cases h
  unfold Books.debit at hdebit
  obtain ⟨-, hnone⟩ | ⟨-, hsome⟩ := db.books.debitIf_cases amount party amount
    .settlementDebit (some disputeId) (some description) (some ⟨A, .disputeClawback⟩)
  · rw [hnone] at hdebit
    cases hdebit
  · rw [hsome] at hdebit
    cases hdebit
    exact .credit A db party (-amount) _ _ _ rfl

variable {move : AllocationMove}

theorem creditStamped_posted {type : TransactionType} {reference : String}
    (h : Escrow.creditStamped db move party type reference description = .ok db')
    (hkind : Escrow.isDisputeKind move.kind = true) :
    Posted move.allocationId db db' party move.amount := by
  rw [Escrow.creditStamped_ok h]
  exact .credit _ db party _ _ _ _ hkind

theorem worker_posted (h : moveAllocationMoney R.signedPayee db amb
      (.disputeWorker A amount party disputeId description) = .ok db') (hpos : 0 < amount) :
    Posted A db db' party amount := by
  obtain ⟨alloc, h⟩ := Escrow.moveAllocationMoney_allocated h (by simp)
  simp only [Escrow.moveAllocated, Escrow.moveOut] at h
  iterate 2
    split at h
    · cases h
  rw [if_neg (by omega)] at h
  split at h
  · exact creditStamped_posted h rfl
  · cases h

theorem delegator_posted (h : moveAllocationMoney R.signedPayee db amb
      (.disputeDelegator A amount party disputeId description) = .ok db') (hpos : 0 < amount) :
    Posted A db db' party amount := by
  obtain ⟨alloc, h⟩ := Escrow.moveAllocationMoney_allocated h (by simp)
  simp only [Escrow.moveAllocated, Escrow.moveOut] at h
  iterate 2
    split at h
    · cases h
  rcases Escrow.toHoldPayer_ok h with ⟨hzero, -⟩ | ⟨-, h⟩
  · omega
  · exact creditStamped_posted h rfl

/-- **A leg**: its movement, or nothing when there is nothing to move. -/
theorem leg_posted {delta : Int} (h : leg R amb disputeId move db = .ok db') (hnn : 0 ≤ move.amount)
    (hzero : move.amount = 0 → delta = 0)
    (hmove : moveAllocationMoney R.signedPayee db amb move = .ok db' → 0 < move.amount →
      Posted A db db' party delta) : Posted A db db' party delta := by
  unfold leg at h
  split at h
  · rename_i hpos
    cases hm : moveAllocationMoney R.signedPayee db amb move with rw [hm] at h
    | error => cases h
    | ok =>
      cases h
      exact hmove hm hpos
  · rename_i hpos
    cases h
    rw [hzero (by omega)]
    exact .nothing A db party

end

/-! ## §6. What a verdict moves -/

/-- What account `m` gains when the position is split by `ratio`. -/
def gain (pos : AllocationLedgerPosition) (ratio : ℚ) (m : String) : Int :=
  (if pos.delegator = some m then
    (pos.escrowRemaining - mulFloor pos.escrowRemaining ratio)
      + (pos.net - mulFloor pos.net ratio) else 0)
  + (if pos.worker = some m then mulFloor pos.escrowRemaining ratio else 0)
  - (if pos.recipient = some m then pos.net - mulFloor pos.net ratio else 0)

/-- **The money of `A` moves by `ratio`**: the delegator gains the rest of the escrow and of
    what was paid, the worker the floor of the escrow, the paid account loses the rest of what
    it was paid, nothing is held any more and nothing else moves. -/
structure MovesBy (ratio : ℚ) (A : String) (db db' : Db) : Prop where
  balances : ∀ m, db'.books.balance m =
    db.books.balance m + gain (allocationLedgerPosition db A) ratio m
  held : db'.allocationHeld A = 0
  log : ∃ rows, db'.books.transactions = db.books.transactions ++ rows ∧
    ∀ t ∈ rows, IsDisputeRow A t
  tables : db'.allocations = db.allocations ∧ db'.settlements = db.settlements ∧
    db'.allocationFees = db.allocationFees ∧
    db'.federationSettlements = db.federationSettlements

theorem Posted.trans_log {A p q : String} {db db₁ db₂ : Db} {x y : Int}
    (h : Posted A db db₁ p x) (h' : Posted A db₁ db₂ q y) :
    ∃ rows, db₂.books.transactions = db.books.transactions ++ rows ∧
      ∀ t ∈ rows, IsDisputeRow A t := by
  obtain ⟨rows, hlog, hrows⟩ := h.log
  obtain ⟨rows', hlog', hrows'⟩ := h'.log
  refine ⟨rows ++ rows', by rw [hlog', hlog, append_assoc], fun t ht => ?_⟩
  rcases mem_append.mp ht with ht | ht
  · exact hrows t ht
  · exact hrows' t ht

theorem net_nonneg (db : Db) (A : String) : 0 ≤ (allocationLedgerPosition db A).net := by
  refine sum_nonneg fun x hx => ?_
  obtain ⟨p, hp, rfl⟩ := mem_map.mp hx
  have hpos := (mem_filter.mp hp).2
  simp only [decide_eq_true_eq] at hpos
  omega

theorem escrowRemaining_nonneg (db : Db) (A : String) :
    0 ≤ (allocationLedgerPosition db A).escrowRemaining := Int.le_max_left 0 _

theorem party_ite {x : Option String} {v : Int} (h : v = 0 ∨ x.isSome = true) (m : String) :
    (if m = x.getD "" then v else 0) = if x = some m then v else 0 := by
  rcases h with rfl | hsome
  · rw [ite_self, ite_self]
  · obtain ⟨p, rfl⟩ := Option.isSome_iff_exists.mp hsome
    by_cases hm : m = p
    · rw [Option.getD_some, if_pos hm, if_pos (by rw [hm])]
    · rw [Option.getD_some, if_neg hm, if_neg fun heq => hm (Option.some.inj heq).symm]

variable {d : Dispute} {money : Money}

/-- **The three legs move the money by the ratio.** -/
theorem moveLegs_movesBy {R : Relay} {amb : Escrow.Ambient} {db db' : Db}
    (h0 : 0 ≤ money.splitRatio) (h1 : money.splitRatio ≤ 1)
    (hroute : (allocationLedgerPosition db d.allocationId).routable money.splitRatio = true)
    (h : moveLegs R amb d money (allocationLedgerPosition db d.allocationId) db = .ok db') :
    MovesBy money.splitRatio d.allocationId db db' := by
  have hnet := net_nonneg db d.allocationId
  have hheld := escrowRemaining_nonneg db d.allocationId
  have hraw : (allocationLedgerPosition db d.allocationId).escrowRemaining =
      db.allocationHeld d.allocationId := rfl
  set pos := allocationLedgerPosition db d.allocationId with hpos
  have hfloor := mulFloor_le hnet h1
  have hworker0 := mulFloor_nonneg hheld h0
  have hworker1 := mulFloor_le hheld h1
  have hclaw : 0 ≤ pos.claw money.splitRatio := by
    unfold AllocationLedgerPosition.claw
    omega
  have hew : 0 ≤ pos.escrowWorker money.splitRatio := hworker0
  have hdc : 0 ≤ pos.delegatorCredit money.splitRatio := by
    unfold AllocationLedgerPosition.delegatorCredit AllocationLedgerPosition.escrowWorker
    omega
  unfold moveLegs at h
  simp only [bind, Except.bind] at h
  split at h
  · cases h
  rename_i db₁ hleg₁
  split at h
  · cases h
  rename_i db₂ hleg₂
  have hp₁ : Posted d.allocationId db db₁ (pos.recipient.getD "") (-pos.claw money.splitRatio) :=
    leg_posted hleg₁ hclaw (fun h0 => by rw [show pos.claw money.splitRatio = 0 from h0]; rfl)
      clawback_posted
  have hp₂ : Posted d.allocationId db₁ db₂ (pos.worker.getD "")
      (pos.escrowWorker money.splitRatio) :=
    leg_posted hleg₂ hew (fun h0 => h0) worker_posted
  have hp₃ : Posted d.allocationId db₂ db' (pos.delegator.getD "")
      (pos.delegatorCredit money.splitRatio) :=
    leg_posted h hdc (fun h0 => h0) delegator_posted
  simp only [AllocationLedgerPosition.routable, Bool.and_eq_true, Bool.or_eq_true,
    beq_iff_eq] at hroute
  obtain ⟨⟨hrec, hdel⟩, hwork⟩ := hroute
  refine ⟨fun m => ?_, ?_, ?_, ?_⟩
  · rw [hp₃.balances, hp₂.balances, hp₁.balances, party_ite (v := -pos.claw money.splitRatio) (by
        rcases hrec with hz | hs
        · exact .inl (by omega)
        · exact .inr hs), party_ite hwork, party_ite hdel]
    unfold gain
    rw [← hpos]
    simp only [AllocationLedgerPosition.delegatorCredit, AllocationLedgerPosition.escrowWorker,
      AllocationLedgerPosition.claw]
    split <;> split <;> split <;> omega
  · have hh : db'.allocationHeldRaw d.allocationId =
        db.allocationHeldRaw d.allocationId - pos.escrowRemaining := by
      rw [hp₃.held, hp₂.held, hp₁.held]
      unfold AllocationLedgerPosition.delegatorCredit
      omega
    unfold Db.allocationHeld at hraw ⊢
    omega
  · obtain ⟨rows, hlog, hrows⟩ := hp₁.trans_log hp₂
    obtain ⟨rows₃, hlog₃, hrows₃⟩ := hp₃.log
    refine ⟨rows ++ rows₃, by rw [hlog₃, hlog, append_assoc], fun t ht => ?_⟩
    rcases mem_append.mp ht with ht | ht
    · exact hrows t ht
    · exact hrows₃ t ht
  · obtain ⟨ha₁, hs₁, hf₁, hg₁⟩ := hp₁.tables
    obtain ⟨ha₂, hs₂, hf₂, hg₂⟩ := hp₂.tables
    obtain ⟨ha₃, hs₃, hf₃, hg₃⟩ := hp₃.tables
    exact ⟨ha₃.trans (ha₂.trans ha₁), hs₃.trans (hs₂.trans hs₁), hf₃.trans (hf₂.trans hf₁),
      hg₃.trans (hg₂.trans hg₁)⟩

/-! ## §7. The fund action as a whole -/

/-- What no fund action touches; of the disputes only the marker. -/
structure FundFrame (disputeId : String) (s s' : Store) : Prop where
  disputes : s'.disputes = s.disputes ∨
    ∃ reason, s'.disputes = (recordFundRefusal disputeId reason s).disputes
  resolutions : s'.resolutions = s.resolutions
  votes : s'.votes = s.votes
  orchestrations : s'.orchestrations = s.orchestrations
  history : s'.round2Writes = s.round2Writes ∧ s'.fanouts = s.fanouts ∧
    s'.running = s.running ∧ s'.interrupted = s.interrupted ∧
    s'.committing = s.committing ∧ s'.raced = s.raced

theorem FundFrame.refl (disputeId : String) (s : Store) : FundFrame disputeId s s :=
  ⟨.inl rfl, rfl, rfl, rfl, rfl, rfl, rfl, rfl, rfl, rfl⟩

theorem recordFundRefusal_eq (disputeId : String) (reason : Option FundRefusalReason)
    (s : Store) : recordFundRefusal disputeId reason s =
      { s with disputes := (recordFundRefusal disputeId reason s).disputes } := by
  unfold recordFundRefusal moveDispute
  split
  · rfl
  · rfl

theorem FundFrame.marked (disputeId : String) (reason : Option FundRefusalReason) (s : Store) :
    FundFrame disputeId s (recordFundRefusal disputeId reason s) := by
  rw [recordFundRefusal_eq]
  exact ⟨.inr ⟨reason, rfl⟩, rfl, rfl, rfl, rfl, rfl, rfl, rfl, rfl, rfl⟩

theorem FundFrame.then_marked {disputeId : String} {s s₁ : Store}
    (h : FundFrame disputeId s s₁) (hd : s₁.disputes = s.disputes)
    (reason : Option FundRefusalReason) :
    FundFrame disputeId s (recordFundRefusal disputeId reason s₁) := by
  have hdisputes : (recordFundRefusal disputeId reason s₁).disputes =
      (recordFundRefusal disputeId reason s).disputes := by
    unfold recordFundRefusal moveDispute getDispute
    rw [hd]
    split
    · exact hd
    · show (s₁.putDispute _).disputes = (s.putDispute _).disputes
      unfold Store.putDispute
      rw [hd]
  rw [recordFundRefusal_eq]
  exact { h with disputes := .inr ⟨reason, hdisputes⟩ }

/-- The money stands still. -/
def Still (s s' : Store) : Prop := s'.escrow = s.escrow ∧ s'.fundActions = s.fundActions

theorem Still.marked (disputeId : String) (reason : Option FundRefusalReason) (s : Store) :
    Still s (recordFundRefusal disputeId reason s) := by
  rw [recordFundRefusal_eq]
  exact ⟨rfl, rfl⟩

theorem closeDisputedAllocation_spec (disputeId A : String) (settled : Bool) (s : Store) :
    FundFrame disputeId s (closeDisputedAllocation A settled s) ∧
      Still s (closeDisputedAllocation A settled s) := by
  unfold closeDisputedAllocation
  split
  · exact ⟨⟨.inl rfl, rfl, rfl, rfl, rfl, rfl, rfl, rfl, rfl, rfl⟩, rfl, rfl⟩
  · exact ⟨.refl disputeId s, rfl, rfl⟩

theorem closeDisputedAllocation_disputes (A : String) (settled : Bool) (s : Store) :
    (closeDisputedAllocation A settled s).disputes = s.disputes := by
  unfold closeDisputedAllocation
  split <;> rfl

/-- Moved by the ratio, with the claim of the dispute, from an allocation no dispute had
    moved. -/
structure Moved (d : Dispute) (money : Money) (s s' : Store) : Prop where
  first : s.escrow.allocationDisputeRows d.allocationId = []
  moves : MovesBy money.splitRatio d.allocationId s.escrow s'.escrow
  claim : ∃ claim, s'.fundActions = s.fundActions ++ [claim] ∧ claim.disputeId = d.disputeId ∧
    claim.allocationId = d.allocationId ∧ claim.money = money

theorem distribute_ok {R : Relay} {taskId : String} {s s' : Store}
    (h0 : 0 ≤ money.splitRatio) (h1 : money.splitRatio ≤ 1)
    (hfirst : s.escrow.allocationDisputeRows d.allocationId = [])
    (hroute : (allocationLedgerPosition s.escrow d.allocationId).routable money.splitRatio = true)
    (h : distribute R d taskId money (allocationLedgerPosition s.escrow d.allocationId) s
      = .ok s') : FundFrame d.disputeId s s' ∧ (Still s s' ∨ Moved d money s s') := by
  set position := allocationLedgerPosition s.escrow d.allocationId
  unfold distribute at h
  split at h
  · cases h
    obtain ⟨hf, hs⟩ := closeDisputedAllocation_spec d.disputeId d.allocationId position.settled s
    exact ⟨hf, .inl hs⟩
  · rename_i s₁ hclaim
    unfold claimFundAction at hclaim
    split at hclaim
    · cases hclaim
    cases hclaim
    split at h
    · cases h
    next db hlegs =>
    cases h
    have hmoves := moveLegs_movesBy h0 h1 hroute hlegs
    refine ⟨?_, .inr ⟨hfirst, ?_, ?_⟩⟩
    · set claimed := { s with
          escrow := db
          fundActions := s.fundActions ++ [fundActionClaim d taskId money position s.now] }
      have hd := closeDisputedAllocation_disputes d.allocationId position.settled claimed
      obtain ⟨hf, -⟩ :=
        closeDisputedAllocation_spec d.disputeId d.allocationId position.settled claimed
      exact .then_marked (s := s)
        { hf with disputes := .inl hd } hd none
    · rw [recordFundRefusal_eq]
      rw [show Store.escrow { closeDisputedAllocation d.allocationId _ _ with
          disputes := _ } = db from ((closeDisputedAllocation_spec d.disputeId _ _ _).2.1)]
      exact hmoves
    · refine ⟨fundActionClaim d taskId money position s.now, ?_, rfl, rfl, rfl⟩
      rw [recordFundRefusal_eq]
      exact (closeDisputedAllocation_spec d.disputeId _ _ _).2.2

/-- **`executeFundAction`**: it moves nothing, or everything by the ratio, once. -/
theorem executeFundAction_ok {R : Relay} {s s' : Store}
    (h : executeFundAction R d money s = .ok s') :
    FundFrame d.disputeId s s' ∧ (Still s s' ∨ Moved d money s s') := by
  unfold executeFundAction at h
  split at h
  · cases h
    exact ⟨.refl _ s, .inl ⟨rfl, rfl⟩⟩
  split at h
  · cases h
  rename_i hratio
  dsimp only at h
  iterate 3
    split at h
    · cases h
      exact ⟨.marked _ _ s, .inl (.marked _ _ s)⟩
  split at h
  · cases h
    obtain ⟨hf, hs⟩ := closeDisputedAllocation_spec d.disputeId d.allocationId
      (allocationLedgerPosition s.escrow d.allocationId).settled s
    exact ⟨hf, .inl hs⟩
  rename_i hprior
  split at h
  · cases h
    exact ⟨.marked _ _ s, .inl (.marked _ _ s)⟩
  next hroute =>
  have hfirst : s.escrow.allocationDisputeRows d.allocationId = [] :=
    eq_nil_of_length_eq_zero (Nat.eq_zero_of_not_pos hprior)
  obtain ⟨h0, h1⟩ := not_or.mp hratio
  exact distribute_ok (not_lt.mp h0) (not_lt.mp h1) hfirst (by simpa using hroute) h

end Motebit.Disputes
