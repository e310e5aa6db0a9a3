/-
  Motebit.Escrow.Effects — EVERYTHING A MOVEMENT CAN WRITE.

  `moveAllocationMoney` has eleven kinds and some forty exits.  Seen from the tables there
  are only eight outcomes; this file lists them (`Effect`) with the facts the code has
  checked when it gets there, so that the conservation proofs never unfold the code again.

  Main results: `moveAllocationMoney_effect`, `moveAllocationMoney_appends`.
-/

import Motebit.Escrow.Model

namespace Motebit.Escrow

open Motebit.Lib List
open Motebit.Accounts AllocationMove

/-! ## §1. The eight outcomes -/

/-- The kinds of ledger row that pay money out of an escrow. -/
def PaysOut (kind : AllocationMoneyKind) : Prop := kind ≠ .hold ∧ kind ≠ .disputeClawback

/-- The allocation has a row. -/
def Db.Opened (db : Db) (allocationId : String) : Prop :=
  ∃ a ∈ db.allocations, a.allocationId = allocationId

/-- What a movement that returns has written. -/
inductive Effect (db : Db) (amb : Ambient) (move : AllocationMove) : Db → Prop
  | nothing : Effect db amb move db
  /-- A hold: the payer's balance covers it on top of what is under dispute. -/
  | held (A party description : String) (amount : Int) (hpos : 0 < amount)
      (hcover : amount + Books.unwithdrawableHold db.settlements amb.disputes amb.now party
        ≤ db.books.balance party) :
      Effect db amb move { db with
        books := (db.books.credit party (-amount) .allocationHold (some A) (some description)
          (some ⟨A, .hold⟩)).2 }
  /-- A claw-back: debited from an account that can cover it. -/
  | clawedBack (A party disputeId description : String) (amount : Int) (hpos : 0 < amount)
      (hcover : amount ≤ db.books.balance party) :
      Effect db amb move { db with
        books := (db.books.credit party (-amount) .settlementDebit (some disputeId)
          (some description) (some ⟨A, .disputeClawback⟩)).2 }
  /-- A payout of some kind, of at most what the allocation holds. -/
  | paidOut (A party : String) (kind : AllocationMoneyKind) (type : TransactionType)
      (reference description : String) (amount : Int) (hopen : db.Opened A)
      (hkind : PaysOut kind) (hpos : 0 < amount) (hheld : amount ≤ db.allocationHeldRaw A) :
      Effect db amb move { db with
        books := (db.books.credit party amount type (some reference) (some description)
          (some ⟨A, kind⟩)).2 }
  /-- A settlement row and, for a positive fee, its journal entry. -/
  | settled (row : Settlement) (amount : Int) (hmove : move = .settlementFee row.allocationId amount row)
      (hopen : db.Opened row.allocationId) (hfee : row.platformFee = amount) (hnn : 0 ≤ amount)
      (hheld : amount ≤ db.allocationHeldRaw row.allocationId) :
      Effect db amb move { db with
        settlements := db.settlements ++ [row]
        allocationFees := db.allocationFees ++
          (if 0 < amount then [⟨row.settlementId, row.allocationId, amount⟩] else []) }
  /-- A settlement record for an allocation the relay does not have: no check is made on
      the row. -/
  | recorded (A : String) (row : Settlement) (hmove : move = .settlementFee A 0 row)
      (hnone : db.allocation? A = none) :
      Effect db amb move { db with settlements := db.settlements ++ [row] }
  /-- A forward, stamped and pending. -/
  | forwarded (A : String) (row : FederationSettlement) (hopen : db.Opened A)
      (hstamp : row.allocationId = some A) (hstatus : row.status = .pending)
      (hfresh : ∀ f ∈ db.federationSettlements, f.settlementId ≠ row.settlementId)
      (hnn : 0 ≤ row.grossAmount) (hheld : row.grossAmount ≤ db.allocationHeldRaw A) :
      Effect db amb move { db with federationSettlements := db.federationSettlements ++ [row] }
  /-- A pending forward comes back. -/
  | returned (f : FederationSettlement) (hf : f ∈ db.federationSettlements)
      (hpending : f.status = .pending) (hnn : 0 ≤ f.grossAmount) :
      Effect db amb move { db with
        federationSettlements := updateWhere
          (fun g => g.settlementId == f.settlementId && g.status == .pending)
          (fun g => { g with status := .failed }) db.federationSettlements }

/-! ## §2. The parts of a movement -/

variable {A : String}

theorem escrowGuard_ok {db db' : Db} {fires : Bool}
    (h : escrowGuard db A fires = .ok db') : db' = db := by
  unfold escrowGuard at h
  split at h
  · cases h
  · exact (Except.ok.inj h).symm

variable {move : AllocationMove}

theorem refuse_ne_ok {α : Type} {reason : AllocationMoneyRefusal}
    {detail : String} {x : α} : refuse move reason detail ≠ .ok x := by
  nofun

variable {type : TransactionType} {party : String}

theorem creditStamped_ok {db db' : Db} {reference description : String}
    (h : creditStamped db move party type reference description = .ok db') :
    db' = { db with
      books := (db.books.credit party move.amount type (some reference) (some description)
        (some ⟨move.allocationId, move.kind⟩)).2 } :=
  escrowGuard_ok h

theorem allocation?_opened {db : Db} {alloc : Allocation}
    (h : db.allocation? A = some alloc) : db.Opened A :=
  ⟨alloc, mem_of_find?_eq_some h, by simpa using find?_some h⟩

theorem insertSettlement_ok {db db' : Db} {row : Settlement}
    (h : insertSettlement db move row = .ok db') :
    db' = { db with
      settlements := db.settlements ++ [row]
      allocationFees := db.allocationFees ++
        (if 0 < move.amount then [⟨row.settlementId, move.allocationId, move.amount⟩] else []) } := by
  unfold insertSettlement at h
  split at h
  · exact absurd h refuse_ne_ok
  split at h
  · cases h
  dsimp only at h
  split at h
  · cases h
  next hguard =>
  have hdb := escrowGuard_ok hguard
  subst hdb
  split at h
  · next hpos =>
    split at h
    · cases h
    · cases h
      simp [hpos]
  · next hpos =>
    cases h
    simp [hpos]

theorem insertForward_ok {db db' : Db} {row : ForwardInsert}
    (h : insertForward db A row = .ok db') :
    (∀ f ∈ db.federationSettlements, f.settlementId ≠ row.settlementId) ∧
    db' = { db with
      federationSettlements := db.federationSettlements ++
        [⟨row.settlementId, row.taskId, row.upstreamRelayId, row.downstreamRelayId,
          row.grossAmount, some A, .pending⟩] } := by
  unfold insertForward at h
  split at h
  · cases h
  next hany =>
  refine ⟨?_, escrowGuard_ok h⟩
  intro f hf heq
  apply hany
  rw [any_eq_true]
  exact ⟨f, hf, by simp [heq]⟩

/-! ## §3. The row a movement appends -/

/-- The ledger types allocation money moves under. -/
def AllocationTyped (type : TransactionType) : Prop :=
  type = .allocationHold ∨ type = .allocationRelease ∨ type = .settlementDebit ∨
    type = .settlementCredit

def AllocationMove.debited : AllocationMove → Option (String × Int)
  | .hold _ amount party _ => some (party, amount)
  | .disputeClawback _ amount party _ _ => some (party, amount)
  | _ => none

/-- The ledger grew by at most one row: of an allocation type, and a debit only of the
    account and the amount the movement names. -/
def Appends (move : AllocationMove) (db db' : Db) : Prop :=
  db'.books.transactions = db.books.transactions ∨
  ∃ row, db'.books.transactions = db.books.transactions ++ [row] ∧ AllocationTyped row.type ∧
    (row.amount < 0 → move.debited = some (row.motebitId, -row.amount))

variable {stamp : Option AllocationStamp} {ref desc : Option String}

theorem Appends.row {db db' : Db} (h : Appends move db db') {amount : Int}
    (hbooks : db'.books = (db.books.credit party amount type ref desc stamp).2) :
    AllocationTyped type ∧ (amount < 0 → move.debited = some (party, -amount)) := by
  rcases h with heq | ⟨row, heq, hty, hdebit⟩
  · rw [hbooks, Books.transactions_credit] at heq
    simp at heq
  · rw [hbooks, Books.transactions_credit] at heq
    obtain ⟨-, hrow⟩ := append_inj' heq rfl
    simp only [List.cons.injEq, and_true] at hrow
    subst hrow
    exact ⟨hty, hdebit⟩

/-! ## §4. The whole movement -/

section

variable {signedPayee : String → Option String} {db db' : Db} {amb : Ambient} {description : String}
  {alloc : Allocation}

/-- Both at once: what the movement has written, and what row it has appended. -/
def Outcome (amb : Ambient) (move : AllocationMove) (db db' : Db) : Prop :=
  Effect db amb move db' ∧ Appends move db db'

variable {reference : String}

theorem creditStamped_outcome (hty : AllocationTyped type) (hopen : db.Opened move.allocationId)
    (hkind : PaysOut move.kind) (hnn : 0 ≤ move.amount) (hne : move.amount ≠ 0)
    (hheld : move.amount ≤ db.allocationHeldRaw move.allocationId)
    (h : creditStamped db move party type reference description = .ok db') :
    Outcome amb move db db' := by
  rw [creditStamped_ok h]
  constructor
  · exact .paidOut move.allocationId party move.kind type reference description move.amount hopen
      hkind (by omega) hheld
  · exact .inr ⟨_, Books.transactions_credit .., hty, fun hneg => absurd hnn (Int.not_le.mpr hneg)⟩

theorem toHoldPayer_ok {amount : Int} {A : String} (h : moveOut.toHoldPayer db move A amount party type
      reference description = .ok db') : (amount = 0 ∧ db' = db) ∨
    (amount ≠ 0 ∧ creditStamped db move party type reference description = .ok db') := by
  unfold moveOut.toHoldPayer at h
  split at h
  · next hzero =>
    cases h
    exact .inl ⟨hzero, rfl⟩
  next hne =>
  split at h
  · exact absurd h refuse_ne_ok
  split at h
  · exact .inr ⟨hne, h⟩
  · exact absurd h refuse_ne_ok

theorem toHoldPayer_outcome
    (hty : AllocationTyped type) (hopen : db.Opened move.allocationId) (hkind : PaysOut move.kind)
    (hnn : 0 ≤ move.amount) (hheld : move.amount ≤ db.allocationHeldRaw move.allocationId)
    (h : moveOut.toHoldPayer db move move.allocationId move.amount party type reference
      description = .ok db') : Outcome amb move db db' := by
  rcases toHoldPayer_ok h with ⟨-, rfl⟩ | ⟨hne, h⟩
  · exact ⟨.nothing, .inl rfl⟩
  · exact creditStamped_outcome hty hopen hkind hnn hne hheld h

theorem moveOut_outcome (hopen : db.Opened move.allocationId)
    (hnn : 0 ≤ move.amount) (hheld : move.amount ≤ db.allocationHeldRaw move.allocationId)
    (h : moveOut signedPayee db alloc move = .ok db') : Outcome amb move db db' := by
  have hcredit : AllocationTyped .settlementCredit := .inr (.inr (.inr rfl))
  cases move with
  | hold | forwardReturn | disputeClawback => cases h; exact ⟨.nothing, .inl rfl⟩
  | settlementFee A amount row =>
    simp only [moveOut] at h
    split at h
    · exact absurd h refuse_ne_ok
    next hA =>
    split at h
    · exact absurd h refuse_ne_ok
    next hfee =>
    have hA' : row.allocationId = A := by simpa using hA
    have hfee' : row.platformFee = amount := by simpa using hfee
    subst hA'
    rw [insertSettlement_ok h]
    exact ⟨.settled row amount rfl hopen hfee' hnn hheld, .inl rfl⟩
  | settlementCredit =>
    simp only [moveOut] at h
    split at h
    · cases h; exact ⟨.nothing, .inl rfl⟩
    next hne =>
    split at h
    · exact creditStamped_outcome hcredit hopen (by constructor <;> simp [kind]) hnn hne hheld h
    · exact absurd h refuse_ne_ok
  | release kind =>
    exact toHoldPayer_outcome (.inr (.inl rfl)) hopen
      (by cases kind <;> constructor <;> simp [kind]) hnn hheld h
  | federatedForward A amount forward =>
    simp only [moveOut] at h
    split at h
    · exact absurd h refuse_ne_ok
    next hgross =>
    split at h
    · exact absurd h refuse_ne_ok
    obtain ⟨hfresh, rfl⟩ := insertForward_ok h
    have hgross' : forward.grossAmount = amount := by simpa using hgross
    subst hgross'
    exact ⟨.forwarded A _ hopen rfl rfl hfresh hnn hheld, .inl rfl⟩
  | disputeWorker =>
    simp only [moveOut] at h
    split at h
    · exact absurd h refuse_ne_ok
    split at h
    · cases h; exact ⟨.nothing, .inl rfl⟩
    next hne =>
    split at h
    · exact creditStamped_outcome hcredit hopen (by constructor <;> simp [kind]) hnn hne hheld h
    · exact absurd h refuse_ne_ok
  | disputeDelegator =>
    simp only [moveOut] at h
    split at h
    · exact absurd h refuse_ne_ok
    · exact toHoldPayer_outcome hcredit hopen (by constructor <;> simp [kind]) hnn hheld h

theorem debitIf_outcome {floor : Int} {amount : Int}
    {balance : Int} {books : Books} (hty : AllocationTyped type)
    (hmove : move.debited = some (party, amount))
    (h : db.books.debitIf floor party amount type ref desc stamp = (some balance, books))
    (heffect : floor ≤ db.books.balance party →
      Effect db amb move { db with books := (db.books.credit party (-amount) type ref desc stamp).2 }) :
    Outcome amb move db { db with books := books } := by
  rcases db.books.debitIf_cases floor party amount type ref desc stamp with ⟨-, hd⟩ | ⟨hcover, hd⟩
  · rw [hd] at h
    cases h
  · rw [hd] at h
    obtain ⟨-, rfl⟩ := Prod.mk.inj h
    refine ⟨heffect hcover, .inr ⟨_, Books.transactions_credit .., hty, fun _ => ?_⟩⟩
    rw [hmove]
    simp

theorem moveAllocated_outcome (hopen : db.Opened move.allocationId)
    (hnn : 0 ≤ move.amount) (h : moveAllocated signedPayee db amb alloc move = .ok db') :
    Outcome amb move db db' := by
  -- the kinds that read `held` first
  have hout : (if db.allocationHeldRaw move.allocationId < move.amount then
        refuse move .exceedsHeld ("held " ++ toString (db.allocationHeldRaw move.allocationId))
      else moveOut signedPayee db alloc move) = .ok db' → Outcome amb move db db' := by
    intro h
    split at h
    · exact absurd h refuse_ne_ok
    · next hheld => exact moveOut_outcome hopen hnn (by omega) h
  have hpos : move.amount ≠ 0 → 0 < move.amount := by omega
  cases move with
  | hold A amount party description =>
    simp only [moveAllocated] at h
    split at h
    · cases h; exact ⟨.nothing, .inl rfl⟩
    next hne =>
    split at h
    · exact absurd h refuse_ne_ok
    · next heq =>
      cases h
      exact debitIf_outcome (.inl rfl) rfl heq (.held A party description amount (hpos hne))
  | forwardReturn A amount settlementId =>
    simp only [moveAllocated] at h
    split at h
    · exact absurd h refuse_ne_ok
    next f hfind =>
    split at h
    · exact absurd h refuse_ne_ok
    next hst =>
    split at h
    · exact absurd h refuse_ne_ok
    next hgross =>
    cases h
    have hf := mem_of_find?_eq_some hfind
    have hid : f.settlementId = settlementId ∧ f.allocationId = some A := by
      simpa using find?_some hfind
    have hgross' : f.grossAmount = amount := by simpa using hgross
    obtain ⟨rfl, -⟩ := hid
    subst hgross'
    exact ⟨.returned f hf (by simpa using hst) hnn, .inl rfl⟩
  | disputeClawback A amount party disputeId description =>
    simp only [moveAllocated] at h
    split at h
    · exact absurd h refuse_ne_ok
    split at h
    · cases h; exact ⟨.nothing, .inl rfl⟩
    next hne =>
    split at h
    · exact absurd h refuse_ne_ok
    split at h
    · exact absurd h refuse_ne_ok
    next heq =>
    cases h
    exact debitIf_outcome (.inr (.inr (.inl rfl))) rfl heq
      (.clawedBack A party disputeId description amount (hpos hne))
  | settlementFee | settlementCredit | release | federatedForward | disputeWorker
  | disputeDelegator => exact hout h

theorem moveAllocationMoney_allocated (h : moveAllocationMoney signedPayee db amb move = .ok db')
    (hmove : ∀ A n row, move ≠ .settlementFee A n row) :
    ∃ alloc, moveAllocated signedPayee db amb alloc move = .ok db' := by
  unfold moveAllocationMoney at h
  split at h
  · cases h
  split at h
  · exact absurd h refuse_ne_ok
  split at h
  · next alloc _ => exact ⟨alloc, h⟩
  · split at h
    · exact absurd rfl (hmove _ _ _)
    · exact absurd h refuse_ne_ok

theorem moveAllocationMoney_outcome
    (h : moveAllocationMoney signedPayee db amb move = .ok db') : Outcome amb move db db' := by
  unfold moveAllocationMoney at h
  split at h
  · cases h
  split at h
  · exact absurd h refuse_ne_ok
  next hamount =>
  have hnn : 0 ≤ move.amount := by
    simp only [Bool.or_eq_true, decide_eq_true_eq, not_or] at hamount
    omega
  split at h
  · next hfind => exact moveAllocated_outcome (allocation?_opened hfind) hnn h
  next hnone =>
  split at h
  · next A amount row =>
    split at h
    · next hzero =>
      subst hzero
      have heff : Effect db amb (.settlementFee A 0 row)
          { db with settlements := db.settlements ++ [row] } := .recorded A row rfl hnone
      rw [insertSettlement_ok h]
      exact ⟨by simpa [amount] using heff, .inl rfl⟩
    · exact absurd h refuse_ne_ok
  · exact absurd h refuse_ne_ok

/-- **A movement that does not throw has one of the eight effects.** -/
theorem moveAllocationMoney_effect
    (h : moveAllocationMoney signedPayee db amb move = .ok db') : Effect db amb move db' :=
  (moveAllocationMoney_outcome h).1

/-- **A movement appends at most one row**, of one of the four allocation types. -/
theorem moveAllocationMoney_appends
    (h : moveAllocationMoney signedPayee db amb move = .ok db') : Appends move db db' :=
  (moveAllocationMoney_outcome h).2

end

end Motebit.Escrow
