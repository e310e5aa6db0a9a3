/-
  Motebit.Escrow.Runs — CONSERVATION OVER EVERY RUN of the escrow.

  A run opens allocations, posts unstamped credits and debits, moves allocation money in any
  of the eleven kinds with arbitrary arguments, and marks forwards delivered, in any order.
  A call that throws changes nothing.

  Main results: `escrow_conserved`, `unguarded_calls_break_conservation`.
-/

import Motebit.Escrow.Conservation

namespace Motebit.Escrow

open Motebit.Lib
open Motebit.Accounts

/-! ## §1. The system -/

/-- One call on the escrow's tables. -/
inductive EscrowAct
  | openAllocation (allocationId taskId worker : String) (amountLocked : Int)
  | credit (motebitId : String) (amount : Int) (type : TransactionType)
      (referenceId description : Option String)
  | debit (motebitId : String) (amount : Int) (type : TransactionType)
      (referenceId description : Option String)
  | debitSpendable (amb : Ambient) (motebitId : String) (amount : Int) (type : TransactionType)
      (referenceId description : Option String)
  | move (amb : Ambient) (move : AllocationMove)
  | markForwardDelivered (settlementId : String)

section

variable (signedPayee : String → Option String)

/-- What a call does; a refused movement rolls back. -/
def Db.act (db : Db) : EscrowAct → Db
  | .openAllocation a t w n => openAllocation db a t w n
  | .credit m n ty ref desc => { db with books := (db.books.credit m n ty ref desc none).2 }
  | .debit m n ty ref desc => { db with books := (db.books.debit m n ty ref desc none).2 }
  | .debitSpendable amb m n ty ref desc =>
      { db with books := (db.books.debitSpendable
          (Books.unwithdrawableHold db.settlements amb.disputes amb.now m) m n ty ref desc none).2 }
  | .move amb mv =>
      match moveAllocationMoney signedPayee db amb mv with
      | .ok db' => db'
      | .error _ => db
  | .markForwardDelivered id => markForwardDelivered db id

/-- Ids of allocations and tasks are fresh when they are opened; nothing else is asked. -/
def Db.FreshIds (db : Db) : EscrowAct → Prop
  | .openAllocation allocationId taskId _ _ =>
      (∀ a ∈ db.allocations, a.allocationId ≠ allocationId ∧ a.taskId ≠ taskId) ∧
      ∀ t ∈ db.books.transactions, t.referenceId ≠ some allocationId
  | _ => True

/-- Calls that stay clear of the legacy clauses: fresh ids, non-negative credits, unstamped
    postings under references the clauses do not read, and clean settlement rows. -/
def Db.Clean (db : Db) : EscrowAct → Prop
  | act@(.openAllocation ..) => db.FreshIds act
  | .credit _ amount ty ref _ => 0 ≤ amount ∧ db.NotLegacy ty ref
  | .debit _ _ ty ref _ => db.NotLegacy ty ref
  | .debitSpendable _ _ _ ty ref _ => db.NotLegacy ty ref
  | .move _ mv => db.CleanMove mv
  | .markForwardDelivered _ => True

/-- The escrow under calls that meet `adm`, from empty tables. -/
def escrowSystem (adm : Db → EscrowAct → Prop) : System Db EscrowAct where
  init := .init
  enabled := adm
  apply := Db.act signedPayee

end

/-! ## §2. What is conserved -/

/-- Conservation of allocation money, read with the escrow's own query. -/
structure Conserved (db : Db) : Prop where
  balanced : ∀ A, db.Opened A →
    db.holdDebits A + db.clawbacks A
      = db.allocationHeldRaw A + db.credits A + db.fees A + db.forwards A
  covered : ∀ A, db.Opened A → 0 ≤ db.allocationHeldRaw A
  solvent : ∀ m, 0 ≤ db.books.balance m

variable {db : Db}

theorem Conserved.of_sound (h : Sound db) : Conserved db where
  balanced A hA := by
    rw [heldRaw_eq h hA]
    exact stamped_conserved h A
  covered A hA := by
    rw [heldRaw_eq h hA]
    exact h.held A
  solvent := h.agrees.nonneg

/-! ## §3. Every call keeps the escrow sound -/

theorem Sound.openAllocation (h : Sound db) (allocationId taskId worker : String)
    (amountLocked : Int) (hunref : ∀ t ∈ db.books.transactions, t.referenceId ≠ some allocationId) :
    Sound (openAllocation db allocationId taskId worker amountLocked) := by
  unfold Escrow.openAllocation
  split
  · exact h
  · refine { h with unstamped := ?_ }
    intro t ht hst
    obtain ⟨hhold, hcredit⟩ := h.unstamped t ht hst
    refine ⟨fun hty a ha => ?_, hcredit⟩
    rcases List.mem_append.mp ha with ha | ha
    · exact hhold hty a ha
    · rw [List.mem_singleton.mp ha]
      exact hunref t ht

theorem Sound.debitIf (h : Sound db) (floor : Int) (m : String) (amount : Int)
    (ty : TransactionType) (ref desc : Option String) (hfloor : amount ≤ floor)
    (hlegacy : db.NotLegacy ty ref) :
    Sound { db with books := (db.books.debitIf floor m amount ty ref desc none).2 } := by
  rcases db.books.debitIf_cases floor m amount ty ref desc none with ⟨-, heq⟩ | ⟨hcov, heq⟩
  · -- refused: at most a zero account row appeared
    rw [heq]
    have htx := db.books.transactions_getOrCreateAccount m
    refine ⟨h.agrees.getOrCreateAccount m, ?_, ?_, h.journal, h.paid, h.stamped, h.forwardIds, ?_⟩
    · intro t ht
      exact h.shape t (htx ▸ ht)
    · intro t ht
      exact h.unstamped t (htx ▸ ht)
    · intro A
      have hA := h.held A
      unfold Db.heldStamped Db.fees Db.forwards at hA ⊢
      rw [htx]
      exact hA
  · rw [heq]
    exact h.post m (-amount) ty ref desc none (by omega) (by simp) (fun _ => hlegacy) (by simp)

theorem Sound.act {signedPayee : String → Option String} {a : EscrowAct}
    (h : Sound db) (hclean : db.Clean a) : Sound (db.act signedPayee a) := by
  cases a with
  | openAllocation A T w n => exact h.openAllocation A T w n hclean.2
  | credit m n ty ref desc =>
    obtain ⟨hnn, hlegacy⟩ := hclean
    have hbal := h.agrees.nonneg m
    exact h.post m n ty ref desc none (by omega) (by simp) (fun _ => hlegacy) (by simp)
  | debit m n ty ref desc => exact h.debitIf n m n ty ref desc (Int.le_refl n) hclean
  | debitSpendable amb m n ty ref desc =>
    have hhold := Books.unwithdrawableHold_nonneg h.paid amb.disputes amb.now m
    exact h.debitIf _ m n ty ref desc (by omega) hclean
  | move amb mv =>
    show Sound (match moveAllocationMoney signedPayee db amb mv with
      | .ok db' => db'
      | .error _ => db)
    split
    · next heq => exact h.effect hclean (moveAllocationMoney_effect heq)
    · exact h
  | markForwardDelivered id =>
    exact h.forwardStatus id .delivered (by intro hst; cases hst) (.inl rfl)

/-- **Allocation money is conserved over every run.** -/
theorem escrow_conserved (signedPayee : String → Option String) (db : Db)
    (hreach : (escrowSystem signedPayee Db.Clean).Reachable db) : Conserved db := by
  refine Conserved.of_sound (System.Reachable.invariant Sound Sound.init ?_ hreach)
  intro u a hu hclean
  exact hu.act hclean

/-! ## §4. Runs outside the hypotheses -/

private def calm : Ambient := ⟨false, 0, []⟩

/-- A run the theorem speaks about: a hold, a settlement with a fee, its credit, a forward
    and its return. -/
def settledRun : List EscrowAct :=
  [.openAllocation "A" "task" "bob" 100, .credit "alice" 100 .deposit none none,
   .move calm (.hold "A" 100 "alice" "hold"),
   .move calm (.settlementFee "A" 5 ⟨"s1", "A", "task", "bob", 45, 5, .completed, 0, none, none⟩),
   .move calm (.settlementCredit "A" 45 "bob" "s1" "net"),
   .move calm (.federatedForward "A" 50 ⟨"f1", "task", "up", some "peer", 50⟩),
   .move calm (.forwardReturn "A" 50 "f1")]

theorem escrow_conserved_settledRun :
    ((escrowSystem (fun _ => none) Db.Clean).run .init settledRun).allocationHeldRaw "A" = 50 ∧
    Conserved ((escrowSystem (fun _ => none) Db.Clean).run .init settledRun) := by
  refine ⟨by decide, escrow_conserved (fun _ => none) _ (System.reachableFrom_run _ _ _ ?_)⟩
  refine ⟨⟨?_, ?_⟩, ⟨by decide, ?_, ?_⟩, trivial, ⟨by decide, ?_, by decide⟩, trivial, trivial,
    trivial, trivial⟩
  · exact List.forall_mem_nil _
  · exact List.forall_mem_nil _
  · intro hty
    rcases hty with hty | hty <;> cases hty
  · simp
  · decide

/-- An unstamped release that references the allocation is attributed to it. -/
def legacyReleaseRun : List EscrowAct :=
  [.openAllocation "A" "task" "bob" 100, .credit "alice" 100 .deposit none none,
   .move calm (.hold "A" 100 "alice" "hold"),
   .credit "bob" 40 .allocationRelease (some "A") none]

def negativeCreditRun : List EscrowAct := [.credit "alice" (-5) .deposit none none]

/-- A negative `amount_settled` makes the escrow hold negative. -/
def negativeHoldRun : List EscrowAct :=
  [.openAllocation "A" "task" "bob" 100, .move calm (.settlementFee "A" 0
     ⟨"s1", "A", "task", "alice", -50, 0, .completed, 1, none, none⟩),
   .move calm (.hold "A" 50 "alice" "hold")]

/-- A record for an allocation the relay does not have may name one it has, with a fee. -/
def strayRecordRun : List EscrowAct :=
  [.openAllocation "A" "task" "bob" 100, .credit "alice" 100 .deposit none none,
   .move calm (.hold "A" 100 "alice" "hold"),
   .move calm (.settlementFee "B" 0 ⟨"s1", "A", "task", "bob", 0, 30, .completed, 0, none, none⟩)]

/-- A list of calls with fresh ids that leads to a state where conservation fails. -/
def BreaksConservation (acts : List EscrowAct) : Prop :=
  (escrowSystem (fun _ => none) Db.FreshIds).Reachable
    ((escrowSystem (fun _ => none) Db.FreshIds).run .init acts) ∧
  ¬ Conserved ((escrowSystem (fun _ => none) Db.FreshIds).run .init acts)

/-- **Fresh ids alone are not enough**: four runs, each breaking conservation or solvency. -/
theorem unguarded_calls_break_conservation :
    BreaksConservation legacyReleaseRun ∧ BreaksConservation negativeCreditRun ∧
    BreaksConservation negativeHoldRun ∧ BreaksConservation strayRecordRun := by
  have hopen : (∀ a ∈ Db.init.allocations, a.allocationId ≠ "A" ∧ a.taskId ≠ "task") ∧
      ∀ t ∈ Db.init.books.transactions, t.referenceId ≠ some "A" := by
    constructor
    · exact List.forall_mem_nil _
    · exact List.forall_mem_nil _
  have hA : ∀ db : Db, (⟨"A", "task", "bob", 100, none⟩ : Allocation) ∈ db.allocations →
      db.Opened "A" := fun db h => ⟨_, h, rfl⟩
  refine ⟨⟨System.reachableFrom_run _ _ _ ?_, fun hcon => ?_⟩,
    ⟨System.reachableFrom_run _ _ _ ?_, fun hcon => ?_⟩,
    ⟨System.reachableFrom_run _ _ _ ?_, fun hcon => ?_⟩,
    ⟨System.reachableFrom_run _ _ _ ?_, fun hcon => ?_⟩⟩
  · exact ⟨hopen, trivial, trivial, trivial, trivial⟩
  · exact absurd (hcon.balanced "A" (hA _ (by decide))) (by decide)
  · exact ⟨trivial, trivial⟩
  · exact absurd (hcon.solvent "alice") (by decide)
  · exact ⟨hopen, trivial, trivial, trivial⟩
  · exact absurd (hcon.solvent "alice") (by decide)
  · exact ⟨hopen, trivial, trivial, trivial, trivial⟩
  · exact absurd (hcon.balanced "A" (hA _ (by decide))) (by decide)

end Motebit.Escrow
