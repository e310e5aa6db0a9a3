/-
  Motebit.Accounts.Runs — LEDGER/BALANCE AGREEMENT over whole runs of the account stores.

  A run is any finite sequence of calls of the ten money and withdrawal methods on an
  initially empty store.  The ledger's laws (`Ledger.Settled`) hold in every state a run
  reaches, in both stores, provided callers keep withdrawal ids to themselves: nothing in
  either store stops a plain `credit` from naming a withdrawal as its reference, and such a
  row counts among the rows that reference it (`plain_reference_unsettles`).

  Main results: `reachable_settled`.
-/

import Motebit.Lib.Transition
import Motebit.Accounts.InMemory
import Motebit.Accounts.Sqlite

namespace Motebit.Accounts

open Motebit.Lib

/-! ## §1. The two systems -/

/-- Runs of the in-memory store whose calls all meet `adm`. -/
def inMemorySystem (adm : Ledger → String → AccountOp → Prop) :
    System InMemoryAccountStore AccountOp where
  init := .init
  enabled s op := adm s.toLedger s.minted op
  apply s op := s.apply op

/-- Runs of the SQLite store whose calls all meet `adm`. -/
def sqliteSystem (adm : Ledger → String → AccountOp → Prop) :
    System SqliteAccountStore AccountOp where
  init := .init
  enabled s op := adm s.toLedger (SqliteAccountStore.mintedBy op) op
  apply s op := s.apply op

theorem inMemory_settled {s : InMemoryAccountStore}
    (h : (inMemorySystem Ledger.Admissible).Reachable s) : s.toLedger.Settled := by
  refine System.Reachable.invariant (fun s => s.toLedger.Settled) ?_ ?_ h
  · exact Ledger.Settled.empty
  · intro u op hu hadm
    exact hu.step (InMemoryAccountStore.apply_step u op hu hadm)

theorem sqlite_settled {s : SqliteAccountStore} (h : (sqliteSystem Ledger.Admissible).Reachable s) :
    s.toLedger.Settled ∧ s.settlements = [] := by
  refine System.Reachable.invariant (fun s => s.toLedger.Settled ∧ s.settlements = []) ?_ ?_ h
  · exact ⟨Ledger.Settled.empty, rfl⟩
  · rintro u op ⟨hu, hnone⟩ hadm
    have hstep := SqliteAccountStore.apply_step u op hu (by simp [hnone]) hadm
    exact ⟨hu.step hstep, (SqliteAccountStore.settlements_apply u op).trans hnone⟩

/-! ## §2. Completion is final -/

/-- Somewhere in the table, withdrawal `id` is completed. -/
def CompletedIn (L : Ledger) (id : String) : Prop :=
  ∃ w ∈ L.withdrawals, w.withdrawalId = id ∧ w.status = .completed

variable {id : String}

theorem CompletedIn.step {L L' : Ledger} (hset : L.Settled)
    (h : CompletedIn L id) (hstep : Ledger.Step L L') : CompletedIn L' id := by
  obtain ⟨w, hw, rfl, hc⟩ := h
  exact hstep.completed_stays hset.ids hw hc

theorem inMemory_completed_stays {s t : InMemoryAccountStore}
    (hs : (inMemorySystem Ledger.Admissible).Reachable s)
    (ht : (inMemorySystem Ledger.Admissible).ReachableFrom s t)
    (hc : CompletedIn s.toLedger id) : CompletedIn t.toLedger id := by
  have hboth := System.ReachableFrom.invariant
    (fun u => u.toLedger.Settled ∧ CompletedIn u.toLedger id)
    ⟨inMemory_settled hs, hc⟩ ?_ ht
  · exact hboth.2
  · rintro u op ⟨hu, hcu⟩ hadm
    have hstep := InMemoryAccountStore.apply_step u op hu hadm
    exact ⟨hu.step hstep, hcu.step hu hstep⟩

theorem sqlite_completed_stays {s t : SqliteAccountStore}
    (hs : (sqliteSystem Ledger.Admissible).Reachable s)
    (ht : (sqliteSystem Ledger.Admissible).ReachableFrom s t)
    (hc : CompletedIn s.toLedger id) : CompletedIn t.toLedger id := by
  have hboth := System.ReachableFrom.invariant
    (fun u => (u.toLedger.Settled ∧ u.settlements = []) ∧ CompletedIn u.toLedger id)
    ⟨sqlite_settled hs, hc⟩ ?_ ht
  · exact hboth.2
  · rintro u op ⟨⟨hu, hnone⟩, hcu⟩ hadm
    have hstep := SqliteAccountStore.apply_step u op hu (by simp [hnone]) hadm
    exact ⟨⟨hu.step hstep, (SqliteAccountStore.settlements_apply u op).trans hnone⟩,
      hcu.step hu hstep⟩

/-! ## §3. The laws over every run -/

/-- What holds of a ledger: balances and log agree, and every withdrawal is accounted for. -/
structure LedgerLaws (L : Ledger) : Prop where
  /-- Balances are non-negative, are the ledger's sums, and `balance_after` is the running
      sum. -/
  agrees : L.books.Agrees
  /-- While a withdrawal is open or completed its rows sum to minus its amount and none
      refunds it. -/
  unrefunded : ∀ w ∈ L.withdrawals,
    w.status = .pending ∨ w.status = .processing ∨ w.status = .completed →
    Ledger.refSum L.books.transactions w.withdrawalId = -w.amount ∧
    Ledger.refunds L.books.transactions w.withdrawalId = 0
  /-- Once it failed its rows sum to zero and exactly one refunds it. -/
  refunded : ∀ w ∈ L.withdrawals, w.status = .failed →
    Ledger.refSum L.books.transactions w.withdrawalId = 0 ∧
    Ledger.refunds L.books.transactions w.withdrawalId = 1

theorem LedgerLaws.of_settled {L : Ledger} (h : L.Settled) : LedgerLaws L where
  agrees := h.agrees
  unrefunded w hw hst := by
    have hacc := (h.accounted w hw).2
    rcases hst with hst | hst | hst <;> (rw [hst] at hacc; exact hacc)
  refunded w hw hst := by
    have hacc := (h.accounted w hw).2
    rwa [hst] at hacc

/-- **Ledger/balance agreement.**  In every state a run of admissible calls reaches, in
    either store, the ledger's laws hold; and from there on a completed withdrawal stays
    completed, so it is never refunded. -/
theorem reachable_settled :
    (∀ s, (inMemorySystem Ledger.Admissible).Reachable s → LedgerLaws s.toLedger ∧
      ∀ t, (inMemorySystem Ledger.Admissible).ReachableFrom s t →
        ∀ id, CompletedIn s.toLedger id → CompletedIn t.toLedger id) ∧
    (∀ s, (sqliteSystem Ledger.Admissible).Reachable s → LedgerLaws s.toLedger ∧
      ∀ t, (sqliteSystem Ledger.Admissible).ReachableFrom s t →
        ∀ id, CompletedIn s.toLedger id → CompletedIn t.toLedger id) := by
  constructor
  · intro s hs
    exact ⟨.of_settled (inMemory_settled hs), fun t ht id => inMemory_completed_stays hs ht⟩
  · intro s hs
    exact ⟨.of_settled (sqlite_settled hs).1, fun t ht id => sqlite_completed_stays hs ht⟩

/-- A run of the SQLite store to which the laws apply: fund, withdraw, fail; the three rows
    that mention the withdrawal's account sum to its balance and the refund is there. -/
def failedRun : List AccountOp :=
  [.credit "alice" 100 .deposit none none,
   .debitAndRecordWithdrawal ⟨"W", "alice", 40, "USD", "pending", none, 1⟩ "Withdrawal",
   .failWithdrawalAndRefund "W" "bounced" .pending 2]

theorem reachable_settled_failedRun :
    Ledger.refSum ((sqliteSystem Ledger.Admissible).run .init failedRun).books.transactions "W" = 0 ∧
    Ledger.refunds ((sqliteSystem Ledger.Admissible).run .init failedRun).books.transactions "W"
      = 1 := by
  have hadm : (sqliteSystem Ledger.Admissible).Admits .init failedRun := by
    refine ⟨⟨by decide, ?_⟩, ⟨by decide, ?_, ?_⟩, trivial, trivial⟩
    · exact List.forall_mem_nil _
    · exact List.forall_mem_nil _
    · decide
  have hreach := (sqliteSystem Ledger.Admissible).reachableFrom_run _ _ hadm
  have hlaws := (reachable_settled.2 _ hreach).1
  let w : Withdrawal :=
    ⟨"W", "alice", 40, "USD", "pending", .failed, none, none, 1, some 2, some "bounced", none, none⟩
  exact hlaws.refunded w (by decide) rfl

/-! ## §4. Why ids must be kept apart -/

/-- Positive amounts and fresh withdrawal ids, and nothing said about the references other
    calls name. -/
def Ledger.PositiveFresh (L : Ledger) (_minted : String) : AccountOp → Prop
  | .credit _ amount _ _ _ => 0 < amount
  | .debit _ amount _ _ _ => 0 < amount
  | .debitSpendable _ amount _ _ _ _ _ => 0 < amount
  | .debitAndRecordWithdrawal w _ => 0 < w.amount ∧ L.FreshId w.withdrawalId
  | .debitAndEnqueuePending args _ => 0 < args.amountMicro
  | .claimWithdrawalForPayout .. | .setWithdrawalCompletion .. | .failWithdrawalAndRefund ..
  | .linkWithdrawalTransfer .. | .noteWithdrawalPayoutUnresolved .. => True

/-- Fund an account, record withdrawal `W`, then deposit under the reference `W`. -/
def crossReferenceRun : List AccountOp :=
  [.credit "alice" 100 .deposit none none,
   .debitAndRecordWithdrawal ⟨"W", "alice", 50, "USD", "pending", none, 1⟩ "Withdrawal",
   .credit "alice" 5 .deposit (some "W") none]

/-- The row of `W` after the run above. -/
def crossReferenced : Withdrawal :=
  ⟨"W", "alice", 50, "USD", "pending", .pending, none, none, 1, none, none, none, none⟩

theorem not_laws_of_crossReferenced {L : Ledger} (hw : crossReferenced ∈ L.withdrawals)
    (hsum : Ledger.refSum L.books.transactions "W" = -45) : ¬ LedgerLaws L := by
  intro hlaws
  have hlaw := (hlaws.unrefunded crossReferenced hw (.inl rfl)).1
  rw [show crossReferenced.withdrawalId = "W" from rfl, hsum] at hlaw
  cases hlaw

/-- Both stores reach, with positive amounts and fresh withdrawal ids, a state that breaks
    the laws. -/
theorem plain_reference_unsettles :
    (∃ s, (inMemorySystem Ledger.PositiveFresh).Reachable s ∧ ¬ LedgerLaws s.toLedger) ∧
    (∃ s, (sqliteSystem Ledger.PositiveFresh).Reachable s ∧ ¬ LedgerLaws s.toLedger) := by
  constructor
  all_goals
    refine ⟨_, System.reachableFrom_run _ _ crossReferenceRun ?_,
      not_laws_of_crossReferenced (by decide) (by decide)⟩
    refine ⟨?_, ⟨by decide, ?_, ?_⟩, ?_, trivial⟩
    · show (0 : Int) < 100
      decide
    · exact List.forall_mem_nil _
    · decide
    · show (0 : Int) < 5
      decide

end Motebit.Accounts
