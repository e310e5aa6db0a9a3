/-
  Motebit.Accounts.Books — BALANCES AND THE TRANSACTION LOG.

  The two tables every money movement writes together: `relay_accounts` (one balance a
  motebit) and `relay_transactions` (append-only).  `credit`, `debit` and `debitSpendable`
  are translated from `services/relay/src/account-store-sqlite.ts`; the in-memory store of
  `packages/virtual-accounts/src/store.ts` performs the same writes.

  `Agrees` is the books' own invariant: balances are non-negative, equal to the sum of the
  account's signed rows, and each row's `balance_after` is the running sum up to it.

  Main results: `balance_credit`, `transactions_credit`, `debitIf_cases`, `Agrees.credit`,
  `Agrees.debitIf`.
-/

import Motebit.Lib.Table
import Motebit.Accounts.Types

namespace Motebit.Accounts

open Motebit.Lib List Function

/-- `relay_accounts` and `relay_transactions`.  `accounts m = none` means there is no row
    for `m`; the log is in insertion order. -/
structure Books where
  accounts : String → Option Int
  transactions : List AccountTransaction

namespace Books

/-! ## §1. The operations -/

/-- Both tables empty. -/
def empty : Books := ⟨fun _ => none, []⟩

/-- The balance a reader sees; no row reads as zero. -/
def balance (b : Books) (motebitId : String) : Int := (b.accounts motebitId).getD 0

/-- `getOrCreateAccount`: insert a zero row unless there is one. -/
def getOrCreateAccount (b : Books) (motebitId : String) : Books :=
  match b.accounts motebitId with
  | some _ => b
  | none => { b with accounts := update b.accounts motebitId (some 0) }

def addBalance (b : Books) (motebitId : String) (delta : Int) : Books :=
  { b with
    accounts := update b.accounts motebitId ((b.accounts motebitId).map (· + delta)) }

/-- The balance UPDATE, the re-read of the new balance and the ledger INSERT that every
    money movement runs in one transaction. -/
def post (b : Books) (motebitId : String) (delta : Int) (type : TransactionType)
    (referenceId description : Option String) (stamp : Option AllocationStamp) : Int × Books :=
  let b' := b.addBalance motebitId delta
  let newBalance := b'.balance motebitId
  (newBalance, { b' with
      transactions := b'.transactions ++
        [⟨motebitId, type, delta, newBalance, referenceId, description, stamp⟩] })

def credit (b : Books) (motebitId : String) (amount : Int) (type : TransactionType)
    (referenceId description : Option String) (stamp : Option AllocationStamp) : Int × Books :=
  (b.getOrCreateAccount motebitId).post motebitId amount type referenceId description stamp

/-- The conditional debit `… SET balance = balance - ? WHERE motebit_id = ? AND
    balance >= floor`; `none` is the insufficient-funds answer (`changes === 0`). -/
def debitIf (b : Books) (floor : Int) (motebitId : String) (amount : Int)
    (type : TransactionType) (referenceId description : Option String)
    (stamp : Option AllocationStamp) : Option Int × Books :=
  let b' := b.getOrCreateAccount motebitId
  if floor ≤ b'.balance motebitId then
    let r := b'.post motebitId (-amount) type referenceId description stamp
    (some r.1, r.2)
  else
    (none, b')

/-- `debit`: only if the balance covers the amount. -/
def debit (b : Books) (motebitId : String) (amount : Int) (type : TransactionType)
    (referenceId description : Option String) (stamp : Option AllocationStamp) :
    Option Int × Books :=
  b.debitIf amount motebitId amount type referenceId description stamp

/-- `debitSpendable` of the SQLite store, given the escrow hold it computed: only if the
    balance covers the amount and the hold. -/
def debitSpendable (b : Books) (hold : Int) (motebitId : String) (amount : Int)
    (type : TransactionType) (referenceId description : Option String)
    (stamp : Option AllocationStamp) : Option Int × Books :=
  b.debitIf (amount + hold) motebitId amount type referenceId description stamp

/-! ## §2. What the operations do -/

@[simp] theorem balance_empty (m : String) : empty.balance m = 0 := rfl

section

variable (b : Books)

@[simp] theorem balance_getOrCreateAccount (m m' : String) :
    (b.getOrCreateAccount m).balance m' = b.balance m' := by
  unfold getOrCreateAccount
  split
  · rfl
  next h =>
  by_cases hm : m' = m
  · subst hm
    simp [balance, h]
  · simp [balance, update_of_ne hm]

@[simp] theorem transactions_getOrCreateAccount (m : String) :
    (b.getOrCreateAccount m).transactions = b.transactions := by
  unfold getOrCreateAccount
  split <;> rfl

theorem isSome_getOrCreateAccount (m : String) : ((b.getOrCreateAccount m).accounts m).isSome := by
  unfold getOrCreateAccount
  split
  · next h => rw [h]; rfl
  · simp

theorem balance_addBalance (m m' : String) (delta : Int) (hm : (b.accounts m).isSome) :
    (b.addBalance m delta).balance m' = if m' = m then b.balance m + delta else b.balance m' := by
  obtain ⟨v, hv⟩ := Option.isSome_iff_exists.mp hm
  by_cases h : m' = m
  · subst h
    simp [addBalance, balance, hv]
  · simp [addBalance, balance, h]

theorem balance_credit (m m' : String) (amount : Int) (ty : TransactionType)
    (ref desc : Option String) (st : Option AllocationStamp) :
    (b.credit m amount ty ref desc st).2.balance m'
      = if m' = m then b.balance m + amount else b.balance m' := by
  have h := balance_addBalance (b.getOrCreateAccount m) m m' amount (isSome_getOrCreateAccount b m)
  rwa [balance_getOrCreateAccount, balance_getOrCreateAccount] at h

theorem transactions_credit (m : String) (amount : Int) (ty : TransactionType)
    (ref desc : Option String) (st : Option AllocationStamp) :
    (b.credit m amount ty ref desc st).2.transactions
      = b.transactions ++ [⟨m, ty, amount, b.balance m + amount, ref, desc, st⟩] := by
  have h := balance_addBalance (b.getOrCreateAccount m) m m amount (isSome_getOrCreateAccount b m)
  rw [if_pos rfl, balance_getOrCreateAccount] at h
  simp [credit, post, h]
  simp [addBalance]

/-- **What a conditional debit can do**: leave balances and log alone, or find the floor
    covered, and then it is a credit of the negated amount. -/
theorem debitIf_cases (floor : Int) (m : String) (amount : Int)
    (ty : TransactionType) (ref desc : Option String) (st : Option AllocationStamp) :
    (b.balance m < floor ∧
      b.debitIf floor m amount ty ref desc st = (none, b.getOrCreateAccount m)) ∨
    (floor ≤ b.balance m ∧ b.debitIf floor m amount ty ref desc st
        = (some (b.credit m (-amount) ty ref desc st).1,
            (b.credit m (-amount) ty ref desc st).2)) := by
  unfold debitIf
  simp only [balance_getOrCreateAccount]
  by_cases h : floor ≤ b.balance m
  · right
    rw [if_pos h]
    exact ⟨h, rfl⟩
  · left
    rw [if_neg h]
    exact ⟨by omega, rfl⟩

end

/-! ## §3. The books' invariant -/

/-- The sum of an account's signed rows. -/
def ledgerSum (log : List AccountTransaction) (m : String) : Int :=
  sumWhere (fun t => t.motebitId == m) AccountTransaction.amount log

/-- Balances are non-negative and are the ledger's sums; each row's `balance_after` is
    its account's running sum up to and including it. -/
structure Agrees (b : Books) : Prop where
  nonneg : ∀ m, 0 ≤ b.balance m
  agree : ∀ m, b.balance m = ledgerSum b.transactions m
  running : ∀ before row after, b.transactions = before ++ row :: after →
    row.balanceAfter = ledgerSum (before ++ [row]) row.motebitId

theorem Agrees.empty : Agrees Books.empty where
  nonneg _ := Int.le_refl 0
  agree _ := rfl
  running before row after h := by
    have hlen := congrArg List.length h
    simp [Books.empty] at hlen

theorem Agrees.getOrCreateAccount {b : Books} (h : Agrees b) (m : String) :
    Agrees (b.getOrCreateAccount m) where
  nonneg m' := by simpa using h.nonneg m'
  agree m' := by simpa using h.agree m'
  running before row after heq := h.running before row after (by simpa using heq)

theorem Agrees.credit {b : Books} (h : Agrees b) (m : String) (amount : Int)
    (ty : TransactionType) (ref desc : Option String) (st : Option AllocationStamp)
    (hcover : 0 ≤ b.balance m + amount) : Agrees (b.credit m amount ty ref desc st).2 where
  nonneg m' := by
    rw [balance_credit]
    split
    · exact hcover
    · exact h.nonneg m'
  agree m' := by
    rw [balance_credit, transactions_credit]
    unfold ledgerSum
    rw [sumWhere_append_row]
    have hm' := h.agree m'
    unfold ledgerSum at hm'
    by_cases hm : m' = m
    · subst hm
      simp [hm']
    · have hne : (m == m') = false := by simpa using Ne.symm hm
      simp [hm, hne, hm']
  running before row after heq := by
    rw [transactions_credit] at heq
    rcases eq_nil_or_concat after with rfl | ⟨after', last, rfl⟩
    · -- the row is the one just appended
      obtain ⟨hbefore, hrow⟩ := append_inj' heq rfl
      simp only [List.cons.injEq, and_true] at hrow
      rw [← hrow, ← hbefore]
      have hm := h.agree m
      unfold ledgerSum at hm ⊢
      rw [sumWhere_append_row]
      simp [hm]
    · -- the row is one of the old log
      have heq' : b.transactions ++ [⟨m, ty, amount, b.balance m + amount, ref, desc, st⟩]
          = (before ++ row :: after') ++ [last] := by
        simpa using heq
      obtain ⟨hold, -⟩ := append_inj' heq' rfl
      exact h.running before row after' hold

/-! ## §4. The escrow hold -/

/-- `getUnwithdrawableHold`: what relay settlements paid `motebitId` that is inside the
    24-hour dispute window or under an active dispute. -/
def unwithdrawableHold (settlements : List Settlement) (disputes : List Dispute) (now : Nat)
    (motebitId : String) : Int :=
  sumWhere (fun s => s.motebitId == motebitId && (s.status == .completed || s.status == .partly)
      && s.isRelay
      && (decide (now < s.settledAt + disputeWindowMs)
        || disputes.any fun d => d.taskId == s.taskId && d.state != .final && d.state != .expired))
    Settlement.amountSettled settlements

theorem unwithdrawableHold_nonneg {settlements : List Settlement}
    (h : ∀ s ∈ settlements, 0 ≤ s.amountSettled) (disputes : List Dispute) (now : Nat)
    (m : String) : 0 ≤ unwithdrawableHold settlements disputes now m :=
  sumWhere_nonneg fun s hs _ => h s hs

end Books

end Motebit.Accounts
