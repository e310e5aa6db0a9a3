/-
  Motebit.Accounts.Withdrawable — WHAT MAY LEAVE AS CASH.

  Translated from `computeWithdrawableAvailable` and `requestWithdrawal`
  (`packages/virtual-accounts/src/withdrawals.ts`), `getUnspentGrantHold`
  (`services/relay/src/account-store-sqlite.ts`) and `enqueuePendingWithdrawal`
  (`services/relay/src/batch-withdrawals.ts`), the two exits every withdrawal and every
  sweep goes through.

  Main results: `requestWithdrawal_exit`, `enqueuePendingWithdrawal_exit`.
-/

import Motebit.Accounts.Sqlite

namespace Motebit.Accounts

open Motebit.Lib
open AccountTransaction

/-! ## §1. The grant hold -/

def freeCreditReferencePrefix : String := "free-credit:"

/-- `reference_id LIKE 'free-credit:%'`: NULL matches nothing, and SQLite's LIKE does not
    tell the case of ASCII letters. -/
def isFreeCredit (referenceId : Option String) : Bool :=
  referenceId.any fun ref =>
    freeCreditReferencePrefix.toList.isPrefixOf (ref.toList.map Char.toLower)

/-- A row that records a promotional grant. -/
def AccountTransaction.isGrant (t : AccountTransaction) : Bool :=
  t.type == .deposit && isFreeCredit t.referenceId

namespace Books

/-- `granted`: the promotional grants an account received. -/
def granted (b : Books) (m : String) : Int :=
  sumWhere (fun t => t.motebitId == m && t.isGrant) AccountTransaction.amount b.transactions

def inferenceSpend (b : Books) (m : String) : Int :=
  -sumWhere (fun t => t.motebitId == m && t.type == .fee) AccountTransaction.amount b.transactions

def unspentGrantHold (b : Books) (m : String) : Int :=
  if b.granted m ≤ 0 then 0 else max 0 (b.granted m - b.inferenceSpend m)

/-- The row is neither a grant nor inference spend. -/
def ownRow (t : AccountTransaction) : Bool := !t.isGrant && !(t.type == .fee)

/-- What the account holds beside its grants and its inference spend. -/
def owned (b : Books) (m : String) : Int :=
  sumWhere (fun t => t.motebitId == m && ownRow t) AccountTransaction.amount b.transactions

theorem balance_eq_owned {b : Books} (h : b.Agrees) (m : String) :
    b.balance m = b.owned m + b.granted m - b.inferenceSpend m := by
  have hsplit : ∀ log : List AccountTransaction, ledgerSum log m
        = sumWhere (fun t => t.motebitId == m && ownRow t) amount log
          + sumWhere (fun t => t.motebitId == m && t.isGrant) amount log
          + sumWhere (fun t => t.motebitId == m && t.type == .fee) amount log := by
    intro log
    unfold ledgerSum
    induction log with
    | nil => rfl
    | cons t log ih =>
      simp only [sumWhere_cons, ih]
      -- a row is a grant, inference spend or neither, and a grant is no fee
      by_cases hm : t.motebitId = m
      · by_cases hfee : t.type = .fee
        · simp [hm, ownRow, isGrant, hfee]
          omega
        · cases hgrant : t.isGrant
          · simp [hm, ownRow, hgrant, hfee]
            omega
          · simp [hm, ownRow, hgrant, hfee]
            omega
      · simp [hm]
  rw [h.agree m, hsplit]
  unfold owned granted inferenceSpend
  omega

/-- **The grant hold leaves no grant to withdraw**: with grants and spending non-negative,
    the balance less the hold is at most what the account owns. -/
theorem balance_sub_hold_le {b : Books} (h : b.Agrees) {m : String} (hgranted : 0 ≤ b.granted m)
    (hspend : 0 ≤ b.inferenceSpend m) : b.balance m - b.unspentGrantHold m ≤ b.owned m := by
  have hbal := balance_eq_owned h m
  unfold unspentGrantHold
  split
  · omega
  · omega

@[simp] theorem getOrCreateAccount_idem (b : Books) (m : String) :
    (b.getOrCreateAccount m).getOrCreateAccount m = b.getOrCreateAccount m := by
  obtain ⟨v, hv⟩ := Option.isSome_iff_exists.mp (isSome_getOrCreateAccount b m)
  rw [getOrCreateAccount.eq_def (b.getOrCreateAccount m), hv]

end Books

/-! ## §2. The available amount -/

structure WithdrawableAvailable where
  balance : Int
  disputeHold : Int
  grantHold : Int
  available : Int
  deriving DecidableEq

/-- `RequestWithdrawalArgs`, without the injected clock, id source and logger. -/
structure RequestWithdrawalArgs where
  motebitId : String
  amountMicro : Int
  destination : Option String
  idempotencyKey : Option String
  deriving DecidableEq

namespace SqliteAccountStore

/-- `computeWithdrawableAvailable`: it creates the account row it reads. -/
def computeWithdrawableAvailable (s : SqliteAccountStore) (now : Nat) (motebitId : String) :
    WithdrawableAvailable × SqliteAccountStore :=
  let s := { s with books := s.books.getOrCreateAccount motebitId }
  let balance := s.books.balance motebitId
  let disputeHold := Books.unwithdrawableHold s.settlements s.disputes now motebitId
  let grantHold := s.books.unspentGrantHold motebitId
  (⟨balance, disputeHold, grantHold, max 0 (balance - disputeHold - grantHold)⟩, s)

/-- `requestWithdrawal`.  `withdrawalId` is what `newId` answers and `dollars` the amount as
    `fromMicro(amount).toFixed(6)` prints it. -/
def requestWithdrawal (s : SqliteAccountStore) (now : Nat) (withdrawalId dollars : String)
    (args : RequestWithdrawalArgs) : Except String (RecordResult × SqliteAccountStore) :=
  if isPositiveMicro args.amountMicro then
    let destination := args.destination.getD "pending"
    -- an empty key is no key
    match (args.idempotencyKey.filter (· ≠ "")).bind
        (s.getWithdrawalByIdempotencyKey args.motebitId) with
    | some prior => .ok (.existing prior, s)
    | none =>
      let (view, s) := s.computeWithdrawableAvailable now args.motebitId
      if view.available < args.amountMicro then .ok (.insufficient, s)
      else
        s.debitAndRecordWithdrawal
          ⟨withdrawalId, args.motebitId, args.amountMicro, "USD", destination,
            args.idempotencyKey, now⟩
          ("Withdrawal request: $" ++ dollars ++ " to " ++ destination)
  else
    .error (positiveMicroError "requestWithdrawal" args.amountMicro)

/-- `enqueuePendingWithdrawal`; `uuid` is what `crypto.randomUUID` answers. -/
def enqueuePendingWithdrawal (s : SqliteAccountStore) (now : Nat) (uuid : String)
    (motebitId : String) (amountMicro : Int) (destination rail source : String)
    (idempotencyKey : Option String) : Except String (Option String × SqliteAccountStore) :=
  if isPositiveMicro amountMicro then
    let (view, s) := s.computeWithdrawableAvailable now motebitId
    if view.available < amountMicro then .ok (none, s)
    else
      match s.debitAndEnqueuePending
          ⟨motebitId, amountMicro, destination, rail, source, idempotencyKey, none, none⟩ uuid with
      | .ok (result, s) => .ok (result.map Prod.fst, s)
      | .error e => .error e
  else
    .error (positiveMicroError "enqueuePendingWithdrawal" amountMicro)

theorem available_le {s : SqliteAccountStore} {now : Nat} {m : String} {amount : Int}
    (hpaid : ∀ r ∈ s.settlements, 0 ≤ r.amountSettled) (hpos : 0 < amount)
    (h : amount ≤ (s.computeWithdrawableAvailable now m).1.available) :
    amount ≤ s.books.balance m - s.books.unspentGrantHold m
        - Books.unwithdrawableHold s.settlements s.disputes now m ∧
      amount ≤ s.books.balance m - s.books.unspentGrantHold m := by
  have hhold := Books.unwithdrawableHold_nonneg hpaid s.disputes now m
  have hgrant : (s.books.getOrCreateAccount m).unspentGrantHold m = s.books.unspentGrantHold m := by
    simp [Books.unspentGrantHold, Books.granted, Books.inferenceSpend]
  simp only [computeWithdrawableAvailable, Books.balance_getOrCreateAccount, hgrant] at h
  omega

/-! ## §3. The two exits -/

/-- What has left as cash: the withdrawals and the queued withdrawals. -/
def cashedOut (s : SqliteAccountStore) : Int :=
  sumWhere (fun _ => true) Withdrawal.amount s.withdrawals
    + sumWhere (fun _ => true) PendingWithdrawal.amountMicro s.pendingWithdrawals

/-- What an exit may have done to the store. -/
inductive Exit (s : SqliteAccountStore) (now : Nat) (m : String) : SqliteAccountStore → Prop
  | nothing : Exit s now m s
  /-- Only the account row was created. -/
  | created : Exit s now m { s with books := s.books.getOrCreateAccount m }
  /-- The available amount covers the withdrawal, which is debited and recorded. -/
  | left (amount : Int) (ref desc : Option String) (withdrawals : List Withdrawal)
      (pending : List PendingWithdrawal) (hpos : 0 < amount)
      (havail : amount ≤ (s.computeWithdrawableAvailable now m).1.available)
      (htotal : sumWhere (fun _ => true) Withdrawal.amount withdrawals
        + sumWhere (fun _ => true) PendingWithdrawal.amountMicro pending = s.cashedOut + amount) :
      Exit s now m { s with
        books := (s.books.credit m (-amount) .withdrawal ref desc none).2
        withdrawals := withdrawals, pendingWithdrawals := pending }

theorem debit_created (s : SqliteAccountStore) (m : String) (amount : Int)
    (ty : TransactionType) (ref desc : Option String) :
    ({ s with books := s.books.getOrCreateAccount m } : SqliteAccountStore).debit m amount ty ref
        desc = (none, { s with books := s.books.getOrCreateAccount m }) ∨
    ∃ newBalance, ({ s with books := s.books.getOrCreateAccount m } : SqliteAccountStore).debit m
        amount ty ref desc
      = (some newBalance, { s with books := (s.books.credit m (-amount) ty ref desc none).2 }) := by
  rcases (s.books.getOrCreateAccount m).debitIf_cases amount m amount ty ref desc none with
    ⟨-, heq⟩ | ⟨-, heq⟩
  · left
    simp only [debit, Books.debit, heq, Books.getOrCreateAccount_idem]
  · right
    have hcredit : (s.books.getOrCreateAccount m).credit m (-amount) ty ref desc none
        = s.books.credit m (-amount) ty ref desc none := by
      simp only [Books.credit, Books.getOrCreateAccount_idem]
    simp only [debit, Books.debit, heq, hcredit]
    exact ⟨_, rfl⟩

/-- **All a withdrawal request can do.** -/
theorem requestWithdrawal_exit (s : SqliteAccountStore) (now : Nat)
    (withdrawalId dollars : String) (args : RequestWithdrawalArgs) :
    Exit s now args.motebitId (s.commit (s.requestWithdrawal now withdrawalId dollars args)) := by
  unfold requestWithdrawal
  split
  · next hpos =>
    have hpos' : 0 < args.amountMicro := by
      simp only [isPositiveMicro, Bool.and_eq_true, decide_eq_true_eq] at hpos
      exact hpos.1
    dsimp only
    split
    · exact .nothing
    · split
      · exact .created
      · next havail =>
        unfold debitAndRecordWithdrawal
        simp only [hpos, if_true]
        split
        · exact .created
        · rcases s.debit_created args.motebitId args.amountMicro .withdrawal (some withdrawalId)
            (some ("Withdrawal request: $" ++ dollars ++ " to "
              ++ args.destination.getD "pending")) with heq | ⟨nb, heq⟩
          · simp only [computeWithdrawableAvailable, heq]
            exact .created
          · simp only [computeWithdrawableAvailable, heq, insertWithdrawal]
            by_cases hpk : (s.withdrawals.any fun v => v.withdrawalId == withdrawalId) = true
            · simp only [hpk, if_true]
              exact .nothing
            · simp only [hpk]
              refine .left args.amountMicro _ _ _ _ hpos' (by omega) ?_
              simp [cashedOut, NewWithdrawal.record]
              omega
  · exact .nothing

/-- **All an enqueue can do.** -/
theorem enqueuePendingWithdrawal_exit (s : SqliteAccountStore) (now : Nat)
    (uuid m : String) (amount : Int) (destination rail source : String) (key : Option String) :
    Exit s now m
      (s.commit (s.enqueuePendingWithdrawal now uuid m amount destination rail source key)) := by
  unfold enqueuePendingWithdrawal
  split
  · next hpos =>
    have hpos' : 0 < amount := by
      simp only [isPositiveMicro, Bool.and_eq_true, decide_eq_true_eq] at hpos
      exact hpos.1
    dsimp only
    split
    · exact .created
    next havail =>
    unfold debitAndEnqueuePending
    dsimp only [Option.getD]
    cases hkey : key.bind fun k => s.pendingWithdrawals.find? fun row =>
        row.motebitId == m && row.idempotencyKey == some k with
    | some row =>
      simp only [computeWithdrawableAvailable, hkey]
      exact .created
    | none =>
      rcases s.debit_created m amount .withdrawal (some uuid) (some (EnqueueArgs.ledgerText
            ⟨m, amount, destination, rail, source, key, none, none⟩ uuid)) with heq | ⟨nb, heq⟩
      · simp only [computeWithdrawableAvailable, hkey, heq]
        exact .created
      · simp only [computeWithdrawableAvailable, hkey, heq]
        by_cases hpk : (s.pendingWithdrawals.any fun row => row.pendingId == uuid) = true
        · simp only [hpk, if_true]
          exact .nothing
        · simp only [hpk]
          refine .left amount _ _ _ _ hpos' (by omega) ?_
          simp [cashedOut, EnqueueArgs.row]
          omega
  · exact .nothing

end SqliteAccountStore

end Motebit.Accounts
