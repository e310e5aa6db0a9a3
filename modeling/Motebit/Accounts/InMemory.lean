/-
  Motebit.Accounts.InMemory — the IN-MEMORY account store.

  Translated from `InMemoryAccountStore` (`packages/virtual-accounts/src/store.ts`).  Each
  method is one synchronous turn of the event loop.  JavaScript maps that are only read by
  key become functions; the withdrawal map keeps insertion order and is a list.

  Main result:
    * `apply_step` — every call is one of the ledger's steps.
-/

import Motebit.Accounts.Ledger

namespace Motebit.Accounts

open Motebit.Lib

structure InMemoryAccountStore extends Ledger where
  idempotencyIndex : String → Option String
  pendingWithdrawals : List PendingWithdrawal
  pendingCounter : Nat

namespace InMemoryAccountStore

def init : InMemoryAccountStore :=
  { Ledger.empty with idempotencyIndex := fun _ => none, pendingWithdrawals := [], pendingCounter := 0 }

/-! ## §1. The methods -/

def credit (s : InMemoryAccountStore) (motebitId : String) (amount : Int)
    (type : TransactionType) (referenceId description : Option String) :
    Int × InMemoryAccountStore :=
  let r := s.books.credit motebitId amount type referenceId description none
  (r.1, { s with books := r.2 })

def debit (s : InMemoryAccountStore) (motebitId : String) (amount : Int)
    (type : TransactionType) (referenceId description : Option String) :
    Option Int × InMemoryAccountStore :=
  let r := s.books.debit motebitId amount type referenceId description none
  (r.1, { s with books := r.2 })

/-- `debitSpendable`: the hold is whatever the injected function answers; the debit below
    checks the balance again. -/
def debitSpendable (s : InMemoryAccountStore) (hold : Int) (motebitId : String) (amount : Int)
    (type : TransactionType) (referenceId description : Option String) :
    Option Int × InMemoryAccountStore :=
  if s.books.balance motebitId - hold < amount then (none, s)
  else s.debit motebitId amount type referenceId description

def indexKey (motebitId key : String) : String := motebitId ++ ":" ++ key

def getWithdrawalById (s : InMemoryAccountStore) (id : String) : Option Withdrawal :=
  s.withdrawals.find? fun w => w.withdrawalId == id

def getWithdrawalByIdempotencyKey (s : InMemoryAccountStore) (motebitId key : String) :
    Option Withdrawal :=
  match s.idempotencyIndex (indexKey motebitId key) with
  | none => none
  | some id => if id = "" then none else s.getWithdrawalById id

def insertWithdrawal (s : InMemoryAccountStore) (w : NewWithdrawal) : InMemoryAccountStore :=
  { s with
    withdrawals := upsertBy Withdrawal.withdrawalId w.record s.withdrawals
    idempotencyIndex :=
      match w.idempotencyKey with
      | none => s.idempotencyIndex
      | some key =>
        Function.update s.idempotencyIndex (indexKey w.motebitId key) (some w.withdrawalId) }

/-- `debitAndRecordWithdrawal`; a bad amount throws before anything is read. -/
def debitAndRecordWithdrawal (s : InMemoryAccountStore) (w : NewWithdrawal)
    (description : String) : Except String (RecordResult × InMemoryAccountStore) :=
  if isPositiveMicro w.amount then
    match w.idempotencyKey.bind (s.getWithdrawalByIdempotencyKey w.motebitId) with
    | some existing => .ok (.existing existing, s)
    | none =>
      match s.debit w.motebitId w.amount .withdrawal (some w.withdrawalId) (some description) with
      | (none, s') => .ok (.insufficient, s')
      | (some newBalance, s') => .ok (.recorded w.record newBalance, s'.insertWithdrawal w)
  else
    .error (positiveMicroError "debitAndRecordWithdrawal" w.amount)

def claimWithdrawalForPayout (s : InMemoryAccountStore) (id : String) (claimedAt : Nat)
    (payoutValidUntil : Option Nat) : Bool × InMemoryAccountStore :=
  let r := s.mutateWithdrawal id Ledger.claimOk (Ledger.claimSet claimedAt payoutValidUntil)
  (r.1, { s with toLedger := r.2 })

def setWithdrawalCompletion (s : InMemoryAccountStore) (id payoutReference : String)
    (completedAt : Nat) (source : WithdrawalOpenStatus) : Bool × InMemoryAccountStore :=
  let r := s.mutateWithdrawal id (Ledger.fromOk source)
    (Ledger.completionSet payoutReference completedAt)
  (r.1, { s with toLedger := r.2 })

/-- `failWithdrawalAndRefund`: the status write and the credit on one tick. -/
def failWithdrawalAndRefund (s : InMemoryAccountStore) (id reason : String)
    (source : WithdrawalOpenStatus) (failedAt : Nat) :
    Option (String × Int) × InMemoryAccountStore :=
  match s.getWithdrawalById id with
  | none => (none, s)
  | some w =>
    if Ledger.fromOk source w then
      let s' : InMemoryAccountStore :=
        { s with toLedger := (s.mutateWithdrawal id (Ledger.fromOk source)
            (Ledger.failSet reason failedAt)).2 }
      let s'' := (s'.credit w.motebitId w.amount .withdrawal (some id)
        (some (Ledger.refundText reason))).2
      (some (w.motebitId, w.amount), s'')
    else
      (none, s)

def linkWithdrawalTransfer (s : InMemoryAccountStore) (id payoutReference : String) :
    Bool × InMemoryAccountStore :=
  let r := s.mutateWithdrawal id Ledger.linkOk (Ledger.linkSet payoutReference)
  (r.1, { s with toLedger := r.2 })

def noteWithdrawalPayoutUnresolved (s : InMemoryAccountStore) (id note : String) :
    Bool × InMemoryAccountStore :=
  let r := s.mutateWithdrawal id Ledger.noteOk (Ledger.noteSet note)
  (r.1, { s with toLedger := r.2 })

/-- `newPendingId`: `pend-mem-` and the counter in hexadecimal, padded to eight digits. -/
def pendingIdOf (counter : Nat) : String :=
  let digits := Nat.toDigits 16 counter
  "pend-mem-" ++ String.ofList (List.replicate (8 - digits.length) '0' ++ digits)

/-- The queue id the next call without one is given. -/
def minted (s : InMemoryAccountStore) : String := pendingIdOf (s.pendingCounter + 1)

/-- `args.pendingId ?? this.newPendingId()`: the counter moves only when the caller names
    no id. -/
def takePendingId (s : InMemoryAccountStore) (args : EnqueueArgs) : InMemoryAccountStore :=
  match args.pendingId with
  | some _ => s
  | none => { s with pendingCounter := s.pendingCounter + 1 }

/-- `debitAndEnqueuePending`: a replayed key returns the queued row without a debit. -/
def debitAndEnqueuePending (s : InMemoryAccountStore) (args : EnqueueArgs) :
    Option (String × Int) × InMemoryAccountStore :=
  match args.idempotencyKey.bind fun key =>
      s.pendingWithdrawals.find? fun row =>
        row.motebitId == args.motebitId && row.idempotencyKey == some key with
  | some row => (some (row.pendingId, s.books.balance args.motebitId), s)
  | none =>
    let pendingId := args.pendingId.getD s.minted
    match (s.takePendingId args).debit args.motebitId args.amountMicro .withdrawal
        (some pendingId) (some (args.ledgerText pendingId)) with
    | (none, s') => (none, s')
    | (some newBalance, s') =>
      (some (pendingId, newBalance), { s' with
          pendingWithdrawals :=
            upsertBy PendingWithdrawal.pendingId (args.row pendingId) s'.pendingWithdrawals })

/-- One call of the interface; a call that throws leaves the store as it was. -/
def apply (s : InMemoryAccountStore) : AccountOp → InMemoryAccountStore
  | .credit m amount ty ref desc => (s.credit m amount ty ref desc).2
  | .debit m amount ty ref desc => (s.debit m amount ty ref desc).2
  | .debitSpendable m amount ty ref desc _ hold =>
      (s.debitSpendable hold m amount ty ref desc).2
  | .debitAndRecordWithdrawal w desc =>
      match s.debitAndRecordWithdrawal w desc with
      | .ok r => r.2
      | .error _ => s
  | .claimWithdrawalForPayout id at_ until_ => (s.claimWithdrawalForPayout id at_ until_).2
  | .setWithdrawalCompletion id ref at_ source => (s.setWithdrawalCompletion id ref at_ source).2
  | .failWithdrawalAndRefund id reason source at_ =>
      (s.failWithdrawalAndRefund id reason source at_).2
  | .linkWithdrawalTransfer id ref => (s.linkWithdrawalTransfer id ref).2
  | .noteWithdrawalPayoutUnresolved id note => (s.noteWithdrawalPayoutUnresolved id note).2
  | .debitAndEnqueuePending args _ => (s.debitAndEnqueuePending args).2

/-! ## §2. Every call is a ledger step -/

section

variable (s : InMemoryAccountStore)

theorem debit_step (m : String) (amount : Int)
    (ty : TransactionType) (ref desc : Option String) (href : s.NotWithdrawalId ref) :
    Ledger.Step s.toLedger (s.debit m amount ty ref desc).2.toLedger :=
  Ledger.Step.debitIf s.toLedger amount m amount ty ref desc (Int.le_refl amount) href

theorem record_step (w : NewWithdrawal) (desc : String)
    (hpos : 0 < w.amount) (hfresh : s.FreshId w.withdrawalId) :
    Ledger.Step s.toLedger (s.apply (.debitAndRecordWithdrawal w desc)).toLedger := by
  simp only [apply, debitAndRecordWithdrawal]
  split
  · next h =>
    revert h
    split
    · -- the amount is accepted
      split
      · rintro ⟨rfl⟩
        exact .stay _
      · rcases s.books.debitIf_cases w.amount w.motebitId w.amount .withdrawal
          (some w.withdrawalId) (some desc) none with ⟨-, heq⟩ | ⟨hcov, heq⟩
        · simp only [debit, Books.debit, heq]
          rintro ⟨rfl⟩
          exact .idle _ _
        · simp only [debit, Books.debit, heq, insertWithdrawal]
          rintro ⟨rfl⟩
          have hup : upsertBy Withdrawal.withdrawalId w.record s.withdrawals
              = s.withdrawals ++ [w.record] := upsertBy_of_fresh hfresh.1
          rw [hup]
          exact .record s.toLedger w (some desc) hpos hcov hfresh
    · nofun
  · exact .stay _

theorem fail_step (hset : s.toLedger.Settled) (id reason : String)
    (source : WithdrawalOpenStatus) (at_ : Nat) :
    Ledger.Step s.toLedger (s.failWithdrawalAndRefund id reason source at_).2.toLedger := by
  unfold failWithdrawalAndRefund
  split
  · exact .stay _
  next w hfind =>
  have hw : w ∈ s.withdrawals := List.mem_of_find?_eq_some hfind
  have hid : w.withdrawalId = id := by simpa using List.find?_some hfind
  split
  · next hok =>
    subst hid
    simp only [credit, Ledger.mutateWithdrawal_eq s.toLedger hset.ids]
    exact .fail s.toLedger w reason at_ source hw hok
  · exact .stay _

theorem enqueue_step (args : EnqueueArgs)
    (href : s.NotWithdrawalId (some (args.pendingId.getD s.minted))) :
    Ledger.Step s.toLedger (s.debitAndEnqueuePending args).2.toLedger := by
  unfold debitAndEnqueuePending
  split
  · exact .stay _
  · -- minting an id touches the counter only
    have hsame : (s.takePendingId args).toLedger = s.toLedger := by
      unfold takePendingId
      split <;> rfl
    have h := debit_step (s.takePendingId args) args.motebitId args.amountMicro .withdrawal
      (some (args.pendingId.getD s.minted)) (some (args.ledgerText (args.pendingId.getD s.minted)))
      (by rw [hsame]; exact href)
    rw [hsame] at h
    dsimp only
    split
    · next heq => rw [heq] at h; exact h
    · next heq => rw [heq] at h; exact h

/-- **Refinement**: every admissible call on a settled store is one ledger step. -/
theorem apply_step (op : AccountOp) (hset : s.toLedger.Settled)
    (hadm : s.toLedger.Admissible s.minted op) : Ledger.Step s.toLedger (s.apply op).toLedger := by
  cases op with
  | credit m amount ty ref desc =>
    obtain ⟨hpos, href⟩ := hadm
    have hnn := hset.agrees.nonneg m
    exact .plain s.toLedger m amount ty ref desc (by omega) href
  | debit m amount ty ref desc => exact debit_step s m amount ty ref desc hadm.2
  | debitSpendable m amount ty ref desc =>
    simp only [apply, debitSpendable]
    split
    · exact .stay _
    · exact debit_step s m amount ty ref desc hadm.2
  | debitAndRecordWithdrawal w desc => exact record_step s w desc hadm.1 hadm.2
  | claimWithdrawalForPayout id at_ until_ =>
    simp only [apply, claimWithdrawalForPayout, Ledger.mutateWithdrawal_eq s.toLedger hset.ids]
    exact .claim s.toLedger id at_ until_
  | setWithdrawalCompletion id ref at_ source =>
    simp only [apply, setWithdrawalCompletion, Ledger.mutateWithdrawal_eq s.toLedger hset.ids]
    exact .complete s.toLedger id ref at_ source
  | failWithdrawalAndRefund id reason source at_ => exact fail_step s hset id reason source at_
  | linkWithdrawalTransfer id ref =>
    simp only [apply, linkWithdrawalTransfer, Ledger.mutateWithdrawal_eq s.toLedger hset.ids]
    exact .link s.toLedger id ref
  | noteWithdrawalPayoutUnresolved id note =>
    simp only [apply, noteWithdrawalPayoutUnresolved,
      Ledger.mutateWithdrawal_eq s.toLedger hset.ids]
    exact .note s.toLedger id note
  | debitAndEnqueuePending args => exact enqueue_step s args hadm.2

end

end InMemoryAccountStore

end Motebit.Accounts
