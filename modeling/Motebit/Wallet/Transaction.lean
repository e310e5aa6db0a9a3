/-
  Motebit.Wallet.Transaction — WHAT A TRANSACTION PAID, read back from its token balances.

  Translated from `Web3JsRpcAdapter.getTransaction` in `packages/wallet-solana/src/web3js-adapter.ts`.
  Transfers are not decoded: each token account's balance after the transaction is compared with
  its balance before.

  Main results: `readLegs_eq`.
-/

import Motebit.Lib.JsMap

namespace Motebit.Wallet

open Motebit.Lib List

/-! ## §1. Answers of the RPC -/

/-- A row of `preTokenBalances` or `postTokenBalances`; `amount` is `BigInt(uiTokenAmount.amount)`,
    `none` where that throws. -/
structure TokenBalance where
  accountIndex : Nat
  mint : String
  owner : Option String
  amount : Option Int
  deriving DecidableEq

/-- What `Connection.getTransaction` resolves with; `failed` where `meta.err` is set. -/
structure RpcTransaction where
  slot : Nat
  failed : Bool
  preTokenBalances : List TokenBalance
  postTokenBalances : List TokenBalance
  deriving DecidableEq

inductive RpcAnswer
  | threw (reason : String)
  | resolved (resp : Option RpcTransaction)

structure TransferLeg where
  to_owner : String
  amountMicro : Int
  deriving DecidableEq

inductive TxVerificationResult
  | confirmed (payer : String) (transfers : List TransferLeg) (slot : Nat)
  | not_found
  | rpc_error (reason : String)
  deriving DecidableEq

/-! ## §2. Reading -/

structure DeltaRow where
  owner : String
  delta : Int
  deriving DecidableEq

def addRow (mint : String) (sign : Int) (rows : JsMap Nat DeltaRow) (b : TokenBalance) :
    JsMap Nat DeltaRow :=
  if b.mint ≠ mint then rows
  else match b.owner, b.amount with
  | some owner, some amount =>
    if owner = "" then rows
    else
      let prior := ((rows.get b.accountIndex).map DeltaRow.delta).getD 0
      rows.set b.accountIndex ⟨owner, prior + sign * amount⟩
  | _, _ => rows

def deltaRows (mint : String) (resp : RpcTransaction) : JsMap Nat DeltaRow :=
  resp.preTokenBalances.foldl (addRow mint (-1)) (resp.postTokenBalances.foldl (addRow mint 1) [])

/-- The loop over the table; `none` where a second account lost. -/
def readLegs : List DeltaRow → Option String → List TransferLeg →
    Option (Option String × List TransferLeg)
  | [], payer, transfers => some (payer, transfers)
  | row :: rows, payer, transfers =>
    if row.delta < 0 then
      if payer.isSome then none else readLegs rows (some row.owner) transfers
    else if 0 < row.delta then readLegs rows payer (transfers ++ [⟨row.owner, row.delta⟩])
    else readLegs rows payer transfers

def getTransaction (mint : String) : RpcAnswer → TxVerificationResult
  | .threw reason => .rpc_error reason
  | .resolved none => .not_found
  | .resolved (some resp) =>
    if resp.failed then .not_found
    else match readLegs ((deltaRows mint resp).map Prod.snd) none [] with
    | some (some payer, transfers) =>
      if transfers = [] then .not_found else .confirmed payer transfers resp.slot
    | _ => .not_found

/-! ## §3. The loop -/

/-- The accounts that lost. -/
def losers (rows : List DeltaRow) : List DeltaRow := rows.filter fun row => row.delta < 0

def gains (rows : List DeltaRow) : List TransferLeg :=
  (rows.filter fun row => 0 < row.delta).map fun row => ⟨row.owner, row.delta⟩

theorem readLegs_of_payer (rows : List DeltaRow) (payer : String) (transfers : List TransferLeg) :
    readLegs rows (some payer) transfers
      = if losers rows = [] then some (some payer, transfers ++ gains rows) else none := by
  induction rows generalizing transfers with
  | nil =>
    show some (some payer, transfers) = some (some payer, transfers ++ [])
    rw [append_nil]
  | cons row rows ih =>
    unfold readLegs losers gains
    by_cases hneg : row.delta < 0
    · rw [if_pos hneg, filter_cons_of_pos (by simpa using hneg)]
      rfl
    · rw [if_neg hneg, filter_cons_of_neg (by simpa using hneg)]
      by_cases hpos : 0 < row.delta
      · rw [if_pos hpos, ih, filter_cons_of_pos (by simpa using hpos), map_cons, append_assoc]
        rfl
      · rw [if_neg hpos, ih, filter_cons_of_neg (by simpa using hpos)]
        rfl

/-- **One account pays, and each that gained is paid.** -/
theorem readLegs_eq (rows : List DeltaRow) (transfers : List TransferLeg) :
    readLegs rows none transfers = match losers rows with
      | [] => some (none, transfers ++ gains rows)
      | [row] => some (some row.owner, transfers ++ gains rows)
      | _ => none := by
  induction rows generalizing transfers with
  | nil =>
    show some (none, transfers) = some (none, transfers ++ [])
    rw [append_nil]
  | cons row rows ih =>
    unfold readLegs
    by_cases hneg : row.delta < 0
    · have hlosers : losers (row :: rows) = row :: losers rows :=
        filter_cons_of_pos (by simpa using hneg)
      have hgains : gains (row :: rows) = gains rows := by
        unfold gains
        rw [filter_cons_of_neg (by simp; omega)]
      rw [if_pos hneg, hlosers, hgains, if_neg (by simp), readLegs_of_payer]
      cases losers rows <;> simp
    · have hlosers : losers (row :: rows) = losers rows :=
        filter_cons_of_neg (by simpa using hneg)
      rw [if_neg hneg, hlosers]
      by_cases hpos : 0 < row.delta
      · have hgains : gains (row :: rows) = ⟨row.owner, row.delta⟩ :: gains rows := by
          unfold gains
          rw [filter_cons_of_pos (by simpa using hpos), map_cons]
        rw [if_pos hpos, ih, hgains]
        simp
      · have hgains : gains (row :: rows) = gains rows := by
          unfold gains
          rw [filter_cons_of_neg (by simpa using hpos)]
        rw [if_neg hpos, ih, hgains]

end Motebit.Wallet
