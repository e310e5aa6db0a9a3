/-
  Motebit.Deposit.Model — ON-CHAIN DEPOSIT DETECTION.

  Translated from `packages/deposit-detector/src/detector.ts` (one detection cycle) and
  `services/relay/src/deposit-detector.ts` (the SQLite store and the crediting callback).

  A cycle reads the head of its chain, takes the stored cursor as the last block it has seen,
  reads the Transfer logs of the next blocks, credits those that go to an agent's wallet and
  advances the cursor.  Cycles of several chains, and overlapping cycles of one chain, share
  the cursor table, the dedup table and the books.

  The RPC answers are awaited requests; every statement is an atomic step of its own.  The two
  money tables a cycle writes, and the cursor table, carry the freeze triggers, so that a
  write under the freeze throws.  The ghost `scans` lists the cycles that wrote their cursor,
  with the wallet list each of them had read.
-/

import Motebit.Lib.Task
import Motebit.Lib.Hex
import Motebit.Accounts.Books

namespace Motebit.Deposit

open Motebit.Lib Function
open Motebit.Lib.Task (txn act ask)
open Motebit.Accounts

/-! ## §1. Logs and numbers -/

structure TransferLog where
  blockNumber : Nat
  txHash : String
  logIndex : Nat
  fromTopic : String
  toTopic : String
  amountHex : String
  deriving DecidableEq

/-- What the dedup table identifies a log by. -/
def TransferLog.key (log : TransferLog) : String × Nat := (log.txHash, log.logIndex)

structure DecodedTransfer where
  txHash : String
  logIndex : Nat
  fromAddress : String
  toAddress : String
  value : Nat
  blockNumber : Nat
  deriving DecidableEq

/-- What a statement, a parse or a callback throws. -/
structure Err where
  message : String
  deriving DecidableEq

/-- `BigInt(s)` of a `0x`-prefixed hex string; `0x` alone is a SyntaxError. -/
def bigInt (s : String) : Except Err Nat :=
  match s.toList with
  | '0' :: 'x' :: c :: cs =>
    match hexDigits 0 (c :: cs) with
    | some v => .ok v
    | none => .error ⟨"SyntaxError: Cannot convert " ++ s ++ " to a BigInt"⟩
  | _ => .error ⟨"SyntaxError: Cannot convert " ++ s ++ " to a BigInt"⟩

/-- The address in a 32-byte topic: what is left of it after `0x` and 24 hex characters. -/
def topicAddress (topic : String) : String :=
  "0x" ++ toLowerCase (String.ofList (topic.toList.drop 26))

def decodeTransfer (log : TransferLog) : Except Err DecodedTransfer :=
  match bigInt log.amountHex with
  | .ok value => .ok ⟨log.txHash, log.logIndex, topicAddress log.fromTopic,
      topicAddress log.toTopic, value, log.blockNumber⟩
  | .error e => .error e

/-- `Number(v)` of a bigint: the nearest double, of two equally near ones the even one.  A
    256-bit value is far below the largest double. -/
def number (v : Nat) : Nat :=
  -- what is below the 53 leading bits is rounded off
  let ulp := 2 ^ (v.log2 - 52)
  let down := v / ulp
  let rest := v % ulp
  if 2 * rest < ulp ∨ (2 * rest = ulp ∧ down % 2 = 0) then down * ulp else (down + 1) * ulp

def usdcOnchainToMicro : Nat := 1

/-! ## §2. The store -/

structure KnownWallet where
  agentId : String
  address : String
  deriving DecidableEq

structure DepositRow where
  txHash : String
  logIndex : Nat
  agentId : String
  fromAddress : String
  amount : Nat
  chain : String
  blockNumber : Nat
  deriving DecidableEq

def DepositRow.key (row : DepositRow) : String × Nat := (row.txHash, row.logIndex)

/-- One chain as its nodes show it: the head, and the USDC contract's Transfer logs. -/
structure EvmChain where
  head : Nat
  logs : List TransferLog

def EvmChain.range (c : EvmChain) (fromBlock toBlock : Nat) : List TransferLog :=
  c.logs.filter fun l => decide (fromBlock ≤ l.blockNumber) && decide (l.blockNumber ≤ toBlock)

/-- A cycle that wrote its cursor: the blocks it scanned, for the wallets it had read. -/
structure Scan where
  chain : String
  fromBlock : Nat
  toBlock : Nat
  wallets : List KnownWallet
  deriving DecidableEq

/-- The tables, the structured log, the chains, and the ghost. -/
structure Store where
  books : Books
  frozen : Bool
  locked : Bool
  cursors : String → Option Nat
  depositLog : List DepositRow
  wallets : List KnownWallet
  /-- The logs `deposit.credit_failed` was logged for. -/
  warned : List (String × TransferLog)
  chains : String → EvmChain
  scans : List Scan

/-- Nothing detected yet. -/
def Store.init (books : Books) (cursors : String → Option Nat) (wallets : List KnownWallet)
    (chains : String → EvmChain) : Store where
  books := books
  frozen := false
  locked := false
  cursors := cursors
  depositLog := []
  wallets := wallets
  warned := []
  chains := chains
  scans := []

/-- A write of a guarded table throws under the freeze, and any write while another writer
    holds the database. -/
def Store.writable (s : Store) : Except Err Unit :=
  if s.frozen then .error ⟨"EMERGENCY_FROZEN"⟩
  else if s.locked then .error ⟨"SQLITE_BUSY: database is locked"⟩
  else .ok ()

def Store.hasProcessedLog (s : Store) (txHash : String) (logIndex : Nat) : Bool :=
  s.depositLog.any fun row => row.txHash == txHash && row.logIndex == logIndex

def Store.setCursor (s : Store) (scan : Scan) : Except Err (Unit × Store) :=
  match s.writable with
  | .error e => .error e
  | .ok () => .ok ((), { s with
      cursors := update s.cursors scan.chain (some scan.toBlock)
      scans := scan :: s.scans })

/-- The `reference_id` of a deposit's ledger row. -/
def depositReference (txHash : String) (logIndex : Nat) : String :=
  "onchain-" ++ txHash ++ "-" ++ toString logIndex

structure DetectedDeposit where
  motebitId : String
  amountOnchain : Nat
  txHash : String
  logIndex : Nat
  fromAddress : String
  blockNumber : Nat
  chain : String
  deriving DecidableEq

/-- The callback of `buildCreditOnDepositCallback`: the credit and the dedup row in one
    transaction, the dedup table's PRIMARY KEY refusing a second row. -/
def Store.onDeposit (s : Store) (d : DetectedDeposit) : Except Err (Unit × Store) :=
  let microAmount := number d.amountOnchain * usdcOnchainToMicro
  if microAmount ≤ 0 then .ok ((), s)
  else match s.writable with
    | .error e => .error e
    | .ok () =>
      if s.hasProcessedLog d.txHash d.logIndex then
        .error ⟨"UNIQUE constraint failed: relay_deposit_log.tx_hash, relay_deposit_log.log_index"⟩
      else .ok ((), { s with
        books := (s.books.credit d.motebitId microAmount .deposit
          (some (depositReference d.txHash d.logIndex))
          (some ("USDC deposit from " ++ d.fromAddress ++ " on " ++ d.chain ++ " (block " ++
            toString d.blockNumber ++ ")")) none).2
        depositLog := s.depositLog ++ [⟨d.txHash, d.logIndex, d.motebitId, d.fromAddress,
          d.amountOnchain, d.chain, d.blockNumber⟩] })

/-! ## §3. One cycle -/

inductive Req
  | getBlockNumber (chain : String)
  | getTransferLogs (chain : String) (fromBlock toBlock : Nat)

/-- `none` is a call that threw. -/
def Resp : Req → Type
  | .getBlockNumber _ => Option Nat
  | .getTransferLogs .. => Option (List TransferLog)

abbrev DepositTask (α : Type) := Task Store Req Resp Err α

/-- `walletMap.get`: of several wallets with one address the last is the one in the map, and
    an empty id reads as no agent. -/
def agentOf (wallets : List KnownWallet) (toAddress : String) : Option String :=
  match wallets.reverse.find? fun w => toLowerCase w.address == toAddress with
  | some w => if w.agentId = "" then none else some w.agentId
  | none => none

/-- `onDeposit` under its `try`: a failure is logged as `deposit.credit_failed`, and the cycle
    goes on.  The answer is how much `detected` grows. -/
def tryOnDeposit (chain : String) (raw : TransferLog) (log : DecodedTransfer)
    (motebitId : String) : DepositTask Nat :=
  tryCatch
    (do
      txn fun s => s.onDeposit ⟨motebitId, log.value, log.txHash, log.logIndex,
        log.fromAddress, log.blockNumber, chain⟩
      pure 1)
    fun _ => act fun s => (0, { s with warned := (chain, raw) :: s.warned })

/-- One turn of the loop over the logs. -/
def creditLog (chain : String) (wallets : List KnownWallet) (raw : TransferLog) : DepositTask Nat :=
  match decodeTransfer raw with
  | .error e => throw e
  | .ok log =>
    match agentOf wallets log.toAddress with
    | none => pure 0
    | some motebitId => do
      let processed ← act fun s => (s.hasProcessedLog log.txHash log.logIndex, s)
      if processed then pure 0
      else if log.value ≤ 0 then pure 0
      else tryOnDeposit chain raw log motebitId

/-- The loop over the logs. -/
def creditLogs (chain : String) (wallets : List KnownWallet) :
    List TransferLog → Nat → DepositTask Nat
  | [], detected => pure detected
  | raw :: raws, detected => do
    let n ← creditLog chain wallets raw
    creditLogs chain wallets raws (detected + n)

def lastOfRange (safeBlock fromBlock maxBlocksPerCycle : Nat) : Nat :=
  if safeBlock - fromBlock > maxBlocksPerCycle then fromBlock + maxBlocksPerCycle else safeBlock

/-- The scanning half of a cycle, over the blocks after `lastBlock`. -/
def scanRange (chain : String) (lastBlock toBlock : Nat) : DepositTask Nat := do
  let wallets ← act fun s => (s.wallets, s)
  let scan : Scan := ⟨chain, lastBlock + 1, toBlock, wallets⟩
  if wallets.length = 0 then
    txn fun s => s.setCursor scan
    pure 0
  else
    let rawLogs ← ask (Req.getTransferLogs chain (lastBlock + 1) toBlock)
    match rawLogs with
    | none => pure 0
    | some raws =>
      let detected ← creditLogs chain wallets raws 0
      txn fun s => s.setCursor scan
      pure detected

def detectDeposits (confirmations maxBlocksPerCycle : Nat) (chain : String) : DepositTask Nat := do
  let head ← ask (Req.getBlockNumber chain)
  match head with
  | none => pure 0
  | some currentBlock =>
    if currentBlock ≤ confirmations then pure 0
    else
      let safeBlock := currentBlock - confirmations
      let cursor ← act fun s => (s.cursors chain, s)
      -- on a first run the cursor is taken to be at the safe horizon
      let lastBlock := cursor.getD safeBlock
      if lastBlock ≥ safeBlock then pure 0
      else scanRange chain lastBlock (lastOfRange safeBlock (lastBlock + 1) maxBlocksPerCycle)

/-! ## §4. The world -/

/-- A ledger row that is no on-chain deposit's. -/
def NoDeposit (row : AccountTransaction) : Prop :=
  ∀ txHash logIndex, row.referenceId ≠ some (depositReference txHash logIndex)

/-- What happens outside the cycles. -/
inductive Env (confirmations : String → Nat) (s : Store) : Store → Prop
  /-- A chain goes on; what is `confirmations` deep stays. -/
  | grow (chain : String) (next : EvmChain) (hhead : (s.chains chain).head ≤ next.head)
      (hsettled : ∀ fromBlock, next.range fromBlock ((s.chains chain).head - confirmations chain) =
        (s.chains chain).range fromBlock ((s.chains chain).head - confirmations chain)) :
      Env confirmations s { s with chains := update s.chains chain next }
  /-- A wallet is registered; motebit ids are not empty. -/
  | register (w : KnownWallet) (hid : w.agentId ≠ "") :
      Env confirmations s { s with wallets := s.wallets ++ [w] }
  | freeze (frozen : Bool) : Env confirmations s { s with frozen := frozen }
  | lock (locked : Bool) : Env confirmations s { s with locked := locked }
  /-- Other money moves. -/
  | post (books : Books) (rows : List AccountTransaction)
      (hrows : books.transactions = s.books.transactions ++ rows)
      (hother : ∀ row ∈ rows, NoDeposit row) :
      Env confirmations s { s with books := books }

/-- How the nodes answer: a head that may lag, the true logs, or an error. -/
def Answer (s : Store) : (r : Req) → Resp r → Store → Prop
  | .getBlockNumber chain, answer, s' =>
      s' = s ∧ ∀ head, answer = some head → head ≤ (s.chains chain).head
  | .getTransferLogs chain fromBlock toBlock, answer, s' =>
      s' = s ∧ ∀ logs, answer = some logs → logs = (s.chains chain).range fromBlock toBlock

/-- Any number of cycles of any chains over one store, from the cursors `first`. -/
def world (confirmations : String → Nat) (first : String → Option Nat) : World Store Req Resp where
  init s := ∃ books wallets chains, (∀ row ∈ books.transactions, NoDeposit row) ∧
    (∀ w ∈ wallets, KnownWallet.agentId w ≠ "") ∧ s = Store.init books first wallets chains
  entry _ p := ∃ chain maxBlocksPerCycle,
    p = (detectDeposits (confirmations chain) maxBlocksPerCycle chain).detach
  answer := Answer
  env := Env confirmations
  crash s s' := s' = s

end Motebit.Deposit
