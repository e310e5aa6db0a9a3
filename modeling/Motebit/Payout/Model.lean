/-
  Motebit.Payout.Model — DURABLE-NONCE WITHDRAWAL PAYOUTS (Path 0).

  Translated from `services/relay/src/withdrawal-chain-payouts.ts`, the Path 0 part of
  `budget.ts` and the durable-nonce part of `packages/wallet-solana/src/web3js-adapter.ts`.

  A stretch of code without an `await` is one atomic step; every RPC call and every signature
  is an awaited request, and a call that times out is answered with an error, whatever the
  network does with it later.  `reservedNonces`, `payoutsInFlight` and `squatThisTick` are the
  process's memory, which a process death empties.

  Signing is deterministic: `sign tx` is the signature of `tx`.  The ghost fields say who
  claimed a withdrawal or reserved a nonce value, what was given to the network for which
  withdrawal, and for which nonce `requestKill` answered `consumed`.
-/

import Motebit.Lib.Task
import Motebit.Accounts.Ledger
import Motebit.Payout.Chain

namespace Motebit.Payout

open Motebit.Lib Function
open Motebit.Lib.Task (txn act ask andFinally forEach)
open Motebit.Accounts

/-! ## §1. The store -/

/-- One row of `relay_withdrawal_payout_attempts`; `finalStatus` is `some true` for `ok`. -/
structure Attempt where
  withdrawalId : String
  signature : String
  kind : TxKind
  nonceAccount : Option String
  nonceValue : Option String
  nonceObservedSlot : Option Nat
  recordedAt : Nat
  finalStatus : Option Bool
  finalSlot : Option Nat
  deriving DecidableEq

structure Lane where
  account : String
  nonceValue : String
  observedSlot : Option Nat
  deriving DecidableEq

/-- `NonceLaneState`; `squatted` names the address of a lane that can never be used. -/
inductive LaneState
  | ready (lane : Lane)
  | unavailable (reason : String) (squatted : Option String)
  deriving DecidableEq

/-- The database, the process's memory, the chain, and the ghosts. -/
structure Store where
  ledger : Ledger
  frozen : Bool
  chainClaims : List String
  attempts : List Attempt
  attemptsLocked : Bool
  queue : List (String × Nat)
  clock : Nat
  lane : String
  reservedNonces : List String
  payoutsInFlight : List String
  squatThisTick : Option (String × String)
  chain : Chain
  owner : String → Option Nat
  reserver : String → Option Nat
  sent : List (String × Tx)
  consumed : List (String × String)

/-- Empty tables, a chain on which nothing of ours has landed. -/
def Store.init (now : Nat) (lane : String) (values : String → Option String) : Store where
  ledger := Ledger.empty
  frozen := false
  chainClaims := []
  attempts := []
  attemptsLocked := false
  queue := []
  clock := now
  lane := lane
  reservedNonces := []
  payoutsInFlight := []
  squatThisTick := none
  chain := ⟨0, fun a _ => values a, []⟩
  owner := fun _ => none
  reserver := fun _ => none
  sent := []
  consumed := []

/-- What a statement or a call may throw; a freeze refusal is caught where it arises. -/
structure Err where
  message : String
  deriving DecidableEq

def Store.withdrawal? (s : Store) (id : String) : Option Withdrawal :=
  s.ledger.withdrawals.find? fun w => w.withdrawalId == id

/-! ## §2. Requests -/

inductive SignatureStatus
  | finalized (ok : Bool) (slot : Nat)
  | notFinalized
  | absent
  | rpcError (detail : String)
  deriving DecidableEq

inductive Req
  | prepareNonceLane (minContextSlot : Option Nat)
  | readNonceAccount (account : String) (minContextSlot : Nat)
  | usdcBalance
  | sendRaw (tx : Tx)
  /-- Whichever of these outstanding reads is answered next. -/
  | finalizedStatus (signatures : List String)
  | awaitFinalized (signature : String)
  | signReceipt

def Resp : Req → Type
  | .prepareNonceLane _ => LaneState
  | .readNonceAccount .. => LaneState
  | .usdcBalance => Option Int
  | .sendRaw _ => Option String
  | .finalizedStatus _ => Nat × SignatureStatus
  | .awaitFinalized _ => SignatureStatus
  | .signReceipt => Bool

abbrev PayoutTask (α : Type) := Task Store Req Resp Err α

def prepareNonceLane (minContextSlot : Option Nat) : PayoutTask LaneState :=
  ask (Req.prepareNonceLane minContextSlot)

def readNonceAccount (account : String) (minContextSlot : Nat) : PayoutTask LaneState :=
  ask (Req.readNonceAccount account minContextSlot)

/-- `getUsdcBalance`; `none` when the call fails. -/
def getUsdcBalance : PayoutTask (Option Int) := ask Req.usdcBalance

/-- `sendRawTransaction`; `some` error when it fails or times out. -/
def sendRawTransaction (tx : Tx) : PayoutTask (Option String) := ask (Req.sendRaw tx)

/-- The next answer among the outstanding `getFinalizedStatus` calls. -/
def nextStatus (signatures : List String) : PayoutTask (Nat × SignatureStatus) :=
  ask (Req.finalizedStatus signatures)

/-- The bounded wait of `awaitFinalized`; its last status is only logged. -/
def awaitFinalized (signature : String) : PayoutTask SignatureStatus :=
  ask (Req.awaitFinalized signature)

/-- `signCompletion`; `false` when signing throws. -/
def signCompletion : PayoutTask Bool := ask Req.signReceipt

/-! ## §3. The attempts and the queue -/

def Store.getPayoutAttempts (s : Store) (id : String) : List Attempt :=
  (s.attempts.filter fun a => a.withdrawalId == id).mergeSort fun a b =>
    decide (a.recordedAt < b.recordedAt ∨ (a.recordedAt = b.recordedAt ∧ a.signature ≤ b.signature))

def Store.recordFinal (s : Store) (id signature : String) (ok : Bool) (slot : Nat) : Store :=
  let unread := fun a : Attempt =>
    a.withdrawalId == id && a.signature == signature && a.finalStatus.isNone
  let read := fun a : Attempt => { a with finalStatus := some ok, finalSlot := some slot }
  { s with attempts := updateWhere unread read s.attempts }

def Store.isNonceValueUsed (s : Store) (lane : Lane) : Bool :=
  s.attempts.any fun a =>
    a.nonceAccount == some lane.account && a.nonceValue == some lane.nonceValue

def Store.enqueuePayout (s : Store) (id : String) : Store :=
  { s with queue :=
    if s.queue.any fun e => e.1 == id then s.queue else s.queue ++ [(id, s.clock)] }

def Store.dequeuePayout (s : Store) (id : String) : Store :=
  { s with queue := s.queue.filter fun e => e.1 != id }

def Store.queuedPayouts (s : Store) : List String :=
  ((s.queue.mergeSort fun a b => decide (a.2 < b.2 ∨ (a.2 = b.2 ∧ a.1 ≤ b.1))).map Prod.fst).take 50

def Store.laneReadFloor (s : Store) : Option Nat :=
  (s.attempts.filterMap Attempt.nonceObservedSlot).max?

def Store.earlierNonceValues (s : Store) (account : String) (before : Nat) : List String :=
  (s.attempts.filter fun a =>
    a.nonceAccount == some account && decide (a.recordedAt < before)).filterMap
    Attempt.nonceValue

section

variable (sign : Tx → String)

/-- The row `recordDurableAttempt` inserts. -/
def newAttempt (id : String) (tx : Tx) (observedSlot : Option Nat) (recordedAt : Nat) :
    Attempt where
  withdrawalId := id
  signature := sign tx
  kind := tx.kind
  nonceAccount := some tx.account
  nonceValue := some tx.nonce
  nonceObservedSlot := observedSlot
  recordedAt := recordedAt
  finalStatus := none
  finalSlot := none

/-- `recordDurableAttempt`, the adapter's `beforeBroadcast`; the same signature twice is one
    row.  `attemptsLocked` stands for a database that refuses the write. -/
def Store.recordDurableAttempt (s : Store) (id : String) (tx : Tx)
    (observedSlot : Option Nat) : Except Err (Unit × Store) :=
  if s.attemptsLocked then .error ⟨"SQLITE_BUSY"⟩
  else if s.attempts.any fun a => a.withdrawalId == id && a.signature == sign tx then .ok ((), s)
  else .ok ((), { s with attempts := s.attempts ++ [newAttempt sign id tx observedSlot s.clock] })

/-- Record, then give the transaction to the network. -/
def broadcast (id : String) (tx : Tx) (observedSlot : Option Nat) :
    PayoutTask (Option String) := do
  txn fun s => s.recordDurableAttempt sign id tx observedSlot
  act fun s => ((), { s with sent := (id, tx) :: s.sent })
  sendRawTransaction tx

def sendUsdcDurable (isPublicKey : String → Bool) (id destination : String) (amount : Int)
    (lane : Lane) : PayoutTask Unit := do
  if !isPublicKey destination then throw ⟨"invalid Solana address: " ++ destination⟩
  else
    let balance ← getUsdcBalance
    match balance with
    | none => throw ⟨"getUsdcBalance failed"⟩
    | some available =>
      if available < amount then throw ⟨"insufficient USDC balance"⟩
      else
        let tx : Tx := ⟨.payout, lane.account, lane.nonceValue, destination, amount⟩
        let refused ← broadcast sign id tx lane.observedSlot
        match refused with
        | some _ => pure ()
        | none =>
          let _ ← awaitFinalized (sign tx)
          pure ()

/-! ## §4. The verdict -/

/-- What proves a payout unpaid. -/
inductive NotPaidBy
  | noBroadcast | payoutFailed | killed
  deriving DecidableEq

inductive ChainVerdict
  | paid (signature : String) (slot : Nat)
  | notPaid (by_ : NotPaidBy)
  | undecided (rpcError : Bool) (signature : String) (killable : Bool)
  deriving DecidableEq

/-- The reads of `readChainVerdict` as `mapBounded` runs them: up to four outstanding, the
    next one started as each is answered.  `all` is the local copy of the attempts, `n` the
    number of reads left. -/
def readStatuses (id : String) :
    Nat → List Attempt → List Attempt → List Attempt → Bool → PayoutTask (List Attempt × Bool)
  | 0, _, _, all, rpcError => pure (all, rpcError)
  | n + 1, outstanding, waiting, all, rpcError => do
    let (i, status) ← nextStatus (outstanding.map Attempt.signature)
    match outstanding[i]? with
    | none => pure (all, rpcError)
    | some a =>
      let outstanding' := outstanding.eraseIdx i ++ waiting.take 1
      let waiting' := waiting.drop 1
      match status with
      | .finalized ok slot =>
        act fun s => ((), s.recordFinal id a.signature ok slot)
        readStatuses id n outstanding' waiting'
          (updateWhere (fun b => b.signature == a.signature)
            (fun b => { b with finalStatus := some ok, finalSlot := some slot }) all) rpcError
      | .rpcError _ => readStatuses id n outstanding' waiting' all true
      | .notFinalized => readStatuses id n outstanding' waiting' all rpcError
      | .absent => readStatuses id n outstanding' waiting' all rpcError

def durablePayout? (attempts : List Attempt) : Option Attempt :=
  (attempts.filter fun a => a.kind == .payout).find? fun a =>
    a.nonceValue.isSome && a.nonceAccount.isSome

/-- A finalized kill over the same nonce value. -/
def killedBy? (attempts : List Attempt) (durable : Attempt) : Option Attempt :=
  (attempts.filter fun a => a.kind == .kill).find? fun k =>
    k.finalStatus.isSome && k.nonceAccount == durable.nonceAccount &&
      k.nonceValue == durable.nonceValue

/-- The verdict over attempts that are not empty: positive evidence only. -/
def verdictOf (attempts : List Attempt) (rpcError : Bool) : ChainVerdict :=
  let payouts := attempts.filter fun a => a.kind == .payout
  match payouts.find? fun a => a.finalStatus == some true with
  | some landed => .paid landed.signature (landed.finalSlot.getD 0)
  | none =>
    let durable := durablePayout? attempts
    let undecided := ChainVerdict.undecided rpcError
      ((durable.or (payouts.head?.or attempts.head?)).map Attempt.signature |>.getD "")
      durable.isSome
    match durable with
    | some d =>
      if d.finalStatus == some false then .notPaid .payoutFailed
      else if (killedBy? attempts d).isSome then .notPaid .killed
      else undecided
    | none =>
      -- blockhash payouts of an earlier build: each found finalized and failed
      if !payouts.isEmpty && payouts.all fun a => a.finalStatus == some false then
        .notPaid .payoutFailed
      else undecided

def readChainVerdict (id : String) (attempts : List Attempt) : PayoutTask ChainVerdict :=
  if attempts.isEmpty then pure (.notPaid .noBroadcast)
  else do
    let unread := attempts.filter fun a => a.finalStatus.isNone
    let (read, rpcError) ← readStatuses id unread.length (unread.take 4) (unread.drop 4)
      attempts false
    pure (verdictOf read rpcError)

/-! ## §5. The kill -/

inductive KillRequest
  | sent | notSent (detail : String) | consumed | stale (detail : String)
  | laneUnavailable (detail : String) | notKillable
  deriving DecidableEq

/-- What the read of the payout's nonce account shows; `none`: the kill goes out. -/
def Store.judgeLane (s : Store) (payout : Attempt) (account value : String) (observed : Nat) :
    LaneState → Option KillRequest × Store
  | .unavailable reason _ => (some (.laneUnavailable reason), s)
  | .ready lane =>
    match lane.observedSlot with
    | none => (some (.stale ("read from slot ? < " ++ toString observed)), s)
    | some slot =>
      if slot < observed then
        (some (.stale ("read from slot " ++ toString slot ++ " < " ++ toString observed)), s)
      else if lane.nonceValue ≠ value then
        -- a value recorded earlier on this account is a stale bank's, never proof
        if (s.earlierNonceValues account payout.recordedAt).contains lane.nonceValue then
          (some (.stale "the read shows an older recorded nonce value"), s)
        else (some .consumed, { s with consumed := (account, value) :: s.consumed })
      else (none, s)

def requestKill (id : String) : PayoutTask KillRequest := do
  let payout ← act fun s => (durablePayout? (s.getPayoutAttempts id), s)
  match payout with
  | none => pure .notKillable
  | some p =>
    match p.nonceAccount, p.nonceValue, p.nonceObservedSlot with
    | some _, some _, none => pure (.stale "the payout was recorded without its observed slot")
    | some account, some value, some observed =>
      let state ← readNonceAccount account observed
      let judged ← act fun s => s.judgeLane p account value observed state
      match judged with
      | some answer => pure answer
      | none =>
        tryCatch
          (do
            let refused ← broadcast sign id ⟨.kill, account, value, "", 0⟩ (some observed)
            match refused with
            | none => pure .sent
            | some detail => pure (.notSent detail))
          fun e => pure (.notSent e.message)
    | _, _, _ => pure .notKillable

/-! ## §6. Deciding -/

def notPaidText (by_ : NotPaidBy) : String :=
  "solana payout not paid — " ++ (match by_ with
    | .noBroadcast => "no transaction of this payout was ever broadcast"
    | .payoutFailed => "the payout landed and failed on chain (finalized): no USDC moved"
    | .killed => "the kill transaction consumed the payout's durable nonce (finalized): " ++
        "the payout can never land")

/-- `noteWithdrawalPayoutUnresolved`. -/
def Store.note (s : Store) (id note : String) : Store :=
  { s with ledger := (s.ledger.updateWithdrawal id Ledger.noteOk (Ledger.noteSet note)).2 }

/-- `refundFromChain`; `true` is `"frozen"`: the refund was refused and only noted. -/
def Store.refundFromChain (s : Store) (id : String) (by_ : NotPaidBy) : Except Err (Bool × Store) :=
  match s.ledger.failWithdrawalAndRefund id (notPaidText by_ ++ "; amount returned to balance")
      .processing s.clock with
  | .error e => .error ⟨e⟩
  | .ok (refunded, L) =>
    if refunded.isSome && s.frozen then
      .ok (true, s.note id ("refund refused by emergency freeze: " ++ notPaidText by_ ++
        "; after the freeze lifts it is refunded from the same finalized facts " ++
        "(or reconcile as not_paid)"))
    else .ok (false, { s with ledger := L })

def completeFromChain (id signature : String) : PayoutTask Unit := do
  let completedAt ← act fun s => (s.clock, s)
  let signed ← signCompletion
  if signed then
    act fun s => ((), { s with ledger := (s.ledger.updateWithdrawal id (Ledger.fromOk .processing)
      (Ledger.completionSet signature completedAt)).2 })
  else throw ⟨"signing the completion failed"⟩

/-- What `resolveWithdrawal` reads before its first await: the row to decide, and its attempts.
    The payout's own send path (`inline`) decides although the payout is in flight here. -/
def Store.toDecide (s : Store) (id : String) (inline : Bool) : Option (Withdrawal × List Attempt) :=
  match s.withdrawal? id with
  | none => none
  | some w =>
    if w.status ≠ .processing then none
    else if !s.chainClaims.contains id then none
    else if !inline && s.payoutsInFlight.contains id then none
    else some (w, s.getPayoutAttempts id)

/-- The note on an inline payout that is not final yet. -/
def undecidedText (signature : String) (rpcError : Bool) : String :=
  "payout " ++ signature ++ " not finalized yet (" ++ (if rpcError then "rpc_error" else "pending")
    ++ "); the relay decides it from finalized chain state — a finalized payout completes it, " ++
    "a finalized kill of its durable nonce refunds it (#990)"

/-- `resolveWithdrawal`; `true` is `"frozen"`. -/
def resolveWithdrawal (killAfterMs : Nat) (id : String) (inline : Bool) : PayoutTask Bool := do
  let decide? ← act fun s => (s.toDecide id inline, s)
  match decide? with
  | none => pure false
  | some (w, attempts) =>
    let verdict ← readChainVerdict id attempts
    match verdict with
    | .paid signature _ =>
      completeFromChain id signature
      pure false
    | .notPaid by_ => txn fun s => s.refundFromChain id by_
    | .undecided rpcError signature killable =>
      if inline then
        act fun s => (false, s.note id (undecidedText signature rpcError))
      else
        let now ← act fun s => (s.clock, s)
        if killable && decide (w.claimedAt.getD w.requestedAt + killAfterMs ≤ now) then
          let _ ← requestKill sign id
          pure false
        else pure false

/-! ## §7. Firing -/

/-- What one attempt to claim the lane came to. -/
inductive Claim
  | refused | frozen | won (w : Withdrawal) (lane : Lane)
  deriving DecidableEq

/-- The stretch of `firePathZero` after the lane read: busy check, claim and reservation, with
    no await between them. -/
def Store.claimLane (s : Store) (t : Nat) (w : Withdrawal) (id : String) :
    LaneState → Except Err (Claim × Store)
  | .unavailable reason (some address) =>
    .ok (.refused, { s.enqueuePayout id with squatThisTick := some (address, reason) })
  | .unavailable _ none => .ok (.refused, s.enqueuePayout id)
  | .ready lane =>
    if s.reservedNonces.contains lane.nonceValue || s.isNonceValueUsed lane then
      .ok (.refused, s.enqueuePayout id)
    else
      match s.ledger.updateWithdrawal id Ledger.claimOk (Ledger.claimSet s.clock none) with
      | (false, _) => .ok (.refused, s.dequeuePayout id)
      | (true, L) =>
        if s.frozen then .ok (.frozen, s)
        else if s.chainClaims.contains id then
          .error ⟨"UNIQUE constraint failed: relay_withdrawal_chain_claims"⟩
        else .ok (.won w lane, { s.dequeuePayout id with
          ledger := L
          chainClaims := id :: s.chainClaims
          reservedNonces := lane.nonceValue :: s.reservedNonces
          payoutsInFlight := id :: s.payoutsInFlight
          owner := update s.owner id (some t)
          reserver := update s.reserver lane.nonceValue (some t) })

def claimPathZero (t : Nat) (id : String) : PayoutTask Claim := do
  let row ← act fun s =>
    match s.withdrawal? id with
    | some w => if w.status = .pending then (some w, s) else (none, s.dequeuePayout id)
    | none => (none, s.dequeuePayout id)
  match row with
  | none => pure .refused
  | some w =>
    let floor ← act fun s => (s.laneReadFloor, s)
    let state ← prepareNonceLane floor
    txn fun s => s.claimLane t w id state

/-- What a refused freeze looks like to the route. -/
inductive Frozen
  | atClaim | atRefund
  deriving DecidableEq

def releaseNonce (value : String) : PayoutTask Unit :=
  act fun s => ((), { s with reservedNonces := s.reservedNonces.filter fun v => v != value })

def releasePayout (id : String) : PayoutTask Unit :=
  act fun s => ((), { s with payoutsInFlight := s.payoutsInFlight.filter fun i => i != id })

/-- The sending half of `firePathZero`, for a claimed withdrawal. -/
def sendAndResolve (isPublicKey : String → Bool) (killAfterMs : Nat) (id : String)
    (w : Withdrawal) (lane : Lane) : PayoutTask Bool :=
  tryCatch
    (do
      andFinally
        (tryCatch (sendUsdcDurable sign isPublicKey id w.destination w.amount lane)
          fun _ => pure ())
        (releaseNonce lane.nonceValue)
      resolveWithdrawal sign killAfterMs id true)
    fun _ => pure false

def firePathZero (isPublicKey : String → Bool) (killAfterMs : Nat) (t : Nat) (id : String) :
    PayoutTask (Option Frozen) := do
  let claim ← claimPathZero t id
  match claim with
  | .refused => pure none
  | .frozen => pure (some .atClaim)
  | .won w lane =>
    let frozen ← andFinally (sendAndResolve sign isPublicKey killAfterMs id w lane)
      (releasePayout id)
    pure (if frozen then some .atRefund else none)

/-- Fire queued payouts, oldest first, while the lane takes them. -/
def fireQueued (isPublicKey : String → Bool) (killAfterMs : Nat) (t : Nat) :
    List String → PayoutTask Unit
  | [] => pure ()
  | id :: ids => do
    let _ ← firePathZero sign isPublicKey killAfterMs t id
    let row ← act fun s => (s.withdrawal? id, s)
    if row.any fun w => w.status == .pending then pure ()
    else fireQueued isPublicKey killAfterMs t ids

/-- The processing chain-recorded withdrawals, oldest claim first. -/
def Store.processing (s : Store) : List String :=
  (((s.ledger.withdrawals.filter fun w =>
    w.status == .processing && s.chainClaims.contains w.withdrawalId).mergeSort
      fun a b => decide (a.claimedAt.getD 0 ≤ b.claimedAt.getD 0)).map
        Withdrawal.withdrawalId).take 200

/-- `resolvePayoutsOnce`.  The decisions run here one after the other; that `mapBounded` runs
    up to four at once is covered by the world below, where a decision may also run alone. -/
def resolvePayoutsOnce (isPublicKey : String → Bool) (killAfterMs : Nat) (t : Nat) :
    PayoutTask Unit := do
  act fun s => ((), { s with squatThisTick := none })
  let queued ← act fun s => (s.queuedPayouts, s)
  fireQueued sign isPublicKey killAfterMs t queued
  let processing ← act fun s => (s.processing, s)
  forEach (fun id =>
    tryCatch (do let _ ← resolveWithdrawal sign killAfterMs id false; pure ())
      fun _ => pure ()) processing
  let squat ← act fun s => (s.squatThisTick, s)
  match squat with
  | none => pure ()
  | some (address, reason) =>
    throw ⟨"payout nonce lane squatted at " ++ address ++ " (" ++ reason ++
      "); Path 0 payouts are queued until the operator rotates SOLANA_PAYOUT_NONCE_SEED_SUFFIX"⟩

/-! ## §8. The world -/

/-- What happens outside the relay's own payout code. -/
inductive Env (s : Store) : Store → Prop
  /-- A withdrawal is requested: debited and recorded `pending`. -/
  | request (w : NewWithdrawal) (description : Option String) (hpos : 0 < w.amount)
      (hcover : w.amount ≤ s.ledger.books.balance w.motebitId)
      (hfresh : s.ledger.FreshId w.withdrawalId) :
      Env s { s with ledger := ⟨(s.ledger.books.credit w.motebitId (-w.amount) .withdrawal
        (some w.withdrawalId) description none).2, s.ledger.withdrawals ++ [w.record]⟩ }
  /-- Money arrives. -/
  | deposit (motebitId : String) (amount : Int) (hpos : 0 < amount) :
      Env s { s with ledger := { s.ledger with
        books := (s.ledger.books.credit motebitId amount .deposit none none none).2 } }
  /-- The operator fails a withdrawal that is `pending`. -/
  | operatorFail (id reason : String) (failedAt : Nat) (refunded : Option (String × Int))
      (L : Ledger)
      (hfail : s.ledger.failWithdrawalAndRefund id reason .pending failedAt = .ok (refunded, L)) :
      Env s { s with ledger := L }
  | freeze (frozen : Bool) : Env s { s with frozen := frozen }
  | lock (locked : Bool) : Env s { s with attemptsLocked := locked }
  | clock (now : Nat) : Env s { s with clock := now }
  /-- A block becomes final: of what was sent, what the nonces admit. -/
  | block (txs : List (Tx × Bool)) (next : String → Option String)
      (hblock : s.chain.Block (fun tx => ∃ id, (id, tx) ∈ s.sent) txs next) :
      Env s { s with chain := s.chain.extend txs next }

/-- A nonce read is a value the account really held at a finalized slot not below the floor. -/
def TrueRead (s : Store) (account : String) (floor : Nat) : LaneState → Prop
  | .unavailable .. => True
  | .ready lane => lane.account = account ∧ ∃ k, floor ≤ k ∧ k ≤ s.chain.slot ∧
      s.chain.valueAt account k = some lane.nonceValue ∧
      (lane.observedSlot = none ∨ lane.observedSlot = some k)

/-- A status read is `finalized` only for what is. -/
def TrueStatus (s : Store) (signature : String) : SignatureStatus → Prop
  | .finalized ok slot => ∃ l ∈ s.chain.landed, sign l.tx = signature ∧ l.ok = ok ∧ l.slot = slot
  | _ => True

def Answer (s : Store) : (r : Req) → Resp r → Store → Prop
  | .prepareNonceLane floor, state, s' => s' = s ∧ TrueRead s s.lane (floor.getD 0) state
  | .readNonceAccount account floor, state, s' => s' = s ∧ TrueRead s account floor state
  | .finalizedStatus signatures, (i, status), s' =>
      s' = s ∧ ∀ sig, signatures[i]? = some sig → TrueStatus sign s sig status
  | .usdcBalance, _, s' | .sendRaw _, _, s' | .awaitFinalized _, _, s' | .signReceipt, _, s' =>
      s' = s

/-- Every payout program in its world: any number of them at once, in one process; a death
    empties the memory, and the next life may use another lane. -/
def world (isPublicKey : String → Bool) (killAfterMs : Nat) : World Store Req Resp where
  init s := ∃ now lane values, s = Store.init now lane values
  entry t p :=
    (∃ id, p = (firePathZero sign isPublicKey killAfterMs t id).detach) ∨
    (∃ id, p = (resolveWithdrawal sign killAfterMs id false).detach) ∨
    p = (resolvePayoutsOnce sign isPublicKey killAfterMs t).detach
  answer := Answer sign
  env := Env
  crash s s' := ∃ now lane, s' = { s with
    clock := now, lane := lane, reservedNonces := [], payoutsInFlight := [],
    squatThisTick := none }

end

end Motebit.Payout
