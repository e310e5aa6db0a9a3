/-
  Motebit.Wallet.Confirm — SENDING, and asking afterwards whether a failed send landed.

  Translated from `SolanaWalletRail.send` and `confirmSend` in `packages/wallet-solana/src/rail.ts`
  and from `sendUsdc`, `signSendConfirm` and `findOutgoingTransfer` in `web3js-adapter.ts`.  Every
  call of the RPC is a question with an arbitrary answer.

  The store keeps a history beside the wallet: each send with the message it signed and how it
  ended, what the chain holds, and what each confirmation answered on which reads.
-/

import Motebit.Lib.Part
import Motebit.Wallet.Transaction

namespace Motebit.Wallet

open Motebit.Lib

/-! ## §1. Data -/

/-- The message of a `send`: one transfer, after the recipient's account where it is missing. -/
structure Message where
  toAddress : String
  microAmount : Int
  createsAccount : Bool
  blockhash : String
  deriving DecidableEq

inductive Signature
  | own (m : Message)
  | other (id : String)
  deriving DecidableEq

/-- A thrown error; `blockHeightExceeded` is whether its text says so. -/
structure Thrown where
  message : String
  blockHeightExceeded : Bool
  deriving DecidableEq

inductive SendError
  | insufficientUsdcBalance (balance required : Int)
  | invalidSolanaAddress (address : String)
  | thrown (err : Thrown)
  deriving DecidableEq

structure SendUsdcResult where
  signature : Signature
  slot : Nat
  confirmed : Bool
  deriving DecidableEq

/-- A row of `getSignaturesForAddress`; `err` where the transaction failed. -/
structure SignatureInfo where
  signature : Signature
  err : Bool
  blockTime : Option Int
  deriving DecidableEq

inductive OutgoingTransferLookup
  | found (signature : Signature)
  | ambiguous (signatures : List Signature)
  | not_found
  | rpc_error (reason : String)
  deriving DecidableEq

inductive SendConfirmation
  | landed (signature : Signature)
  | absent
  | pending (recheckAtMs : Int)
  | unknown (reason : String)
  deriving DecidableEq

structure ConfirmSendQuery where
  toAddress : String
  microAmount : Int
  sentAtMs : Int
  failedAtMs : Int
  error : SendError
  excludeSignatures : List Signature

def OUTGOING_LOOKUP_PAGE : Nat := 50
def OUTGOING_LOOKUP_SKEW_MS : Int := 30000
def SOLANA_TX_LANDING_HORIZON_MS : Int := 150000

/-- What the wallet is set up with; `isPublicKey` is what `new PublicKey` accepts. -/
structure WalletConfig where
  ownAddress : String
  mint : String
  autoGas : Bool
  isPublicKey : String → Bool

/-! ## §2. Questions -/

inductive RpcCall
  | ensureGas
  | getUsdcBalance
  | getAccount (address : String)
  | getLatestBlockhash
  | sendRawTransaction (m : Message)
  | confirmSignatureByPolling (m : Message)
  | awaitDecisiveOutcome (m : Message)
  | getSignaturesForAddress
  | getTransaction (signature : Signature)

inductive Polled
  | confirmed (slot : Nat)
  | failed (slot : Nat)
  | expired
  | pending (err : Thrown)

inductive Outcome
  | landed (slot : Nat)
  | failed
  | undecided

/-- An account is answered as whether it exists. -/
abbrev RpcResp : RpcCall → Type
  | .ensureGas => Except Thrown Unit
  | .getUsdcBalance => Except Thrown Int
  | .getAccount _ => Except Thrown Bool
  | .getLatestBlockhash => Except Thrown String
  | .sendRawTransaction _ => Except Thrown Unit
  | .confirmSignatureByPolling _ => Polled
  | .awaitDecisiveOutcome _ => Outcome
  | .getSignaturesForAddress => Except String (List SignatureInfo)
  | .getTransaction _ => RpcAnswer

/-! ## §3. The store -/

structure Send where
  toAddress : String
  microAmount : Int
  sentAtMs : Int
  signed : Option Message := none
  failed : Option (Int × SendError) := none

/-- A transaction on chain: its block time in seconds, when it landed, and what the RPC tells of
    it. -/
structure Landed where
  signature : Signature
  blockTime : Int
  landedAtMs : Int
  tx : RpcTransaction

/-- What a confirmation of a send answered: when the signatures were listed, and which reads came
    back with nothing. -/
structure Confirmation where
  send : Nat
  excludeSignatures : List Signature
  verdict : SendConfirmation
  listedAtMs : Option Int
  blank : List Signature

/-- `listedAtMs` and `blank` are kept for each call that is still asking. -/
structure Books where
  clock : Int
  sends : Nat → Option Send
  chain : List Landed
  listedAtMs : Nat → Option Int
  blank : Nat → List Signature
  confirmations : List Confirmation

namespace Books

def setSend (t : Nat) (send : Option Send) (s : Books) : Books :=
  { s with sends := Function.update s.sends t send }

def begins (t : Nat) (toAddress : String) (microAmount : Int) (s : Books) : Books :=
  s.setSend t (some { toAddress, microAmount, sentAtMs := s.clock })

def signs (t : Nat) (m : Message) (s : Books) : Books :=
  s.setSend t ((s.sends t).map fun send => { send with signed := some m })

def fails (t : Nat) (err : SendError) (s : Books) : Books :=
  s.setSend t ((s.sends t).map fun send => { send with failed := some (s.clock, err) })

def confirms (t i : Nat) (excludeSignatures : List Signature) (verdict : SendConfirmation)
    (s : Books) : Books :=
  { s with confirmations :=
      ⟨i, excludeSignatures, verdict, s.listedAtMs t, s.blank t⟩ :: s.confirmations }

end Books

/-! ## §4. Sending -/

abbrev WalletTask (ε α : Type) := Task Books RpcCall RpcResp ε α

def orThrow {α : Type} : Except Thrown α → WalletTask SendError α
  | .ok a => pure a
  | .error err => throw (.thrown err)

def expiredError : Thrown := ⟨"Signature has expired: block height exceeded.", true⟩

/-- The broadcast, and the wait for what becomes of it. -/
def broadcast (m : Message) : WalletTask Thrown SendUsdcResult := do
  match ← Task.ask (RpcCall.sendRawTransaction m) with
  | .error err => throw err
  | .ok () =>
    match ← Task.ask (RpcCall.confirmSignatureByPolling m) with
    | .confirmed slot => pure ⟨.own m, slot, true⟩
    | .failed slot => pure ⟨.own m, slot, false⟩
    | .expired => throw expiredError
    | .pending err => throw err

/-- After an expiry the chain is asked about the one transaction that was broadcast. -/
def afterExpiry (m : Message) (err : Thrown) : WalletTask SendError SendUsdcResult :=
  if err.blockHeightExceeded then do
    match ← Task.ask (RpcCall.awaitDecisiveOutcome m) with
    | .landed slot => pure ⟨.own m, slot, true⟩
    | .failed => pure ⟨.own m, 0, false⟩
    | .undecided => throw (.thrown err)
  else
    throw (.thrown err)

def signSendConfirm (t : Nat) (toAddress : String) (microAmount : Int) (createsAccount : Bool) :
    WalletTask SendError SendUsdcResult := do
  let blockhash ← Task.ask RpcCall.getLatestBlockhash
  let blockhash ← orThrow blockhash
  let m : Message := ⟨toAddress, microAmount, createsAccount, blockhash⟩
  Task.modify (Books.signs t m)
  Task.catching (broadcast m) (afterExpiry m)

def sendUsdc (cfg : WalletConfig) (t : Nat) (toAddress : String) (microAmount : Int) :
    WalletTask SendError SendUsdcResult := do
  if cfg.isPublicKey toAddress then
    let balance ← Task.ask RpcCall.getUsdcBalance
    let balance ← orThrow balance
    if balance < microAmount then
      throw (.insufficientUsdcBalance balance microAmount)
    else
      let destExists ← Task.ask (RpcCall.getAccount toAddress)
      let destExists ← orThrow destExists
      signSendConfirm t toAddress microAmount (!destExists)
  else
    throw (.invalidSolanaAddress toAddress)

def send (cfg : WalletConfig) (t : Nat) (toAddress : String) (microAmount : Int) :
    WalletTask SendError SendUsdcResult := do
  if cfg.autoGas then
    let gas ← Task.ask RpcCall.ensureGas
    let _ ← orThrow gas
    sendUsdc cfg t toAddress microAmount
  else
    sendUsdc cfg t toAddress microAmount

/-! ## §5. Asking afterwards -/

def sinceSec (sinceMs : Int) : Int := (sinceMs - OUTGOING_LOOKUP_SKEW_MS) / 1000

/-- A full page that may not reach back to the send. -/
def notCovered (since : Int) (sigs : List SignatureInfo) : Bool :=
  decide (OUTGOING_LOOKUP_PAGE ≤ sigs.length) &&
    match sigs.getLast?.bind SignatureInfo.blockTime with
    | none => true
    | some oldest => decide (since ≤ oldest)

/-- A listed signature that is not read. -/
def skipped (query : ConfirmSendQuery) (info : SignatureInfo) : Bool :=
  info.err ||
    (match info.blockTime with
      | some blockTime => decide (blockTime < sinceSec query.sentAtMs)
      | none => false) ||
    decide (info.signature ∈ query.excludeSignatures)

/-- A transaction of this wallet's with an exact leg to the recipient. -/
def matchesQuery (cfg : WalletConfig) (query : ConfirmSendQuery) : TxVerificationResult → Bool
  | .confirmed payer transfers _ => decide (payer = cfg.ownAddress) &&
    transfers.any fun l => l.to_owner = query.toAddress && l.amountMicro = query.microAmount
  | _ => false

/-- What the matches say. -/
def lookupOf : List Signature → OutgoingTransferLookup
  | [] => .not_found
  | [signature] => .found signature
  | signatures => .ambiguous signatures

/-- The loop over a page. -/
def readPage (cfg : WalletConfig) (query : ConfirmSendQuery) :
    List SignatureInfo → List Signature → WalletTask Empty OutgoingTransferLookup
  | [], signatures => pure (lookupOf signatures)
  | info :: rest, signatures =>
    if skipped query info then
      readPage cfg query rest signatures
    else do
      match getTransaction cfg.mint (← Task.ask (RpcCall.getTransaction info.signature)) with
      | .rpc_error reason => pure (.rpc_error reason)
      | tx =>
        readPage cfg query rest
          (if matchesQuery cfg query tx then signatures ++ [info.signature] else signatures)

def findOutgoingTransfer (cfg : WalletConfig) (query : ConfirmSendQuery) :
    WalletTask Empty OutgoingTransferLookup := do
  match ← Task.ask RpcCall.getSignaturesForAddress with
  | .error reason => pure (.rpc_error reason)
  | .ok sigs =>
    if notCovered (sinceSec query.sentAtMs) sigs then
      pure (.rpc_error
        s!"{OUTGOING_LOOKUP_PAGE}+ transactions since the send — lookup window not covered")
    else
      readPage cfg query sigs []

def beforeSigning : SendError → Bool
  | .insufficientUsdcBalance .. => true
  | .invalidSolanaAddress _ => true
  | .thrown _ => false

def confirmSend (cfg : WalletConfig) (query : ConfirmSendQuery) :
    WalletTask Empty SendConfirmation := do
  if beforeSigning query.error then
    pure .absent
  else
    match ← findOutgoingTransfer cfg query with
    | .found signature => pure (.landed signature)
    | .ambiguous signatures =>
      pure (.unknown s!"{signatures.length} matching transfers since the send")
    | .rpc_error reason => pure (.unknown reason)
    | .not_found =>
      let settledAt := query.failedAtMs + SOLANA_TX_LANDING_HORIZON_MS
      let now ← Task.read Books.clock
      if settledAt ≤ now then
        pure .absent
      else
        pure (.pending settledAt)

/-! ## §6. The callers -/

/-- A payer sends. -/
def sendCall (cfg : WalletConfig) (t : Nat) (toAddress : String) (microAmount : Int) :
    WalletTask Empty Unit := do
  Task.modify (Books.begins t toAddress microAmount)
  Task.catching (do let _ ← send cfg t toAddress microAmount) fun err =>
    Task.modify (Books.fails t err)

/-- A payer asks about its failed send `i`; what it read is kept with the answer. -/
def confirmCall (cfg : WalletConfig) (t i : Nat) (excludeSignatures : List Signature) :
    WalletTask Empty Unit := do
  match ← Task.read fun s : Books => (s.sends i).bind fun send => send.failed.map (send, ·) with
  | none => pure ()
  | some (send, failedAtMs, error) =>
    let verdict ← confirmSend cfg
      ⟨send.toAddress, send.microAmount, send.sentAtMs, failedAtMs, error, excludeSignatures⟩
    Task.modify (Books.confirms t i excludeSignatures verdict)

end Motebit.Wallet
