/-
  Motebit.X402.Chain — EIP-3009 AUTHORIZATIONS ON CHAIN.

  What the reconciler of `services/relay/src/x402-settlements.ts` reads: block timestamps, the
  token's `AuthorizationUsed` and `AuthorizationCanceled` events, and receipts; and the pairing
  rule by which a receipt proves that an authorization moved money.

  The chain is the one its confirmed prefixes grow into; a reader sees a prefix of it.

  Main results: `pairedTransfer_spec`, `pairedTransfer_of_split`.
-/

import Motebit.Lib.Hex

namespace Motebit.X402

open Motebit.Lib List

/-! ## §1. Logs -/

/-- `ReceiptLog`: one log of a successful transaction's receipt, hex in lower case. -/
structure ReceiptLog where
  address : String
  topics : List String
  data : String
  deriving DecidableEq

def authorizationUsedTopic : String :=
  "0x98de503528ee59b575ef0c0a2576a82497bfc029a5685b209e9ec333479b10a5"

def transferTopic : String := "0xddf252ad1be2c89b69c2b068fc378daa952ba7f163c4a11628f55a4df523b3ef"

def topicAddress (a : String) : String :=
  "0x" ++ String.ofList (padZeros 64 (toLowerCase (String.ofList (a.toList.drop 2))).toList)

/-- `addressFromTopic`: the last 40 characters of a topic. -/
def addressFromTopic (t : String) : String :=
  "0x" ++ toLowerCase (String.ofList (t.toList.drop (t.toList.length - 40)))

/-- `BigInt(data)` of a word the pattern `/^0x[0-9a-f]{1,64}$/` admits. -/
def transferValue (data : String) : Option Nat :=
  match data.toList with
  | '0' :: 'x' :: ds =>
    if 1 ≤ ds.length ∧ ds.length ≤ 64 ∧ ds.all isLowerHex then hexDigits 0 ds else none
  | _ => none

/-- The log of the token that marks an authorization as used. -/
def isUsedLog (token authorizer nonce : String) (l : ReceiptLog) : Bool :=
  l.address == toLowerCase token && l.topics[0]? == some authorizationUsedTopic &&
    l.topics[1]? == some (topicAddress authorizer) && l.topics[2]? == some (toLowerCase nonce)

/-- A Transfer as `pairedTransfer` returns it; `position` is its place in the receipt. -/
structure PairedTransfer where
  position : Nat
  sender : String
  recipient : String
  value : Nat
  deriving DecidableEq

def readTransfer (token : String) (position : Nat) (t : ReceiptLog) : Option PairedTransfer :=
  if t.address ≠ toLowerCase token ∨ t.topics[0]? ≠ some transferTopic ∨ t.topics.length ≠ 3 then
    none
  else match transferValue t.data, t.topics[1]?, t.topics[2]? with
    | some value, some sender, some recipient =>
      some ⟨position, addressFromTopic sender, addressFromTopic recipient, value⟩
    | _, _, _ => none

/-- `pairedTransfer`: the log after the first one that marks the authorization as used, if it
    is a Transfer of the same token. -/
def pairedTransfer (logs : List ReceiptLog) (token authorizer nonce : String) :
    Option PairedTransfer :=
  match logs.findIdx? (isUsedLog token authorizer nonce) with
  | none => none
  | some i =>
    match logs[i + 1]? with
    | none => none
    | some t => readTransfer token (i + 1) t

variable {token authorizer nonce : String}

/-- **What the pairing rule finds**: an AuthorizationUsed log, and right after it a Transfer of
    the same token. -/
theorem pairedTransfer_spec {logs : List ReceiptLog}
    {paired : PairedTransfer} (h : pairedTransfer logs token authorizer nonce = some paired) :
    ∃ i used t, paired.position = i + 1 ∧ logs[i]? = some used ∧ logs[i + 1]? = some t ∧
      isUsedLog token authorizer nonce used = true ∧
      readTransfer token (i + 1) t = some paired := by
  unfold pairedTransfer at h
  split at h
  · cases h
  next i hidx =>
  split at h
  · cases h
  next t ht =>
  obtain ⟨hlt, hused, -⟩ := findIdx?_eq_some_iff_getElem.mp hidx
  refine ⟨i, logs[i], t, ?_, getElem?_eq_getElem hlt, ht, hused, h⟩
  unfold readTransfer at h
  split at h
  · cases h
  split at h
  · cases h
    rfl
  · cases h

/-- **The pairing rule finds what is there.** -/
theorem pairedTransfer_of_split {before after : List ReceiptLog} {used t : ReceiptLog}
    (hused : isUsedLog token authorizer nonce used = true)
    (hfirst : ∀ l ∈ before, isUsedLog token authorizer nonce l = false) :
    pairedTransfer (before ++ used :: t :: after) token authorizer nonce =
      readTransfer token (before.length + 1) t := by
  have hidx : (before ++ used :: t :: after).findIdx? (isUsedLog token authorizer nonce) =
      some before.length := by
    rw [findIdx?_append, findIdx?_eq_none_iff.mpr hfirst]
    simp [findIdx?_cons, hused]
  unfold pairedTransfer
  rw [hidx]
  simp only [getElem?_append_right (Nat.le_add_right _ _), Nat.add_sub_cancel_left,
    getElem?_cons_succ, getElem?_cons_zero]

theorem isUsedLog_inj {token authorizer nonce token' authorizer' nonce' : String}
    {l : ReceiptLog} (h : isUsedLog token authorizer nonce l = true)
    (h' : isUsedLog token' authorizer' nonce' l = true)
    (ha : isHexWord 40 authorizer = true) (ha' : isHexWord 40 authorizer' = true)
    (hn : isHexWord 64 nonce = true) (hn' : isHexWord 64 nonce' = true) :
    authorizer = authorizer' ∧ nonce = nonce' := by
  simp only [isUsedLog, Bool.and_eq_true, beq_iff_eq] at h h'
  have htopic : topicAddress authorizer = topicAddress authorizer' :=
    Option.some.inj (h.1.2.symm.trans h'.1.2)
  have hnonce : toLowerCase nonce = toLowerCase nonce' := Option.some.inj (h.2.symm.trans h'.2)
  rw [toLowerCase_of_hexWord hn, toLowerCase_of_hexWord hn'] at hnonce
  refine ⟨?_, hnonce⟩
  -- both addresses have forty digits, so that widening keeps them apart
  obtain ⟨ds, hs, hlen, hds⟩ := isHexWord_iff.mp ha
  obtain ⟨ds', hs', hlen', hds'⟩ := isHexWord_iff.mp ha'
  have hlist := congrArg String.toList htopic
  have hlow : ∀ cs : List Char, (∀ c ∈ cs, isLowerHex c = true) → cs.map Char.toLower = cs :=
    fun cs hcs => (map_congr_left fun c hc => toLower_of_lowerHex (hcs c hc)).trans (map_id cs)
  simp only [topicAddress, toLowerCase, hs, hs', drop_succ_cons, drop_zero,
    String.toList_append, String.toList_ofList, hlow ds hds, hlow ds' hds',
    append_cancel_left_eq] at hlist
  have hsame := padZeros_inj (hlen.trans hlen'.symm) hlist
  rw [← String.toList_inj, hs, hs', hsame]

/-! ## §2. The chain -/

inductive EventKind
  | used | canceled
  deriving DecidableEq

structure AuthorizationEvent where
  kind : EventKind
  txHash : String
  blockNumber : Nat
  logIndex : Nat
  deriving DecidableEq

/-- A confirmed head as a reader reports it. -/
structure Head where
  number : Nat
  timestamp : Nat
  deriving DecidableEq

/-- What the chain holds once it has grown: the timestamps of its blocks, the event the token
    emitted for an authorization, and the logs of each successful transaction.  EIP-3009 marks
    an authorization once, as used or as cancelled. -/
structure Chain where
  timestamp : Nat → Nat
  event : String → String → String → Option AuthorizationEvent
  receipt : String → List ReceiptLog

/-- The event of an authorization is in a range of blocks, both ends included. -/
def Chain.HasEvent (c : Chain) (token authorizer nonce : String) (fromBlock toBlock : Nat)
    (e : AuthorizationEvent) : Prop :=
  c.event token authorizer nonce = some e ∧ fromBlock ≤ e.blockNumber ∧ e.blockNumber ≤ toBlock

end Motebit.X402
