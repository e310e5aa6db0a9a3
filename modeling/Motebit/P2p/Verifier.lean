/-
  Motebit.P2p.Verifier — THE VERIFIER of direct settlement proofs.

  Translated from `services/relay/src/p2p-verifier.ts`.  A pending row is judged by what its
  transaction paid: the relay's fee, and the worker where the worker is hosted here.

  Main results: `verified_iff`, `verified_of_legs`, `verified_when_paid`.
-/

import Motebit.Wallet.Transfers

namespace Motebit.P2p

open List

open Motebit.Wallet

/-! ## §1. Rows -/

inductive WorkerLeg
  | local_leg
  | remote
  deriving DecidableEq

structure PendingP2pRow where
  settlement_id : String
  task_id : String
  motebit_id : String
  delegator_id : Option String
  p2p_worker_leg : Option WorkerLeg
  p2p_worker_address : Option String
  p2p_tx_hash : String
  amount_settled : Int
  platform_fee : Int
  settlement_address : Option String
  public_key : Option String
  deriving DecidableEq

inductive FailedObligation
  | worker_leg
  | fee_leg
  | transaction
  deriving DecidableEq

/-- What becomes of a row. -/
inductive Verdict
  | verified
  | failed (obligation : FailedObligation) (error : String)
  | unverifiable (reason : String)
  | pending
  deriving DecidableEq

/-- What the verifier reads beside the row: who signed a receipt of which task, the key held for
    an identity, and the address a key derives, if it is one. -/
structure Reads where
  signedReceipt : String → String → Bool
  verificationKeyFor : String → Option String → Option String
  derivedAddress : String → Option String

/-! ## §2. The verdict -/

def isDerivedSettlementBinding (reads : Reads) (settlementAddress publicKeyHex : String) : Bool :=
  reads.derivedAddress publicKeyHex == some settlementAddress

/-- The address the worker is registered under: as admitted, else as it is now. -/
def registeredAddress (row : PendingP2pRow) : Option String :=
  row.p2p_worker_address <|> row.settlement_address

def paysWorker (reads : Reads) (to_owner : String) (row : PendingP2pRow)
    (workerKey : Option String) : Bool :=
  (match registeredAddress row with
    | some registered => registered != "" && to_owner == registered
    | none => false) ||
  (match workerKey with
    | some key => isDerivedSettlementBinding reads to_owner key
    | none => false)

def isUncorrectedLegacySelfPayee (reads : Reads) (row : PendingP2pRow) : Bool :=
  if row.p2p_worker_leg ≠ none then false
  else match row.delegator_id with
  | none => false
  | some delegator =>
    if delegator = "" ∨ row.motebit_id ≠ delegator then false
    else !reads.signedReceipt row.task_id row.motebit_id

def handleVerificationResult (reads : Reads) (row : PendingP2pRow) (treasuryAddress : String) :
    TxVerificationResult → Verdict
  | .confirmed _ transfers _ =>
    let expectFeeLeg : Bool := 0 < row.platform_fee
    let feeLeg := transfers.find? fun t =>
      t.to_owner == treasuryAddress && t.amountMicro == row.platform_fee
    if expectFeeLeg && feeLeg.isNone then
      .failed .fee_leg "Fee leg not found in tx transfers (address or amount mismatch)"
    else if row.p2p_worker_leg = some .remote then
      if !expectFeeLeg then
        .unverifiable ("No leg for this relay to verify: the worker leg is the executor relay's "
          ++ "and no fee leg was recorded")
      else .verified
    else if isUncorrectedLegacySelfPayee reads row then
      .unverifiable ("Worker leg unverifiable: a pre-#959 record names its own payer as payee "
        ++ "and its worker could not be recovered")
    else
      let workerKey := reads.verificationKeyFor row.motebit_id row.public_key
      let hasAddress := (registeredAddress row).getD "" != ""
      if workerKey.isNone && !hasAddress then
        .unverifiable ("Worker leg unverifiable: the payee has no bound settlement address on "
          ++ "this relay (no identity key, no registered address)")
      else
        let workerLeg := transfers.find? fun t =>
          t.amountMicro == row.amount_settled && paysWorker reads t.to_owner row workerKey
        if workerLeg.isNone then
          .failed .worker_leg ("Worker leg not found in tx transfers (no transfer of the recorded "
            ++ "amount to the worker's bound address)")
        else .verified
  | .not_found => .failed .transaction "Transaction not found on Solana"
  | .rpc_error _ => .pending

/-! ## §3. Legs -/

section

variable {reads : Reads} {row : PendingP2pRow} {treasury : String} {tx : TokenTransaction}

theorem find?_legs {p : String → Bool} {amount : Int} (hpos : 0 < amount) :
    ((tx.legs.find? fun t => t.amountMicro == amount && p t.to_owner).isSome = true)
      ↔ ∃ owner, owner ≠ tx.payer ∧ p owner = true ∧ (tx.received owner : Int) = amount := by
  rw [find?_isSome]
  constructor
  · rintro ⟨leg, hleg, hp⟩
    obtain ⟨owner, howner, rfl⟩ := mem_map.mp hleg
    have hkept := (mem_filter.mp howner).2
    simp only [decide_eq_true_eq] at hkept
    rw [Bool.and_eq_true, beq_iff_eq] at hp
    exact ⟨owner, hkept.1, hp.2, hp.1⟩
  · rintro ⟨owner, hne, hp, hamount⟩
    refine ⟨⟨owner, tx.received owner⟩, tx.mem_legs hne (by omega), ?_⟩
    rw [Bool.and_eq_true, beq_iff_eq]
    exact ⟨hamount, hp⟩

/-- An address bound to the worker of a row that was admitted with one. -/
def Bound (reads : Reads) (row : PendingP2pRow) (address owner : String) : Prop :=
  owner = address ∨ ∃ key, reads.verificationKeyFor row.motebit_id row.public_key = some key ∧
    reads.derivedAddress key = some owner

theorem paysWorker_iff {address : String} (haddress : row.p2p_worker_address = some address)
    (hnamed : address ≠ "") (owner : String) :
    paysWorker reads owner row (reads.verificationKeyFor row.motebit_id row.public_key) = true
      ↔ Bound reads row address owner := by
  unfold paysWorker registeredAddress Bound isDerivedSettlementBinding
  rw [haddress, Bool.or_eq_true]
  have hregistered : (address != "" && owner == address) = true ↔ owner = address := by
    simp [hnamed]
  apply or_congr
  · exact hregistered
  · cases reads.verificationKeyFor row.motebit_id row.public_key with
    | none | some => simp

variable {mint address : String} {resp : RpcTransaction}

/-- **When a local row is verified**: leaving out what the payer paid itself, the treasury received
    the fee in all, and an address of the worker the amount in all. -/
theorem verified_iff
    (hreported : tx.Reported mint resp) (hlocal : row.p2p_worker_leg = some .local_leg)
    (haddress : row.p2p_worker_address = some address) (hnamed : address ≠ "")
    (hamount : 0 < row.amount_settled) (hfee : 0 < row.platform_fee) :
    handleVerificationResult reads row treasury (getTransaction mint (.resolved (some resp)))
        = .verified
      ↔ (treasury ≠ tx.payer ∧ (tx.received treasury : Int) = row.platform_fee) ∧
        ∃ owner, owner ≠ tx.payer ∧ Bound reads row address owner ∧
          (tx.received owner : Int) = row.amount_settled := by
  have hfeeLeg : (tx.legs.find? fun t =>
      t.to_owner == treasury && t.amountMicro == row.platform_fee).isSome = true
        ↔ treasury ≠ tx.payer ∧ (tx.received treasury : Int) = row.platform_fee := by
    have hlegs := @find?_legs tx (fun owner => owner == treasury) _ hfee
    have hsame : (fun t : TransferLeg =>
        t.to_owner == treasury && t.amountMicro == row.platform_fee)
          = fun t => t.amountMicro == row.platform_fee && t.to_owner == treasury :=
      funext fun t => Bool.and_comm _ _
    rw [hsame, hlegs]
    constructor
    · rintro ⟨owner, hne, heq, hreceived⟩
      rw [← eq_of_beq heq]
      exact ⟨hne, hreceived⟩
    · rintro ⟨hne, hreceived⟩
      exact ⟨treasury, hne, beq_self_eq_true _, hreceived⟩
  have hworkerLeg : (tx.legs.find? fun t => t.amountMicro == row.amount_settled &&
      paysWorker reads t.to_owner row
        (reads.verificationKeyFor row.motebit_id row.public_key)).isSome = true
        ↔ ∃ owner, owner ≠ tx.payer ∧ Bound reads row address owner ∧
          (tx.received owner : Int) = row.amount_settled := by
    rw [@find?_legs tx (fun owner => paysWorker reads owner row
      (reads.verificationKeyFor row.motebit_id row.public_key)) _ hamount]
    apply exists_congr
    intro owner
    rw [paysWorker_iff haddress hnamed]
  rw [tx.getTransaction_reports hreported]
  by_cases hspent : tx.spent = 0
  · rw [if_pos hspent]
    constructor
    · nofun
    · rintro ⟨⟨hne, hreceived⟩, -⟩
      have hle := tx.received_le_spent hne
      omega
  · rw [if_neg hspent, ← hfeeLeg, ← hworkerLeg]
    unfold handleVerificationResult
    have hexpect : decide (0 < row.platform_fee) = true := by simpa using hfee
    have hremote : row.p2p_worker_leg ≠ some .remote := by
      rw [hlocal]
      decide
    have hrecord : isUncorrectedLegacySelfPayee reads row = false := by
      unfold isUncorrectedLegacySelfPayee
      rw [if_pos (by rw [hlocal]; decide)]
    have hregistered : ((registeredAddress row).getD "" != "") = true := by
      unfold registeredAddress
      rw [haddress]
      simpa using hnamed
    simp only [hexpect, hrecord, hregistered, if_neg hremote, Bool.true_and, Bool.not_true,
      Bool.and_false, Bool.false_eq_true, if_false]
    cases tx.legs.find? (fun t =>
        t.to_owner == treasury && t.amountMicro == row.platform_fee) with
    | none => simp
    | some _ =>
      cases tx.legs.find? (fun t => t.amountMicro == row.amount_settled &&
          paysWorker reads t.to_owner row
            (reads.verificationKeyFor row.motebit_id row.public_key)) with
      | none | some => simp

theorem received_of_two {w t : String} {a f : Nat} (hwt : w ≠ t)
    (hlist : tx.transfers.Perm [(w, a), (t, f)]) : tx.received w = a ∧ tx.received t = f := by
  have hsum : ∀ owner, tx.received owner
      = (([(w, a), (t, f)].filter fun x => x.1 = owner).map Prod.snd).sum := fun owner =>
    ((hlist.filter _).map _).sum_eq
  constructor
  · rw [hsum, filter_cons_of_pos (by simp), filter_cons_of_neg (by simpa using hwt.symm)]
    rfl
  · rw [hsum, filter_cons_of_neg (by simpa using hwt), filter_cons_of_pos (by simp)]
    rfl

/-- **A row is verified by its two legs alone**, where the payer, the worker and the treasury are
    three owners. -/
theorem verified_of_legs {a f : Nat}
    (hreported : tx.Reported mint resp) (hlocal : row.p2p_worker_leg = some .local_leg)
    (haddress : row.p2p_worker_address = some address) (hnamed : address ≠ "")
    (hamount : row.amount_settled = a) (ha : 0 < a) (hfee : row.platform_fee = f) (hf : 0 < f)
    (hlist : tx.transfers.Perm [(address, a), (treasury, f)])
    (hworker : address ≠ tx.payer) (htreasury : treasury ≠ tx.payer) (hdiffer : address ≠ treasury) :
    handleVerificationResult reads row treasury (getTransaction mint (.resolved (some resp)))
      = .verified := by
  obtain ⟨hpaid, hcharged⟩ := received_of_two hdiffer hlist
  rw [verified_iff hreported hlocal haddress hnamed (by omega) (by omega)]
  constructor
  · exact ⟨htreasury, by omega⟩
  · exact ⟨address, hworker, Or.inl rfl, by omega⟩

/-- **A local row is verified when it was paid**: a verified row's worker and treasury, neither of
    them the payer, received in all what it records, by different transfers unless they are one
    owner; and a transaction of the two legs alone, to different owners other than the payer,
    verifies its row and fails no one. -/
theorem verified_when_paid {mint address : String} {resp : RpcTransaction} {a f : Nat}
    (hreported : tx.Reported mint resp) (hlocal : row.p2p_worker_leg = some .local_leg)
    (haddress : row.p2p_worker_address = some address) (hnamed : address ≠ "")
    (hamount : row.amount_settled = a) (ha : 0 < a) (hfee : row.platform_fee = f) (hf : 0 < f) :
    (handleVerificationResult reads row treasury (getTransaction mint (.resolved (some resp)))
        = .verified →
      treasury ≠ tx.payer ∧ tx.received treasury = f ∧
      ∃ owner, owner ≠ tx.payer ∧ Bound reads row address owner ∧ tx.received owner = a ∧
        (owner ≠ treasury → ∃ x ∈ tx.transfers, ∃ y ∈ tx.transfers,
          x.1 = owner ∧ y.1 = treasury ∧ x ≠ y)) ∧
    (tx.transfers.Perm [(address, a), (treasury, f)] →
      address ≠ tx.payer → treasury ≠ tx.payer → address ≠ treasury →
      handleVerificationResult reads row treasury (getTransaction mint (.resolved (some resp)))
        = .verified ∧
      ∀ obligation error,
        handleVerificationResult reads row treasury (getTransaction mint (.resolved (some resp)))
          ≠ .failed obligation error) := by
  constructor
  · intro hverified
    rw [verified_iff hreported hlocal haddress hnamed (by omega) (by omega)] at hverified
    obtain ⟨⟨htreasury, hcharged⟩, owner, howner, hbound, hpaid⟩ := hverified
    refine ⟨htreasury, by omega, owner, howner, hbound, by omega, ?_⟩
    intro hdiffer
    obtain ⟨x, hx, hxto⟩ := tx.exists_transfer (show tx.received owner ≠ 0 by omega)
    obtain ⟨y, hy, hyto⟩ := tx.exists_transfer (show tx.received treasury ≠ 0 by omega)
    refine ⟨x, hx, y, hy, hxto, hyto, ?_⟩
    intro hsame
    apply hdiffer
    rw [← hxto, ← hyto, hsame]
  · intro hlist hworker htreasury hdiffer
    refine ⟨?hverified, fun obligation error => Eq.trans_ne ?hverified nofun⟩
    exact verified_of_legs hreported hlocal haddress hnamed hamount ha hfee hf hlist hworker
      htreasury hdiffer

end

/-! ## §4. A payment in one transfer, and one in two -/

/-- A row of two micro-units to the worker and one to the relay. -/
def twoForOne : PendingP2pRow :=
  ⟨"s", "task", "m", none, some .local_leg, some "w", "hash", 2, 1, none, none⟩

/-- A reader with no receipts and no keys. -/
def bareReads : Reads := ⟨fun _ _ => false, fun _ _ => none, fun _ => none⟩

/-- The accounts of a payer, a worker and a treasury. -/
def paidBy (transfers : List (String × Nat)) (h : ∀ t ∈ transfers, t.1 ∈ ["p", "w", "t"]) :
    TokenTransaction where
  slot := 0
  payer := "p"
  transfers := transfers
  accounts := ["p", "w", "t"]
  index a := if a = "p" then 0 else if a = "w" then 1 else 2
  before _ := 9
  created _ := false
  distinct := by decide
  indexed := by decide
  payer_touched := by decide
  recipients_touched := h
  named := by decide
  created_empty := by intro a ha; cases ha

/-- Two transfers of one micro-unit to the worker, and the fee. -/
def inTwoParts : TokenTransaction := paidBy [("w", 1), ("w", 1), ("t", 1)] (by decide)

/-- One transfer to the worker, and the fee. -/
def inOnePart : TokenTransaction := paidBy [("w", 2), ("t", 1)] (by decide)

/-- What the RPC reports of a transaction that created no account. -/
def reportOf (tx : TokenTransaction) : RpcTransaction :=
  ⟨tx.slot, false, tx.pre "usdc", tx.post "usdc"⟩

/-- No transfer of the list is of the recorded amount, and the row is verified. -/
theorem verified_in_two_parts :
    inTwoParts.Reported "usdc" (reportOf inTwoParts) ∧
    handleVerificationResult bareReads twoForOne "t"
      (getTransaction "usdc" (.resolved (some (reportOf inTwoParts)))) = .verified ∧
    ¬ ∃ x ∈ inTwoParts.transfers, ∃ owner, Bound bareReads twoForOne "w" owner ∧
      x = (owner, 2) := by
  refine ⟨⟨rfl, rfl, by decide, by decide⟩, by decide, ?_⟩
  rintro ⟨x, hx, owner, -, rfl⟩
  revert hx
  simp [inTwoParts, paidBy]

/-- The two legs of `twoForOne` alone verify it. -/
theorem verified_in_one_part : handleVerificationResult bareReads twoForOne "t"
      (getTransaction "usdc" (.resolved (some (reportOf inOnePart)))) = .verified :=
  ((@verified_when_paid bareReads twoForOne "t" inOnePart "usdc" "w" (reportOf inOnePart) 2 1
    ⟨rfl, rfl, by decide, by decide⟩ rfl rfl (by decide) rfl (by decide) rfl (by decide)).2
    (List.Perm.refl _) (by decide) (by decide) (by decide)).1

end Motebit.P2p
