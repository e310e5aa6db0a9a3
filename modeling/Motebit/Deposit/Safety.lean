/-
  Motebit.Deposit.Safety — WHAT THE CURSOR HAS PASSED.

  Each program of a detection cycle keeps the invariant of `Deposit.Invariant` at every step,
  whatever the other cycles, the chains and the environment do in between, and wherever the
  process dies.

  Main results: `creditLogs_ensures`, `detectDeposits_ensures`, `deposits_behind_cursor`.
-/

import Motebit.Lib.Run
import Motebit.Deposit.Invariant

namespace Motebit.Deposit

open Motebit.Lib List Function
open Motebit.Lib.Protocol
open Motebit.Accounts

variable {confirmations : String → Nat} {first : String → Option Nat} {s s' : Store} {t : Nat}
  {chain : String} {wallets : List KnownWallet} {raw : TransferLog}

/-! ## §1. The programs -/

/-- Every step may do what keeps the past. -/
def protocol (confirmations : String → Nat) (first : String → Option Nat) :
    Protocol (world confirmations first) where
  Inv := Inv confirmations first
  Guar _ := Persists confirmations
  Fresh _ _ := True
  refl _ := .refl

theorem calm : Calm (protocol confirmations first) (Persists confirmations) where
  guar _ _ _ h := h
  env _ _ hi he := (Inv.env hi he).2

variable {L : Store → Prop}

theorem framed (h : ∀ s s', Persists confirmations s s' → L s → L s') :
    Framed (protocol confirmations first) (Persists confirmations) t L :=
  ⟨fun _ s s' _ _ _ hp => h s s' hp, fun s s' _ _ hp => h s s' hp⟩

theorem stable (h : ∀ s s', Persists confirmations s s' → L s → L s') :
    (protocol confirmations first).Stable t L :=
  calm.stable (framed h)

/-- What a cycle knows of a log it is about to look at. -/
def Seen (confirmations : String → Nat) (chain : String) (wallets : List KnownWallet)
    (raw : TransferLog) (s : Store) : Prop :=
  Settled confirmations s chain raw ∧ ∀ w ∈ wallets, w ∈ s.wallets

theorem Seen.persists (h : Seen confirmations chain wallets raw s)
    (hp : Persists confirmations s s') : Seen confirmations chain wallets raw s' :=
  ⟨h.1.persists hp, fun w hw => hp.wallets w (h.2 w hw)⟩

theorem wallet_of_agentOf {toAddress agentId : String}
    (h : agentOf wallets toAddress = some agentId) :
    ∃ w ∈ wallets, w.agentId = agentId ∧ toLowerCase w.address = toAddress := by
  unfold agentOf at h
  split at h
  · next w hfind =>
    split at h
    · cases h
    cases h
    refine ⟨w, mem_reverse.mp (mem_of_find?_eq_some hfind), rfl, ?_⟩
    have hsel := find?_some hfind
    exact beq_iff_eq.mp hsel
  · cases h

theorem agentOf_ne_none {toAddress : String} {w : KnownWallet} (hw : w ∈ wallets)
    (haddr : toLowerCase w.address = toAddress) (hnamed : ∀ w ∈ wallets, w.agentId ≠ "") :
    agentOf wallets toAddress ≠ none := by
  unfold agentOf
  split
  · next w' hfind =>
    have hmem := mem_reverse.mp (mem_of_find?_eq_some hfind)
    rw [if_neg (hnamed w' hmem)]
    exact Option.some_ne_none _
  · next hnone =>
    have hno := find?_eq_none.mp hnone w (mem_reverse.mpr hw)
    exact absurd (beq_iff_eq.mpr haddr) hno

variable {log : DecodedTransfer}

theorem decodeTransfer_key (h : decodeTransfer raw = .ok log) :
    log.txHash = raw.txHash ∧ log.logIndex = raw.logIndex ∧ log.blockNumber = raw.blockNumber ∧
      log.toAddress = topicAddress raw.toTopic := by
  unfold decodeTransfer at h
  split at h
  · cases h
    exact ⟨rfl, rfl, rfl, rfl⟩
  · cases h

/-- **One credit**: after it the log is recorded or its refusal logged. -/
theorem tryOnDeposit_ensures {motebitId : String}
    (hdec : decodeTransfer raw = .ok log) (hpos : 0 < log.value)
    (hagent : agentOf wallets log.toAddress = some motebitId) :
    (protocol confirmations first).Ensures t (tryOnDeposit chain raw log motebitId)
      (Seen confirmations chain wallets raw) (fun _ s => Handled s chain wallets raw)
      fun _ _ => True := by
  have hhandled : (protocol confirmations first).Stable t fun s => Handled s chain wallets raw :=
    stable fun _ _ hp h => h.persists hp
  obtain ⟨htx, hidx, hblock, -⟩ := decodeTransfer_key hdec
  refine .tryCatch (F := fun _ _ => True) ?_ fun e => ?_
  · refine .bind (Q := fun _ s => Handled s chain wallets raw) ?_ fun _ => .pure fun _ _ h => h
    refine .txn (fun _ => hhandled) (fun _ => .true) ?_ fun _ _ _ _ _ => trivial
    intro s u s' hi hl hok
    -- the wallet that made this log an agent's is registered
    obtain ⟨w, hw, hwid, hwaddr⟩ := wallet_of_agentOf hagent
    have hreal : Real confirmations s ⟨log.txHash, log.logIndex, motebitId,
        log.fromAddress, log.value, chain, log.blockNumber⟩ := by
      refine ⟨raw, log, w, hl.1, hdec, hpos, hl.2 w hw, hwaddr, ?_⟩
      rw [htx, hidx, hblock, hwid]
    obtain ⟨hinv, hp, hrec⟩ := Inv.onDeposit hi hreal hok
    refine ⟨hinv, hp, fun log' _ _ _ => .inl ?_⟩
    obtain ⟨row, hrow, hkey⟩ := hrec hpos
    refine ⟨row, hrow, ?_⟩
    rw [hkey, htx, hidx]
    rfl
  · refine .act (fun _ => hhandled) fun s hi _ => ?_
    obtain ⟨hinv, hp⟩ := Inv.warn hi (chain, raw)
    exact ⟨hinv, hp, fun _ _ _ _ => .inr mem_cons_self⟩

/-- **One log**: after its turn it is handled. -/
theorem creditLog_ensures (chain : String) (wallets : List KnownWallet) (raw : TransferLog) :
    (protocol confirmations first).Ensures t (creditLog chain wallets raw)
      (Seen confirmations chain wallets raw) (fun _ s => Handled s chain wallets raw)
      fun _ _ => True := by
  unfold creditLog
  cases hdec : decodeTransfer raw with
  | error => exact .throw fun _ _ _ => trivial
  | ok log =>
    obtain ⟨htx, hidx, -, -⟩ := decodeTransfer_key hdec
    have hsame : ∀ {log'}, decodeTransfer raw = .ok log' → log' = log := by
      intro log' hlog'
      rw [hdec] at hlog'
      exact (Except.ok.inj hlog').symm
    dsimp only
    cases hagent : agentOf wallets log.toAddress with
    | none =>
      refine .pure fun s _ _ log' hlog' _ hne => ?_
      rw [hsame hlog', hagent] at hne
      exact absurd rfl hne
    | some =>
      refine .bind (Q := fun processed s => Seen confirmations chain wallets raw s ∧
        (processed = true → ∃ row ∈ s.depositLog, row.key = raw.key)) ?_ fun processed => ?_
      · refine .act (fun processed => stable fun s s' hp hl => ⟨hl.1.persists hp, ?_⟩)
          fun s hi hl => ⟨hi, .refl s, hl, fun hproc => ?_⟩
        · intro hproc
          obtain ⟨row, hrow, hk⟩ := hl.2 hproc
          exact ⟨row, hp.depositLog row hrow, hk⟩
        · obtain ⟨row, hrow, hkey⟩ := hasProcessedLog_iff.mp hproc
          refine ⟨row, hrow, ?_⟩
          rw [hkey, htx, hidx]
          rfl
      split
      · next hproc => exact .pure fun s _ hl log' _ _ _ => .inl (hl.2 hproc)
      · split
        · next hzero =>
          refine .pure fun s _ _ log' hlog' hpos => ?_
          rw [hsame hlog'] at hpos
          omega
        · exact (tryOnDeposit_ensures hdec (by omega) hagent).mono fun _ _ hl => hl.1

theorem carry {α : Type} {L F : Store → Prop} {Q : α → Store → Prop} {E : Err → Store → Prop}
    {x : DepositTask α} (hF : ∀ s s', Persists confirmations s s' → F s → F s')
    (h : (protocol confirmations first).Ensures t x L Q E) :
    (protocol confirmations first).Ensures t x (fun s => L s ∧ F s) (fun a s => Q a s ∧ F s)
      fun _ _ => True :=
  (Ensures.frame (fun s s' _ _ hp => hF s s' hp) (stable hF) h).weaken (fun _ _ _ hq => hq)
    fun _ _ _ _ => trivial

/-- **The loop**: after it every log is handled. -/
theorem creditLogs_ensures (chain : String) (wallets : List KnownWallet)
    (raws : List TransferLog) (detected : Nat) :
    (protocol confirmations first).Ensures t (creditLogs chain wallets raws detected)
      (fun s => ∀ raw ∈ raws, Seen confirmations chain wallets raw s)
      (fun _ s => ∀ raw ∈ raws, Handled s chain wallets raw) fun _ _ => True := by
  induction raws generalizing detected with
  | nil => exact .pure fun _ _ _ raw hraw => by cases hraw
  | cons raw raws ih =>
    -- the later logs stay seen while this one is looked at, and it stays handled after
    have hone : (protocol confirmations first).Ensures t (creditLog chain wallets raw) _ _
        fun _ _ => True :=
      carry (F := fun s => ∀ raw ∈ raws, Seen confirmations chain wallets raw s)
        (fun s s' hp hl raw hraw => (hl raw hraw).persists hp) (creditLog_ensures chain wallets raw)
    have hrest : ∀ n, (protocol confirmations first).Ensures t
        (creditLogs chain wallets raws (detected + n)) _ _ fun _ _ => True := fun n =>
      carry (F := fun s => Handled s chain wallets raw) (fun s s' hp hl => hl.persists hp)
        (ih (detected + n))
    refine .bind (hone.mono fun s _ hl => ⟨hl raw mem_cons_self,
      fun r hr => hl r (mem_cons_of_mem _ hr)⟩) fun n => ?_
    refine ((hrest n).mono fun s _ hl => ⟨hl.2, hl.1⟩).weaken (fun _ s _ hl => ?_) fun _ _ _ h => h
    exact forall_mem_cons.mpr ⟨hl.2, hl.1⟩

/-- What a cycle knows once its range is fixed. -/
def Ranged (confirmations : String → Nat) (first : String → Option Nat) (chain : String)
    (lastBlock toBlock : Nat) (s : Store) : Prop :=
  toBlock ≤ (s.chains chain).head - confirmations chain ∧ CoveredFrom first s chain lastBlock

theorem Ranged.persists {lastBlock toBlock : Nat}
    (h : Ranged confirmations first chain lastBlock toBlock s) (hp : Persists confirmations s s') :
    Ranged confirmations first chain lastBlock toBlock s' := by
  obtain ⟨hle, hcov⟩ := h
  have hhead := hp.head chain
  exact ⟨by omega, hcov.persists hp⟩

theorem setCursor_ensures (chain : String) (lastBlock toBlock : Nat) (wallets : List KnownWallet) :
    (protocol confirmations first).Ensures t
      (Task.txn fun s => s.setCursor ⟨chain, lastBlock + 1, toBlock, wallets⟩)
      (fun s => ScanDone confirmations s ⟨chain, lastBlock + 1, toBlock, wallets⟩ ∧
        Ranged confirmations first chain lastBlock toBlock s)
      (fun _ _ => True) fun _ _ => True := by
  refine .txn (fun _ => .true) (fun _ => .true) ?_ fun _ _ _ _ _ => trivial
  intro s u s' hi hl hok
  obtain ⟨hinv, hp⟩ := Inv.setCursor hi hl.1 hl.2.2 hok
  exact ⟨hinv, hp, trivial⟩

/-- **The scanning half**, over blocks that are settled and follow what is covered. -/
theorem scanRange_ensures (chain : String) (lastBlock toBlock : Nat) :
    (protocol confirmations first).Ensures t (scanRange chain lastBlock toBlock)
      (Ranged confirmations first chain lastBlock toBlock) (fun _ _ => True) fun _ _ => True := by
  refine .bind (Q := fun wallets s => Ranged confirmations first chain lastBlock toBlock s ∧
    ∀ w ∈ wallets, w ∈ s.wallets) ?_ fun wallets => ?_
  · refine .act (fun wallets => stable fun s s' hp hl => ?_)
      fun s hi hl => ⟨hi, .refl s, hl, fun _ h => h⟩
    exact ⟨hl.1.persists hp, fun w hw => hp.wallets w (hl.2 w hw)⟩
  split
  · next hempty =>
    refine .bind ((setCursor_ensures chain lastBlock toBlock wallets).mono ?_)
      fun _ => .pure fun _ _ h => h
    -- with no wallets there is nothing to handle
    intro s hi hl
    refine ⟨⟨hl.1.1, hl.2, fun raw _ log _ _ hagent => ?_⟩, hl.1⟩
    rw [length_eq_zero_iff.mp hempty] at hagent
    exact absurd rfl hagent
  · refine .bind (Q := fun answer s =>
      (Ranged confirmations first chain lastBlock toBlock s ∧ ∀ w ∈ wallets, w ∈ s.wallets) ∧
      ∀ raws, answer = some raws → raws = (s.chains chain).range (lastBlock + 1) toBlock) ?_
      fun answer => ?_
    · refine .ask (fun answer => stable fun s s' hp hl => ?_) ?_
      · refine ⟨⟨hl.1.1.persists hp, fun w hw => hp.wallets w (hl.1.2 w hw)⟩, fun raws hr => ?_⟩
        rw [hp.range chain _ _ hl.1.1.1]
        exact hl.2 raws hr
      · intro s answer s' hi hl ha
        obtain ⟨rfl, hlogs⟩ := ha
        exact ⟨hi, .refl _, hl, hlogs⟩
    cases answer with
    | none => exact .pure fun _ _ _ => trivial
    | some raws =>
      have hloop : (protocol confirmations first).Ensures t (creditLogs chain wallets raws 0) _ _
          fun _ _ => True := carry (F := fun s => (Ranged confirmations first chain lastBlock toBlock s ∧
          ∀ w ∈ wallets, w ∈ s.wallets) ∧
          raws = (s.chains chain).range (lastBlock + 1) toBlock)
        (fun s s' hp hl => ⟨⟨hl.1.1.persists hp, fun w hw => hp.wallets w (hl.1.2 w hw)⟩, by
          rw [hp.range chain _ _ hl.1.1.1]
          exact hl.2⟩)
        (creditLogs_ensures chain wallets raws 0)
      refine .bind (hloop.mono fun s _ hl => ?_) fun detected => ?_
      · have hraws := hl.2 raws rfl
        refine ⟨fun raw hraw => ⟨?_, hl.1.2⟩, hl.1, hraws⟩
        rw [hraws] at hraw
        obtain ⟨hmem, -, hle⟩ := mem_range.mp hraw
        exact ⟨hmem, Nat.le_trans hle hl.1.1.1⟩
      · refine .bind ((setCursor_ensures chain lastBlock toBlock wallets).mono ?_)
          fun _ => .pure fun _ _ h => h
        intro s _ hl
        obtain ⟨hhandled, ⟨hrange, hwallets⟩, hraws⟩ := hl
        refine ⟨⟨hrange.1, hwallets, fun raw hraw => hhandled raw ?_⟩, hrange⟩
        rw [hraws]
        exact hraw

/-- **One cycle.** -/
theorem detectDeposits_ensures (chain : String) (maxBlocksPerCycle : Nat) :
    (protocol confirmations first).Ensures t
      (detectDeposits (confirmations chain) maxBlocksPerCycle chain) (fun _ => True)
      (fun _ _ => True) fun _ _ => True := by
  refine .bind (Q := fun answer s => ∀ head, answer = some head →
    head ≤ (s.chains chain).head) ?_ fun answer => ?_
  · refine .ask (fun answer => stable fun s s' hp hl head hh => ?_) ?_
    · exact Nat.le_trans (hl head hh) (hp.head chain)
    · intro s answer s' hi _ ha
      obtain ⟨rfl, hhead⟩ := ha
      exact ⟨hi, .refl _, hhead⟩
  cases answer with
  | none => exact .pure fun _ _ _ => trivial
  | some currentBlock =>
    dsimp only
    split
    · exact .pure fun _ _ _ => trivial
    · refine .bind (Q := fun cursor s => currentBlock ≤ (s.chains chain).head ∧
        ∀ last, cursor = some last → CoveredFrom first s chain last) ?_ fun cursor => ?_
      · refine .act (fun cursor => stable fun s s' hp hl => ?_)
          fun s hi hl => ⟨hi, .refl s, hl currentBlock rfl, fun last hlast => ?_⟩
        · exact ⟨Nat.le_trans hl.1 (hp.head chain), fun last h => (hl.2 last h).persists hp⟩
        · exact Inv.cursors hi chain last hlast
      split
      · exact Ensures.pure fun _ _ _ => trivial
      next hbehind =>
      cases cursor with
      | none => exact absurd (Nat.le_refl _) hbehind
      | some last =>
        refine (scanRange_ensures chain last _).mono fun s _ hl => ⟨?_, hl.2 last rfl⟩
        -- the range ends at the safe horizon or before it
        unfold lastOfRange
        split <;> omega

/-! ## §2. Every reachable configuration -/

theorem inv_init {books : Books} {chains : String → EvmChain}
    (hbooks : ∀ row ∈ books.transactions, NoDeposit row)
    (hnamed : ∀ w ∈ wallets, KnownWallet.agentId w ≠ "") :
    Inv confirmations first (Store.init books first wallets chains) where
  books key := by
    have hnone : (Store.init books first wallets chains).creditsUnder key = [] := by
      refine filter_eq_nil_iff.mpr fun row hrow heq => ?_
      exact hbooks row hrow key.1 key.2 (beq_iff_eq.mp heq)
    rw [hnone]
    rfl
  once := nodup_nil
  real row hrow := by cases hrow
  named := hnamed
  scans scan hscan := by cases hscan
  cursors chain cursor hc := by
    -- between the first cursor and itself there is no block
    refine ⟨cursor, hc, fun b hlow hhigh => ?_⟩
    omega

theorem verified : Verified (protocol confirmations first) where
  init s hs := by
    obtain ⟨books, wallets, chains, hbooks, hnamed, rfl⟩ := hs
    exact ⟨inv_init hbooks hnamed, fun _ => trivial⟩
  env s s' hi he := ⟨(Inv.env hi he).1, fun _ _ => trivial⟩
  crash s s' hi hc := by
    obtain rfl : s' = s := hc
    exact ⟨hi, fun _ _ => trivial⟩
  fresh _ _ _ _ _ _ _ _ := trivial
  entry t p hp := by
    obtain ⟨chain, maxBlocksPerCycle, rfl⟩ := hp
    exact ⟨Stable.true, (detectDeposits_ensures chain maxBlocksPerCycle).detach⟩

/-! ## §3. Behind the cursor -/

/-- No other settled log, of this or any other chain, has the log's key. -/
def SoleKey (confirmations : String → Nat) (s : Store) (chain : String) (raw : TransferLog) :
    Prop :=
  ∀ chain' raw', Settled confirmations s chain' raw' → raw'.key = raw.key →
    chain' = chain ∧ raw' = raw

/-- The ledger row credits the value of the log to an agent with a wallet at its address. -/
def Credits (s : Store) (raw : TransferLog) (row : AccountTransaction) : Prop :=
  ∃ log w, decodeTransfer raw = .ok log ∧ w ∈ s.wallets ∧ toLowerCase w.address = log.toAddress ∧
    row.motebitId = w.agentId ∧ row.type = .deposit ∧
    (number log.value = log.value → row.amount = log.value)

variable {row : DepositRow}

theorem Inv.rowsOf_of_mem (h : Inv confirmations first s)
    (hrow : row ∈ s.depositLog) : s.rowsOf row.key = [row] := by
  obtain ⟨before, after, hsplit⟩ := append_of_mem hrow
  have hnd := h.once
  unfold Store.rowsOf
  rw [hsplit] at hnd ⊢
  rw [map_append, map_cons, nodup_append, nodup_cons] at hnd
  obtain ⟨-, ⟨hafter, -⟩, hbefore⟩ := hnd
  have hb : before.filter (fun r => r.key == row.key) = [] := by
    refine filter_eq_nil_iff.mpr fun r hr hk => ?_
    exact hbefore _ (mem_map_of_mem hr) _ mem_cons_self (beq_iff_eq.mp hk)
  have ha : after.filter (fun r => r.key == row.key) = [] := by
    refine filter_eq_nil_iff.mpr fun r hr hk => hafter ?_
    rw [← beq_iff_eq.mp hk]
    exact mem_map_of_mem hr
  rw [filter_append, hb, filter_cons, if_pos (beq_self_eq_true row.key), ha]
  rfl

/-- **A recorded key has one ledger row**, for a settled Transfer with that key. -/
theorem Inv.credited_of_row (h : Inv confirmations first s) (hrow : row ∈ s.depositLog) :
    ∃ raw credit, s.creditsUnder row.key = [credit] ∧ Settled confirmations s row.chain raw ∧
      raw.key = row.key ∧ Credits s raw credit := by
  obtain ⟨raw, log, w, hset, hdec, hpos, hw, haddr, hfields⟩ := h.real row hrow
  have hbooks := h.books row.key
  rw [h.rowsOf_of_mem hrow, map_singleton] at hbooks
  obtain ⟨credit, hcredit, hsame⟩ := map_eq_singleton_iff.mp hbooks
  refine ⟨raw, credit, hcredit, hset, ?_, log, w, hdec, hw, haddr, ?_⟩
  · rw [hfields]
    rfl
  · rw [hfields] at hsame
    simp only [creditOf, DepositRow.credit, Prod.mk.injEq] at hsame
    obtain ⟨hid, htype, hamount⟩ := hsame
    refine ⟨hid, htype, fun hexact => ?_⟩
    rw [hamount, hexact]

theorem Inv.row_of_credit (h : Inv confirmations first s) {key : String × Nat}
    {credit : AccountTransaction} (hc : credit ∈ s.creditsUnder key) :
    ∃ row ∈ s.depositLog, row.key = key := by
  have hmem : creditOf credit ∈ (s.rowsOf key).map DepositRow.credit := by
    rw [← h.books key]
    exact mem_map_of_mem hc
  obtain ⟨row, hrow, -⟩ := mem_map.mp hmem
  obtain ⟨hin, hkey⟩ := mem_filter.mp hrow
  exact ⟨row, hin, beq_iff_eq.mp hkey⟩

/-- **Behind the cursor.**  In every configuration any interleaving of cycles, RPC errors,
    refused writes, process deaths, new wallets and new blocks leads to: every block after the
    first cursor and up to the stored one was scanned by a cycle that finished; a Transfer of
    positive value that such a cycle scanned, to a wallet it had read, either had its credit
    refused with a throw or was credited once, to an agent with that wallet, and exactly if
    its value is a double and its key no other log's; and whatever is on the ledger under an
    on-chain reference is the one credit of a settled Transfer to a registered wallet. -/
theorem deposits_behind_cursor {c : Config Store Req Resp}
    (hreach : (world confirmations first).Reachable c) :
    (∀ chain low cursor b, first chain = some low → c.store.cursors chain = some cursor →
      low < b → b ≤ cursor →
      ∃ scan ∈ c.store.scans, scan.chain = chain ∧ scan.fromBlock ≤ b ∧ b ≤ scan.toBlock) ∧
    (∀ scan ∈ c.store.scans, ∀ raw ∈ (c.store.chains scan.chain).logs,
      scan.fromBlock ≤ raw.blockNumber → raw.blockNumber ≤ scan.toBlock →
      ∀ log, decodeTransfer raw = .ok log → 0 < log.value →
      (∃ w ∈ scan.wallets, toLowerCase w.address = log.toAddress) →
      SoleKey confirmations c.store scan.chain raw →
      (scan.chain, raw) ∈ c.store.warned ∨
        ∃ credit, c.store.creditsUnder raw.key = [credit] ∧ Credits c.store raw credit) ∧
    ∀ credit ∈ c.store.books.transactions, ∀ txHash logIndex,
      credit.referenceId = some (depositReference txHash logIndex) →
      c.store.creditsUnder (txHash, logIndex) = [credit] ∧
      ∃ chain raw, Settled confirmations c.store chain raw ∧ raw.key = (txHash, logIndex) ∧
        Credits c.store raw credit := by
  have hinv : Inv confirmations first c.store := Protocol.sound verified hreach
  refine ⟨fun chain low cursor b hfirst hcursor hlow hhigh => ?_,
    fun scan hscan raw hraw hfrom hto log hdec hpos hwallet hsole => ?_,
    fun credit hcredit txHash logIndex href => ?_⟩
  · obtain ⟨low', hfirst', hcov⟩ := hinv.cursors chain cursor hcursor
    rw [hfirst] at hfirst'
    cases hfirst'
    exact hcov b hlow hhigh
  · have hdone := hinv.scans scan hscan
    obtain ⟨w, hw, haddr⟩ := hwallet
    have hagent := agentOf_ne_none hw haddr fun w' hw' => hinv.named w' (hdone.wallets w' hw')
    rcases hdone.handled raw (mem_range.mpr ⟨hraw, hfrom, hto⟩) log hdec hpos hagent with
      ⟨row, hrow, hkey⟩ | hwarned
    · -- the dedup row's own log has this key, hence is this log
      obtain ⟨raw', credit, hone, hset, hkey', hcr⟩ := hinv.credited_of_row hrow
      rw [hkey] at hone hkey'
      obtain ⟨-, rfl⟩ := hsole _ raw' hset hkey'
      exact .inr ⟨credit, hone, hcr⟩
    · exact .inl hwarned
  · have hunder : credit ∈ c.store.creditsUnder (txHash, logIndex) :=
      mem_filter.mpr ⟨hcredit, beq_iff_eq.mpr href⟩
    obtain ⟨row, hrow, hkey⟩ := hinv.row_of_credit hunder
    obtain ⟨raw, credit', hone, hset, hkey', hcr⟩ := hinv.credited_of_row hrow
    rw [hkey] at hone hkey'
    rw [hone, mem_singleton] at hunder
    subst hunder
    exact ⟨hone, row.chain, raw, hset, hkey', hcr⟩

/-! ### Two runs -/

/-- A transfer of 5 to the wallet `0xbb`. -/
def sampleLog : TransferLog :=
  ⟨1, "0xabc", 0, "0x000000000000000000000000aa", "0x000000000000000000000000bb", "0x05"⟩

/-- Every chain's first cursor. -/
def sampleFirst (_ : String) : Option Nat := some 0

/-- Alice's wallet is registered and one block is settled. -/
def sampleStore : Store :=
  Store.init Books.empty sampleFirst [⟨"alice", "0xBB"⟩]
    fun chain => if chain = "eip155:84532" then ⟨2, [sampleLog]⟩ else ⟨0, []⟩

def sampleScan : Scan := ⟨"eip155:84532", 1, 1, [⟨"alice", "0xBB"⟩]⟩

/-- What one cycle reads there. -/
def sampleTrace : List (Σ r, Resp r) :=
  [⟨.getBlockNumber "eip155:84532", some (2 : Nat)⟩,
    ⟨.getTransferLogs "eip155:84532" 1 1, some [sampleLog]⟩]

theorem sample_reachable {s' : Store} (h : Runs (world (fun _ => 1) sampleFirst)
      (detectDeposits 1 1000 "eip155:84532").detach sampleStore sampleTrace () s') :
    ∃ c, (world (fun _ => 1) sampleFirst).Reachable c ∧ c.store = s' := by
  have hnone : ∀ row ∈ Books.empty.transactions, NoDeposit row := fun row hrow => by cases hrow
  have hinit := World.Reachable.init (W := world (fun _ => 1) sampleFirst) sampleStore
    ⟨Books.empty, [⟨"alice", "0xBB"⟩], _, hnone, by decide, rfl⟩
  exact Runs.reachable hinit ⟨"eip155:84532", 1000, rfl⟩ h

theorem answered_read {α : Type} {k : Option (List TransferLog) → Prog Store Req Resp α} {a : α}
    {fromBlock toBlock : Nat} {logs : List TransferLog}
    (hlogs : logs = (s.chains chain).range fromBlock toBlock)
    (h : Runs (world confirmations first) (k (some logs)) s [] a s') :
    Runs (world confirmations first) (.await (.getTransferLogs chain fromBlock toBlock) k) s
      [⟨.getTransferLogs chain fromBlock toBlock, some logs⟩] a s' := by
  refine .await ⟨rfl, fun logs' hsame => ?_⟩ h
  cases hsame
  exact hlogs

/-- The credit and the cursor write succeed. -/
def creditedStore : Store :=
  { sampleStore with
    books := (Books.empty.credit "alice" 5 .deposit (some "onchain-0xabc-0")
      (some "USDC deposit from 0xaa on eip155:84532 (block 1)") none).2
    cursors := update sampleStore.cursors "eip155:84532" (some 1)
    depositLog := [⟨"0xabc", 0, "alice", "0xaa", 5, "eip155:84532", 1⟩]
    scans := [sampleScan] }

theorem credited_run : Runs (world (fun _ => 1) sampleFirst)
    (detectDeposits 1 1000 "eip155:84532").detach sampleStore sampleTrace () creditedStore := by
  refine .await ⟨rfl, fun head hhead => ?_⟩ (.atomic (.atomic (answered_read rfl ?_)))
  · cases hhead
    decide
  · exact .atomic (.atomic (.atomic .done))

theorem deposits_behind_cursor_credited : ∃ c,
    (world (fun _ => 1) sampleFirst).Reachable c ∧
    c.store.cursors "eip155:84532" = some 1 ∧
    (∃ scan ∈ c.store.scans, scan.chain = "eip155:84532" ∧ scan.fromBlock ≤ 1 ∧ 1 ≤ scan.toBlock) ∧
    ∀ credit ∈ c.store.books.transactions, c.store.creditsUnder ("0xabc", 0) = [credit] := by
  obtain ⟨c, hreach, hstore⟩ := sample_reachable credited_run
  have hcursor : c.store.cursors "eip155:84532" = some 1 := by
    rw [hstore]
    rfl
  have hrefs : ∀ credit ∈ c.store.books.transactions,
      credit.referenceId = some (depositReference "0xabc" 0) := by
    rw [hstore]
    decide
  obtain ⟨hcovered, -, hledger⟩ := deposits_behind_cursor hreach
  exact ⟨c, hreach, hcursor, hcovered "eip155:84532" 0 1 1 rfl hcursor (by decide) (by decide),
    fun credit hcredit => (hledger credit hcredit "0xabc" 0 (hrefs credit hcredit)).1⟩

/-- Another writer holds the database while the credit is tried, and lets go before the cursor
    is written. -/
def refusedStore : Store :=
  { sampleStore with
    cursors := update sampleStore.cursors "eip155:84532" (some 1)
    warned := [("eip155:84532", sampleLog)]
    scans := [sampleScan] }

theorem refused_run : Runs (world (fun _ => 1) sampleFirst)
    (detectDeposits 1 1000 "eip155:84532").detach sampleStore sampleTrace () refusedStore := by
  refine .await ⟨rfl, fun head hhead => ?_⟩ (.atomic (.atomic (answered_read rfl ?_)))
  · cases hhead
    decide
  · exact .atomic (.env (Env.lock true) (.atomic (.atomic (.env (Env.lock false) (.atomic .done)))))

/-- **The cursor passes a deposit whose credit was refused**: not every Transfer of positive
    value behind the cursor, to a wallet its scan had read, is on the ledger. -/
theorem cursor_passes_refused_deposit :
    ¬ ∀ c, (world (fun _ => 1) sampleFirst).Reachable c →
      ∀ chain low cursor, sampleFirst chain = some low → c.store.cursors chain = some cursor →
      ∀ raw ∈ (c.store.chains chain).logs, low < raw.blockNumber → raw.blockNumber ≤ cursor →
      ∀ log, decodeTransfer raw = .ok log → 0 < log.value →
      (∀ scan ∈ c.store.scans, ∃ w ∈ scan.wallets, toLowerCase w.address = log.toAddress) →
      ∃ credit, c.store.creditsUnder raw.key = [credit] ∧ credit.amount = log.value := by
  intro hall
  obtain ⟨c, hreach, hstore⟩ := sample_reachable refused_run
  have hclaim := hall c hreach "eip155:84532" 0 1 rfl
  rw [hstore] at hclaim
  obtain ⟨credit, hcredit, -⟩ := hclaim rfl sampleLog (by decide) (by decide) (by decide)
    ⟨"0xabc", 0, "0xaa", "0xbb", 5, 1⟩ rfl (by decide) (by decide)
  cases hcredit

end Motebit.Deposit
