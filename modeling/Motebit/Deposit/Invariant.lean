/-
  Motebit.Deposit.Invariant — WHAT EVERY STATEMENT OF A CYCLE KEEPS.

  The books and the dedup table agree: for each log key, the ledger rows posted under its
  reference are the credits of the dedup rows with that key, and no key has two rows.  Every
  dedup row is a settled Transfer to a registered wallet.  And behind the cursor nothing was
  skipped: each block from the first cursor up to it lies in the range of a cycle that
  finished, and a finished cycle handled every log of its range.

  Nothing a cycle knows is ever undone (`Persists`), so that whatever it has seen stays true
  however the others run.

  Main results: `Inv.onDeposit`, `Inv.setCursor`, `Inv.env`, `depositReference_inj`.
-/

import Motebit.Deposit.Model

namespace Motebit.Deposit

open Motebit.Lib List Function
open Motebit.Accounts

variable {confirmations : String → Nat} {first : String → Option Nat} {s s' : Store}

/-! ## §1. References and numbers -/

theorem append_sep_inj {α : Type} {x : α} {a b d d' : List α} (hd : x ∉ d) (hd' : x ∉ d')
    (h : a ++ x :: d = b ++ x :: d') : a = b ∧ d = d' := by
  rcases append_eq_append_iff.mp h with ⟨r, rfl, hr⟩ | ⟨r, rfl, hr⟩
  · -- a longer second word would leave the separator inside `d`
    cases r with
    | nil =>
      simp only [nil_append, List.cons.injEq, true_and] at hr
      exact ⟨(append_nil a).symm, hr⟩
    | cons y ys =>
      simp only [cons_append, List.cons.injEq] at hr
      exact absurd (hr.2 ▸ mem_append_right ys mem_cons_self) hd
  · cases r with
    | nil =>
      simp only [nil_append, List.cons.injEq, true_and] at hr
      exact ⟨append_nil b, hr.symm⟩
    | cons y ys =>
      simp only [cons_append, List.cons.injEq] at hr
      exact absurd (hr.2 ▸ mem_append_right ys mem_cons_self) hd'

theorem hyphen_notMem_digits (n : Nat) : '-' ∉ Nat.toDigits 10 n := by
  intro h
  have hdigit := Nat.isDigit_of_mem_toDigits (by decide) (by decide) h
  cases hdigit

theorem toDigits_inj {m n : Nat} (h : Nat.toDigits 10 m = Nat.toDigits 10 n) : m = n := by
  have hm := Nat.ofDigitChars_toDigits (b := 10) (n := m) (by decide) (by decide)
  have hn := Nat.ofDigitChars_toDigits (b := 10) (n := n) (by decide) (by decide)
  rw [← hm, h, hn]

/-- **A ledger reference names its log.** -/
theorem depositReference_inj {tx tx' : String} {i i' : Nat}
    (h : depositReference tx i = depositReference tx' i') : tx = tx' ∧ i = i' := by
  have hlist := congrArg String.toList h
  unfold depositReference at hlist
  simp only [String.toList_append, append_assoc, append_cancel_left_eq] at hlist
  have hrepr : ∀ n : Nat, (toString n).toList = Nat.toDigits 10 n := fun n => Nat.toList_repr
  have hsep : "-".toList = ['-'] := rfl
  rw [hrepr, hrepr, hsep] at hlist
  obtain ⟨htx, hi⟩ := append_sep_inj (hyphen_notMem_digits i) (hyphen_notMem_digits i') hlist
  exact ⟨String.toList_inj.mp htx, toDigits_inj hi⟩

theorem number_pos {v : Nat} (h : 0 < v) : 0 < number v := by
  unfold number
  have hulp : 0 < 2 ^ (v.log2 - 52) := Nat.two_pow_pos _
  have hle : 2 ^ (v.log2 - 52) ≤ v :=
    Nat.le_trans (Nat.pow_le_pow_right (by decide) (Nat.sub_le _ _)) (Nat.log2_self_le (by omega))
  have hdown : 0 < v / 2 ^ (v.log2 - 52) := Nat.div_pos hle hulp
  simp only
  split
  · exact Nat.mul_pos hdown hulp
  · exact Nat.mul_pos (Nat.succ_pos _) hulp

example : number (2 ^ 53 + 1) = 2 ^ 53 := by decide

/-! ## §2. The invariant -/

/-- A log that no node will ever show otherwise. -/
def Settled (confirmations : String → Nat) (s : Store) (chain : String) (raw : TransferLog) :
    Prop :=
  raw ∈ (s.chains chain).logs ∧
    raw.blockNumber ≤ (s.chains chain).head - confirmations chain

/-- The ledger rows posted under a log's reference. -/
def Store.creditsUnder (s : Store) (key : String × Nat) : List AccountTransaction :=
  s.books.transactions.filter fun row => row.referenceId == some (depositReference key.1 key.2)

def Store.rowsOf (s : Store) (key : String × Nat) : List DepositRow :=
  s.depositLog.filter fun row => row.key == key

/-- What a ledger row says of a deposit, and what a dedup row does. -/
def creditOf (row : AccountTransaction) : String × TransactionType × Int :=
  (row.motebitId, row.type, row.amount)

def DepositRow.credit (row : DepositRow) : String × TransactionType × Int :=
  (row.agentId, .deposit, (number row.amount : Int))

def Real (confirmations : String → Nat) (s : Store) (row : DepositRow) : Prop :=
  ∃ raw log w, Settled confirmations s row.chain raw ∧ decodeTransfer raw = .ok log ∧
    0 < log.value ∧ w ∈ s.wallets ∧ toLowerCase w.address = log.toAddress ∧
    row = ⟨raw.txHash, raw.logIndex, w.agentId, log.fromAddress, log.value, row.chain,
      raw.blockNumber⟩

/-- The log needs no further work: not an agent's, without value, already recorded, or its
    credit was refused. -/
def Handled (s : Store) (chain : String) (wallets : List KnownWallet) (raw : TransferLog) : Prop :=
  ∀ log, decodeTransfer raw = .ok log → 0 < log.value → agentOf wallets log.toAddress ≠ none →
    (∃ row ∈ s.depositLog, row.key = raw.key) ∨ (chain, raw) ∈ s.warned

/-- Every block after `low`, up to `high`, was scanned by a finished cycle. -/
def Covered (s : Store) (chain : String) (low high : Nat) : Prop :=
  ∀ b, low < b → b ≤ high →
    ∃ scan ∈ s.scans, scan.chain = chain ∧ scan.fromBlock ≤ b ∧ b ≤ scan.toBlock

/-- Everything behind the first cursor's successor is covered up to `high`. -/
def CoveredFrom (first : String → Option Nat) (s : Store) (chain : String) (high : Nat) : Prop :=
  ∃ low, first chain = some low ∧ Covered s chain low high

/-- The range of a finished scan is settled and handled. -/
structure ScanDone (confirmations : String → Nat) (s : Store) (scan : Scan) : Prop where
  settled : scan.toBlock ≤ (s.chains scan.chain).head - confirmations scan.chain
  wallets : ∀ w ∈ scan.wallets, w ∈ s.wallets
  handled : ∀ raw ∈ (s.chains scan.chain).range scan.fromBlock scan.toBlock,
    Handled s scan.chain scan.wallets raw

structure Inv (confirmations : String → Nat) (first : String → Option Nat) (s : Store) :
    Prop where
  books : ∀ key, (s.creditsUnder key).map creditOf = (s.rowsOf key).map DepositRow.credit
  once : (s.depositLog.map DepositRow.key).Nodup
  real : ∀ row ∈ s.depositLog, Real confirmations s row
  named : ∀ w ∈ s.wallets, w.agentId ≠ ""
  scans : ∀ scan ∈ s.scans, ScanDone confirmations s scan
  cursors : ∀ chain cursor, s.cursors chain = some cursor → CoveredFrom first s chain cursor

/-! ## §3. Nothing is undone -/

/-- What every step leaves standing. -/
structure Persists (confirmations : String → Nat) (s s' : Store) : Prop where
  depositLog : ∀ row ∈ s.depositLog, row ∈ s'.depositLog
  warned : ∀ x ∈ s.warned, x ∈ s'.warned
  scans : ∀ scan ∈ s.scans, scan ∈ s'.scans
  wallets : ∀ w ∈ s.wallets, w ∈ s'.wallets
  head : ∀ chain, (s.chains chain).head ≤ (s'.chains chain).head
  range : ∀ chain fromBlock toBlock, toBlock ≤ (s.chains chain).head - confirmations chain →
    (s'.chains chain).range fromBlock toBlock = (s.chains chain).range fromBlock toBlock

theorem Persists.refl (s : Store) : Persists confirmations s s :=
  ⟨fun _ h => h, fun _ h => h, fun _ h => h, fun _ h => h, fun _ => Nat.le_refl _,
    fun _ _ _ _ => rfl⟩

variable {raw : TransferLog}

theorem mem_range {c : EvmChain} {fromBlock toBlock : Nat} : raw ∈ c.range fromBlock toBlock ↔
      raw ∈ c.logs ∧ fromBlock ≤ raw.blockNumber ∧ raw.blockNumber ≤ toBlock := by
  unfold EvmChain.range
  simp only [mem_filter, Bool.and_eq_true, decide_eq_true_eq]

variable {chain : String}

theorem Settled.persists (h : Settled confirmations s chain raw)
    (hp : Persists confirmations s s') : Settled confirmations s' chain raw := by
  obtain ⟨hmem, hle⟩ := h
  have hin : raw ∈ (s.chains chain).range 0 ((s.chains chain).head - confirmations chain) :=
    mem_range.mpr ⟨hmem, Nat.zero_le _, hle⟩
  rw [← hp.range chain 0 _ (Nat.le_refl _)] at hin
  refine ⟨(mem_range.mp hin).1, ?_⟩
  have hhead := hp.head chain
  omega

variable {wallets : List KnownWallet}

theorem Handled.persists (h : Handled s chain wallets raw) (hp : Persists confirmations s s') :
    Handled s' chain wallets raw := by
  intro log hlog hpos hagent
  rcases h log hlog hpos hagent with ⟨row, hrow, hkey⟩ | hw
  · exact .inl ⟨row, hp.depositLog row hrow, hkey⟩
  · exact .inr (hp.warned _ hw)

theorem CoveredFrom.persists {high : Nat} (h : CoveredFrom first s chain high)
    (hp : Persists confirmations s s') : CoveredFrom first s' chain high := by
  obtain ⟨low, hfirst, hcov⟩ := h
  refine ⟨low, hfirst, fun b hlow hhigh => ?_⟩
  obtain ⟨scan, hscan, hin⟩ := hcov b hlow hhigh
  exact ⟨scan, hp.scans scan hscan, hin⟩

theorem Real.persists {row : DepositRow} (h : Real confirmations s row)
    (hp : Persists confirmations s s') : Real confirmations s' row := by
  obtain ⟨raw, log, w, hset, hdec, hpos, hw, haddr, hrow⟩ := h
  exact ⟨raw, log, w, hset.persists hp, hdec, hpos, hp.wallets w hw, haddr, hrow⟩

theorem ScanDone.persists {scan : Scan} (h : ScanDone confirmations s scan)
    (hp : Persists confirmations s s') : ScanDone confirmations s' scan where
  settled := by
    have hle := h.settled
    have hhead := hp.head scan.chain
    omega
  wallets w hw := hp.wallets w (h.wallets w hw)
  handled raw hraw := by
    rw [hp.range scan.chain _ _ h.settled] at hraw
    exact (h.handled raw hraw).persists hp

/-! ## §4. One lemma for each write -/

theorem hasProcessedLog_iff {txHash : String} {logIndex : Nat} :
    s.hasProcessedLog txHash logIndex = true ↔
      ∃ row ∈ s.depositLog, row.key = (txHash, logIndex) := by
  unfold Store.hasProcessedLog DepositRow.key
  simp only [any_eq_true, Bool.and_eq_true, beq_iff_eq, Prod.mk.injEq]

variable {d : DetectedDeposit} {u : Unit}

/-- **What the callback can do**: nothing for an amount of zero, else credit and record. -/
theorem onDeposit_cases (h : s.onDeposit d = .ok (u, s')) :
    (number d.amountOnchain = 0 ∧ s' = s) ∨
    ((∀ row ∈ s.depositLog, row.key ≠ (d.txHash, d.logIndex)) ∧ ∃ description, s' = { s with
        books := (s.books.credit d.motebitId (number d.amountOnchain) .deposit
          (some (depositReference d.txHash d.logIndex)) (some description) none).2
        depositLog := s.depositLog ++ [⟨d.txHash, d.logIndex, d.motebitId, d.fromAddress,
          d.amountOnchain, d.chain, d.blockNumber⟩] }) := by
  unfold Store.onDeposit at h
  simp only [usdcOnchainToMicro, Nat.mul_one] at h
  split at h
  · next hzero =>
    cases h
    exact .inl ⟨Nat.le_zero.mp hzero, rfl⟩
  · split at h
    · cases h
    split at h
    · cases h
    next hnew =>
    cases h
    refine .inr ⟨fun row hrow hkey => hnew ?_, _, rfl⟩
    exact hasProcessedLog_iff.mpr ⟨row, hrow, hkey⟩

section

variable (h : Inv confirmations first s)
include h

/-- **A credit** of a settled Transfer that is not recorded yet. -/
theorem Inv.onDeposit
    (hreal : Real confirmations s ⟨d.txHash, d.logIndex, d.motebitId, d.fromAddress,
      d.amountOnchain, d.chain, d.blockNumber⟩) (hok : s.onDeposit d = .ok (u, s')) :
    Inv confirmations first s' ∧ Persists confirmations s s' ∧
      (0 < d.amountOnchain → ∃ row ∈ s'.depositLog, row.key = (d.txHash, d.logIndex)) := by
  rcases onDeposit_cases hok with ⟨hzero, rfl⟩ | ⟨hnew, description, rfl⟩
  · refine ⟨h, .refl _, fun hpos => ?_⟩
    have hnum := number_pos hpos
    omega
  · have hp : Persists confirmations s { s with
        books := (s.books.credit d.motebitId (number d.amountOnchain) .deposit
          (some (depositReference d.txHash d.logIndex)) (some description) none).2
        depositLog := s.depositLog ++ [⟨d.txHash, d.logIndex, d.motebitId, d.fromAddress,
          d.amountOnchain, d.chain, d.blockNumber⟩] } :=
      { Persists.refl s with depositLog := fun row hrow => mem_append_left _ hrow }
    refine ⟨⟨fun key => ?_, ?_, fun row hrow => ?_, h.named,
      fun scan hscan => (h.scans scan hscan).persists hp,
      fun chain cursor hc => (h.cursors chain cursor hc).persists hp⟩, hp, fun _ => ?_⟩
    · have hbooks := h.books key
      unfold Store.creditsUnder Store.rowsOf at hbooks ⊢
      simp only [Books.transactions_credit, filter_append, map_append, hbooks]
      congr 1
      by_cases hkey : key = (d.txHash, d.logIndex)
      · subst hkey
        simp [DepositRow.key, creditOf, DepositRow.credit]
      · have href : depositReference d.txHash d.logIndex ≠ depositReference key.1 key.2 := by
          intro heq
          obtain ⟨htx, hi⟩ := depositReference_inj heq
          exact hkey (Prod.ext htx.symm hi.symm)
        have hkey' : ¬ (d.txHash, d.logIndex) = key := fun heq => hkey heq.symm
        simp [DepositRow.key, href, hkey']
    · rw [map_append, map_singleton, nodup_append]
      refine ⟨h.once, nodup_singleton _, fun k hk k' hk' heq => ?_⟩
      rw [mem_singleton] at hk'
      subst hk' heq
      obtain ⟨row, hrow, hrk⟩ := mem_map.mp hk
      exact hnew row hrow hrk
    · rcases mem_append.mp hrow with hold | hadded
      · exact (h.real row hold).persists hp
      · rw [mem_singleton] at hadded
        subst hadded
        exact hreal.persists hp
    · exact ⟨_, mem_append_right _ (mem_singleton.mpr rfl), rfl⟩

theorem Inv.keep (hp : Persists confirmations s s')
    (hbooks : ∀ key, s'.creditsUnder key = s.creditsUnder key)
    (hlog : s'.depositLog = s.depositLog) (hnamed : ∀ w ∈ s'.wallets, w.agentId ≠ "")
    (hscans : s'.scans = s.scans) (hcursors : s'.cursors = s.cursors) :
    Inv confirmations first s' where
  books key := by
    have hrows : s'.rowsOf key = s.rowsOf key := by
      unfold Store.rowsOf
      rw [hlog]
    rw [hbooks, hrows]
    exact h.books key
  once := hlog ▸ h.once
  real row hrow := (h.real row (hlog ▸ hrow)).persists hp
  named := hnamed
  scans scan hscan := (h.scans scan (hscans ▸ hscan)).persists hp
  cursors chain cursor hc := by
    rw [hcursors] at hc
    exact (h.cursors chain cursor hc).persists hp

/-- **A refused credit** is logged. -/
theorem Inv.warn (x : String × TransferLog) :
    Inv confirmations first { s with warned := x :: s.warned } ∧
      Persists confirmations s { s with warned := x :: s.warned } := by
  have hp : Persists confirmations s { s with warned := x :: s.warned } :=
    { Persists.refl s with warned := fun y hy => mem_cons_of_mem _ hy }
  exact ⟨h.keep hp (fun _ => rfl) rfl h.named rfl rfl, hp⟩

/-- **The cursor's advance**, after every log of the range was handled. -/
theorem Inv.setCursor {lastBlock toBlock : Nat} (hdone : ScanDone confirmations s
      ⟨chain, lastBlock + 1, toBlock, wallets⟩) (hcov : CoveredFrom first s chain lastBlock)
    (hok : s.setCursor ⟨chain, lastBlock + 1, toBlock, wallets⟩ = .ok (u, s')) :
    Inv confirmations first s' ∧ Persists confirmations s s' := by
  unfold Store.setCursor at hok
  split at hok
  · cases hok
  cases hok
  have hp : Persists confirmations s { s with
      cursors := update s.cursors chain (some toBlock)
      scans := ⟨chain, lastBlock + 1, toBlock, wallets⟩ :: s.scans } :=
    { Persists.refl s with scans := fun scan hscan => mem_cons_of_mem _ hscan }
  refine ⟨⟨h.books, h.once, fun row hrow => (h.real row hrow).persists hp, h.named,
    fun scan hscan => ?_, fun chain' cursor hc => ?_⟩, hp⟩
  · rcases mem_cons.mp hscan with rfl | hold
    · exact hdone.persists hp
    · exact (h.scans scan hold).persists hp
  · change update s.cursors chain (some toBlock) chain' = some cursor at hc
    by_cases hsame : chain' = chain
    · subst hsame
      rw [update_self, Option.some.injEq] at hc
      subst hc
      -- up to `lastBlock` by the older scans, after it by this one
      obtain ⟨low, hfirst, hold⟩ := hcov.persists hp
      refine ⟨low, hfirst, fun b hlow hhigh => ?_⟩
      by_cases hb : b ≤ lastBlock
      · exact hold b hlow hb
      · exact ⟨_, mem_cons_self, rfl, by show lastBlock + 1 ≤ b; omega, hhigh⟩
    · rw [update_of_ne hsame] at hc
      exact (h.cursors chain' cursor hc).persists hp

end

theorem range_of_prefix (c : EvmChain) (f : Nat) {b horizon : Nat} (h : b ≤ horizon) :
    c.range f b = (c.range f horizon).filter fun l => decide (l.blockNumber ≤ b) := by
  unfold EvmChain.range
  rw [filter_filter]
  refine filter_congr fun l _ => ?_
  by_cases hl : l.blockNumber ≤ b
  · have hl' : l.blockNumber ≤ horizon := by omega
    simp [hl, hl']
  · simp [hl]

theorem Env.persists (he : Env confirmations s s') : Persists confirmations s s' := by
  have hrefl : Persists confirmations s s := .refl s
  cases he with
  | grow chain next hhead hsettled =>
    refine { hrefl with head := fun chain' => ?_, range := fun chain' f b hb => ?_ }
    · show (s.chains chain').head ≤ (update s.chains chain next chain').head
      by_cases hc : chain' = chain
      · subst hc
        rw [update_self]
        exact hhead
      · exact Nat.le_of_eq (by rw [update_of_ne hc])
    · show (update s.chains chain next chain').range f b = (s.chains chain').range f b
      by_cases hc : chain' = chain
      · subst hc
        rw [update_self, range_of_prefix next f hb, range_of_prefix (s.chains chain') f hb,
          hsettled f]
      · rw [update_of_ne hc]
  | register => exact { hrefl with wallets := fun w' hw' => mem_append_left _ hw' }
  | freeze | lock | post => exact { hrefl with }

/-- **The environment.** -/
theorem Inv.env (h : Inv confirmations first s) (he : Env confirmations s s') :
    Inv confirmations first s' ∧ Persists confirmations s s' := by
  have hp := he.persists
  refine ⟨?_, hp⟩
  cases he with
  | grow => exact h.keep hp (fun _ => rfl) rfl h.named rfl rfl
  | register w hid =>
    refine h.keep hp (fun _ => rfl) rfl (fun w' hw' => ?_) rfl rfl
    rcases mem_append.mp hw' with hold | hnew
    · exact h.named w' hold
    · rw [mem_singleton.mp hnew]
      exact hid
  | freeze | lock => exact h.keep hp (fun _ => rfl) rfl h.named rfl rfl
  | post books rows hrows hother =>
    refine h.keep hp (fun key => ?_) rfl h.named rfl rfl
    have hnone : rows.filter (fun row => row.referenceId == some (depositReference key.1 key.2)) =
        [] := by
      refine filter_eq_nil_iff.mpr fun row hrow heq => ?_
      exact hother row hrow key.1 key.2 (beq_iff_eq.mp heq)
    unfold Store.creditsUnder
    simp only [hrows, filter_append, hnone, append_nil]

end Motebit.Deposit
