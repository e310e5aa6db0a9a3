/-
  Motebit.Deposit.Progress — DETECTION CATCHES UP.

  A cycle that meets no error starts right after the stored cursor and ends at the safe horizon
  of the head it read, or `maxBlocksPerCycle + 1` blocks further on, whichever comes first; and
  every Transfer in between, to a wallet that was registered, has been credited when the cursor
  is written.  So a cursor that lies `n * (maxBlocksPerCycle + 1)` blocks behind is caught up by
  `n` cycles that read a head that far.

  Main results: `CleanCycle.advance`, `detection_catches_up`.
-/

import Motebit.Deposit.Safety

namespace Motebit.Deposit

open Motebit.Lib List Function
open Motebit.Accounts

variable {confirmations : String → Nat} {first : String → Option Nat} {s₀ s s' s₁ : Store}
  {chain : String} {wallets : List KnownWallet} {raw : TransferLog} {tr : List (Σ r, Resp r)}

/-! ## §1. What the loop leaves alone -/

/-- The ledger holds the credit of a log. -/
def PaidFor (s : Store) (raw : TransferLog) : Prop :=
  ∃ log w, decodeTransfer raw = .ok log ∧ w ∈ s.wallets ∧ toLowerCase w.address = log.toAddress ∧
    ∃ credit ∈ s.books.transactions, credit.type = .deposit ∧
      credit.referenceId = some (depositReference raw.txHash raw.logIndex) ∧
      credit.motebitId = w.agentId ∧ credit.amount = number log.value

/-- Every dedup row is as old as `s₀` or that of a settled log whose credit is on the ledger. -/
def Booked (confirmations : String → Nat) (chain : String) (s₀ s : Store) : Prop :=
  ∀ row ∈ s.depositLog, row ∈ s₀.depositLog ∨
    ∃ raw, Settled confirmations s chain raw ∧ raw.key = row.key ∧ PaidFor s raw

/-- What happens beside the cursor: nothing is undone, cursors and scans stay. -/
structure Beside (confirmations : String → Nat) (s s' : Store) : Prop where
  persists : Persists confirmations s s'
  cursors : s'.cursors = s.cursors
  scans : s'.scans = s.scans
  warned : s.warned <:+ s'.warned
  ledger : ∀ row ∈ s.books.transactions, row ∈ s'.books.transactions
  named : (∀ w ∈ s.wallets, w.agentId ≠ "") → ∀ w ∈ s'.wallets, w.agentId ≠ ""

variable {s₂ : Store}

theorem Persists.trans (h : Persists confirmations s s₁)
    (h' : Persists confirmations s₁ s₂) : Persists confirmations s s₂ where
  depositLog row hrow := h'.depositLog row (h.depositLog row hrow)
  warned x hx := h'.warned x (h.warned x hx)
  scans scan hscan := h'.scans scan (h.scans scan hscan)
  wallets w hw := h'.wallets w (h.wallets w hw)
  head c := Nat.le_trans (h.head c) (h'.head c)
  range c f b hb := by
    have hhead := h.head c
    rw [h'.range c f b (by omega), h.range c f b hb]

theorem Beside.refl (s : Store) : Beside confirmations s s :=
  ⟨.refl s, rfl, rfl, suffix_refl _, fun _ h => h, fun h => h⟩

theorem Beside.trans (h : Beside confirmations s s₁)
    (h' : Beside confirmations s₁ s₂) : Beside confirmations s s₂ :=
  ⟨h.persists.trans h'.persists, h'.cursors.trans h.cursors, h'.scans.trans h.scans,
    h.warned.trans h'.warned, fun row hrow => h'.ledger row (h.ledger row hrow),
    fun hn => h'.named (h.named hn)⟩

theorem Beside.quiet (h : Beside confirmations s s₁)
    (h' : Beside confirmations s₁ s₂) (hq : s₂.warned = s.warned) :
    s₁.warned = s.warned ∧ s₂.warned = s₁.warned := by
  have hle := h.warned.length_le
  have hle' := h'.warned.length_le
  rw [hq] at hle'
  have hsame := h.warned.eq_of_length (by omega)
  exact ⟨hsame.symm, hq.trans hsame⟩

theorem PaidFor.beside (h : PaidFor s raw) (hb : Beside confirmations s s') : PaidFor s' raw := by
  obtain ⟨log, w, hdec, hw, haddr, credit, hcredit, hrest⟩ := h
  exact ⟨log, w, hdec, hb.persists.wallets w hw, haddr, credit, hb.ledger credit hcredit, hrest⟩

theorem Booked.beside (h : Booked confirmations chain s₀ s) (hb : Beside confirmations s s')
    (hlog : s'.depositLog = s.depositLog) : Booked confirmations chain s₀ s' := by
  intro row hrow
  rw [hlog] at hrow
  rcases h row hrow with hold | ⟨raw, hset, hkey, hpaid⟩
  · exact .inl hold
  · exact .inr ⟨raw, hset.persists hb.persists, hkey, hpaid.beside hb⟩

theorem Env.beside (he : Env confirmations s s') :
    Beside confirmations s s' ∧ s'.depositLog = s.depositLog := by
  have hp := Env.persists he
  cases he with
  | register w hid => exact ⟨⟨hp, rfl, rfl, suffix_refl _, fun _ h => h, fun hn w' hw' => by
    rcases mem_append.mp hw' with hold | hnew
    · exact hn w' hold
    · rw [mem_singleton.mp hnew]
      exact hid⟩, rfl⟩
  | grow | freeze | lock => exact ⟨⟨hp, rfl, rfl, suffix_refl _, fun _ h => h, fun h => h⟩, rfl⟩
  | post books rows hrows =>
    refine ⟨⟨hp, rfl, rfl, suffix_refl _, fun row hrow => ?_, fun h => h⟩, rfl⟩
    show row ∈ books.transactions
    rw [hrows]
    exact mem_append_left _ hrow

theorem drift_beside (h : (world confirmations first).Drift s s') :
    Beside confirmations s s' ∧ s'.depositLog = s.depositLog := by
  induction h with
  | refl => exact ⟨.refl s, rfl⟩
  | tail _ he ih =>
    obtain ⟨hb, hlog⟩ := Env.beside he
    exact ⟨ih.1.trans hb, hlog.trans ih.2⟩

/-! ## §2. One cycle -/

/-- Its log is recorded, if it is an agent's and of positive value. -/
def Recorded (s : Store) (wallets : List KnownWallet) (raw : TransferLog) : Prop :=
  ∀ log, decodeTransfer raw = .ok log → 0 < log.value → agentOf wallets log.toAddress ≠ none →
    ∃ row ∈ s.depositLog, row.key = raw.key

theorem Recorded.persists (h : Recorded s wallets raw) (hp : Persists confirmations s s') :
    Recorded s' wallets raw := by
  intro log hdec hpos hagent
  obtain ⟨row, hrow, hkey⟩ := h log hdec hpos hagent
  exact ⟨row, hp.depositLog row hrow, hkey⟩

variable {log : DecodedTransfer}

theorem Booked.onDeposit {d : DetectedDeposit} {u : Unit}
    (h : Booked confirmations chain s₀ s) (hseen : Seen confirmations chain wallets raw s)
    (hdec : decodeTransfer raw = .ok log) (hpos : 0 < log.value)
    (hagent : agentOf wallets log.toAddress = some d.motebitId)
    (hd : d.amountOnchain = log.value ∧ d.txHash = raw.txHash ∧ d.logIndex = raw.logIndex)
    (hok : s.onDeposit d = .ok (u, s')) :
    Beside confirmations s s' ∧ Booked confirmations chain s₀ s' ∧
      ∃ row ∈ s'.depositLog, row.key = raw.key := by
  obtain ⟨hvalue, htx, hidx⟩ := hd
  rcases onDeposit_cases hok with ⟨hzero, -⟩ | ⟨-, description, hs'⟩
  · rw [hvalue] at hzero
    have hnum := number_pos hpos
    omega
  · rw [hvalue, htx, hidx] at hs'
    have hb : Beside confirmations s s' := by
      subst hs'
      refine ⟨{ Persists.refl s with
        depositLog := fun row hrow => mem_append_left _ hrow }, rfl, rfl,
        suffix_refl _, fun row hrow => ?_, fun h => h⟩
      show row ∈ (Books.credit ..).2.transactions
      rw [Books.transactions_credit]
      exact mem_append_left _ hrow
    have hpaid : PaidFor s' raw := by
      obtain ⟨w, hw, hid, haddr⟩ := wallet_of_agentOf hagent
      refine ⟨log, w, hdec, hb.persists.wallets w (hseen.2 w hw), haddr, ?_⟩
      subst hs'
      exact ⟨_, mem_append_right _ (mem_singleton.mpr rfl), rfl, rfl, hid.symm, rfl⟩
    refine ⟨hb, fun row hrow => ?_, ?_⟩
    · have hcases : row ∈ s.depositLog ∨ row.key = raw.key := by
        subst hs'
        rcases mem_append.mp hrow with hold | hnew
        · exact .inl hold
        · rw [mem_singleton.mp hnew]
          exact .inr rfl
      rcases hcases with hold | hnew
      · rcases h row hold with hold | ⟨raw', hset, hkey, hpaid'⟩
        · exact .inl hold
        · exact .inr ⟨raw', hset.persists hb.persists, hkey, hpaid'.beside hb⟩
      · exact .inr ⟨raw, hseen.1.persists hb.persists, hnew.symm, hpaid⟩
    · subst hs'
      exact ⟨_, mem_append_right _ (mem_singleton.mpr rfl), rfl⟩

variable {n maxBlocksPerCycle : Nat}

/-- **One credit** of a run that logs no refusal. -/
theorem tryOnDeposit_runs {motebitId : String}
    (h : Runs (world confirmations first) (tryOnDeposit chain raw log motebitId).run s tr
      (.ok n) s') (hseen : Seen confirmations chain wallets raw s)
    (hbook : Booked confirmations chain s₀ s) (hdec : decodeTransfer raw = .ok log)
    (hpos : 0 < log.value) (hagent : agentOf wallets log.toAddress = some motebitId) :
    Beside confirmations s s' ∧ Booked confirmations chain s₀ s' ∧ tr = [] ∧
      (s'.warned = s.warned → ∃ row ∈ s'.depositLog, row.key = raw.key) := by
  obtain ⟨htx, hidx, -, -⟩ := decodeTransfer_key hdec
  rcases runs_tryCatch h with ⟨a, hx, -⟩ | ⟨e, s₁, tr₁, tr₂, hx, hh, rfl⟩
  · rcases runs_bind hx with ⟨u, s₁, tr₁, tr₂, hcredit, hp, rfl⟩ | ⟨e, -, hr⟩
    · obtain ⟨s₂, hd₂, rfl, ⟨u', s₃, hok, -, hd₃⟩ | ⟨e, -, hr, -⟩⟩ := runs_txn hcredit
      · obtain ⟨rfl, -, hd₄⟩ := runs_pure hp
        obtain ⟨hb₂, hlog₂⟩ := drift_beside hd₂
        obtain ⟨hb₃, hbook₃, hrow⟩ := Booked.onDeposit (hbook.beside hb₂ hlog₂)
          (hseen.persists hb₂.persists) hdec hpos hagent ⟨rfl, htx, hidx⟩ hok
        obtain ⟨hb₄, hlog₄⟩ := drift_beside (hd₃.trans hd₄)
        refine ⟨(hb₂.trans hb₃).trans hb₄, hbook₃.beside hb₄ hlog₄, rfl, fun _ => ?_⟩
        rw [hlog₄]
        exact hrow
      · cases hr
    · cases hr
  · -- the credit threw and changed nothing; the refusal is logged
    have hthrew : tr₁ = [] ∧ (world confirmations first).Drift s s₁ := by
      rcases runs_bind hx with ⟨u, s₂, tr₃, tr₄, -, hp, -⟩ | ⟨e', hcredit, -⟩
      · obtain ⟨-, hr, -⟩ := runs_pure hp
        cases hr
      · obtain ⟨s₂, hd₂, htr, ⟨u', s₃, -, hr, -⟩ | ⟨e'', -, -, hd₃⟩⟩ := runs_txn hcredit
        · cases hr
        · exact ⟨htr, hd₂.trans hd₃⟩
    obtain ⟨rfl, hd₁⟩ := hthrew
    obtain ⟨s₂, hd₂, rfl, -, hd₃⟩ := runs_act hh
    obtain ⟨hb₂, hlog₂⟩ := drift_beside (hd₁.trans hd₂)
    obtain ⟨hb₃, hlog₃⟩ := drift_beside hd₃
    have hwarn : Beside confirmations s₂ { s₂ with warned := (chain, raw) :: s₂.warned } :=
      ⟨{ Persists.refl s₂ with warned := fun y hy => mem_cons_of_mem _ hy }, rfl, rfl,
        suffix_cons _ _, fun _ h => h, fun h => h⟩
    refine ⟨(hb₂.trans hwarn).trans hb₃,
      ((hbook.beside hb₂ hlog₂).beside hwarn rfl).beside hb₃ hlog₃, rfl, fun hquiet => ?_⟩
    have hle := hb₂.warned.length_le
    have hle' := hb₃.warned.length_le
    rw [hquiet] at hle'
    simp only [length_cons] at hle'
    omega

/-- **One log** of a run that logs no refusal. -/
theorem creditLog_runs
    (h : Runs (world confirmations first) (creditLog chain wallets raw).run s tr (.ok n) s')
    (hseen : Seen confirmations chain wallets raw s) (hbook : Booked confirmations chain s₀ s) :
    Beside confirmations s s' ∧ Booked confirmations chain s₀ s' ∧ tr = [] ∧
      (s'.warned = s.warned → Recorded s' wallets raw) := by
  unfold creditLog at h
  cases hdec : decodeTransfer raw with rw [hdec] at h
  | error =>
    obtain ⟨-, hr, -⟩ := runs_throw h
    cases hr
  | ok log =>
    dsimp only at h
    obtain ⟨htx, hidx, -, -⟩ := decodeTransfer_key hdec
    have hsame : ∀ {log'}, decodeTransfer raw = .ok log' → log' = log := by
      intro log' hlog'
      rw [hdec] at hlog'
      exact (Except.ok.inj hlog').symm
    cases hagent : agentOf wallets log.toAddress with rw [hagent] at h
    | none =>
      obtain ⟨htr, -, hd⟩ := runs_pure h
      obtain ⟨hb, hlog⟩ := drift_beside hd
      refine ⟨hb, hbook.beside hb hlog, htr, fun _ log' hlog' _ hne => ?_⟩
      rw [hsame hlog', hagent] at hne
      exact absurd rfl hne
    | some =>
      rcases runs_bind h with ⟨processed, s₂, tr₁, tr₂, hx, hg, rfl⟩ | ⟨e, -, hr⟩
      · -- the dedup check, then the branch it decides
        obtain ⟨s₁, hd₁, rfl, hproc, hd₂⟩ := runs_act hx
        obtain ⟨hb, hlog⟩ := drift_beside (hd₁.trans hd₂)
        obtain ⟨-, hlog₂⟩ := drift_beside hd₂
        have hbook₂ := hbook.beside hb hlog
        split at hg
        · next hyes =>
          obtain ⟨htr, -, hd₃⟩ := runs_pure hg
          obtain ⟨hb₃, hlog₃⟩ := drift_beside hd₃
          refine ⟨hb.trans hb₃, hbook₂.beside hb₃ hlog₃, htr, fun _ log' _ _ _ => ?_⟩
          rw [hyes] at hproc
          obtain ⟨row, hrow, hkey⟩ := hasProcessedLog_iff.mp (Except.ok.inj hproc).symm
          rw [hlog₃, hlog₂]
          refine ⟨row, hrow, ?_⟩
          rw [hkey, htx, hidx]
          rfl
        · split at hg
          · obtain ⟨htr, -, hd₃⟩ := runs_pure hg
            obtain ⟨hb₃, hlog₃⟩ := drift_beside hd₃
            refine ⟨hb.trans hb₃, hbook₂.beside hb₃ hlog₃, htr, fun _ log' hlog' hpos => ?_⟩
            rw [hsame hlog'] at hpos
            omega
          · obtain ⟨hb₃, hbook₃, htr, hrec⟩ := tryOnDeposit_runs hg
              (hseen.persists hb.persists) hbook₂ hdec (by omega) hagent
            refine ⟨hb.trans hb₃, hbook₃, htr, fun hquiet log' _ _ _ => ?_⟩
            exact hrec (hb.quiet hb₃ hquiet).2
      · cases hr

/-- **The loop** of a run that logs no refusal. -/
theorem creditLogs_runs {raws : List TransferLog} {detected : Nat}
    (h : Runs (world confirmations first) (creditLogs chain wallets raws detected).run s tr
      (.ok n) s') (hseen : ∀ raw ∈ raws, Seen confirmations chain wallets raw s)
    (hbook : Booked confirmations chain s₀ s) :
    Beside confirmations s s' ∧ Booked confirmations chain s₀ s' ∧ tr = [] ∧
      (s'.warned = s.warned → ∀ raw ∈ raws, Recorded s' wallets raw) := by
  induction raws generalizing s tr detected with
  | nil =>
    obtain ⟨htr, -, hd⟩ := runs_pure h
    obtain ⟨hb, hlog⟩ := drift_beside hd
    exact ⟨hb, hbook.beside hb hlog, htr, nofun⟩
  | cons raw raws ih =>
    rcases runs_bind h with ⟨k, s₁, tr₁, tr₂, hx, hg, rfl⟩ | ⟨e, -, hr⟩
    · obtain ⟨hb₁, hbook₁, rfl, hrec₁⟩ := creditLog_runs hx (hseen raw mem_cons_self) hbook
      obtain ⟨hb₂, hbook₂, rfl, hrec₂⟩ := ih hg
        (fun r hr => (hseen r (mem_cons_of_mem _ hr)).persists hb₁.persists) hbook₁
      refine ⟨hb₁.trans hb₂, hbook₂, rfl, fun hquiet r hr => ?_⟩
      obtain ⟨hq₁, hq₂⟩ := hb₁.quiet hb₂ hquiet
      rcases mem_cons.mp hr with rfl | hr
      · exact (hrec₁ hq₁).persists hb₂.persists
      · exact hrec₂ hq₂ r hr
    · cases hr

/-- A scan of the blocks after `lastBlock`, up to `toBlock`, that ended in its cursor write. -/
structure Scanned (confirmations : String → Nat) (chain : String) (lastBlock toBlock : Nat)
    (s₀ s s' : Store) : Prop where
  persists : Persists confirmations s s'
  ledger : ∀ row ∈ s.books.transactions, row ∈ s'.books.transactions
  named : (∀ w ∈ s.wallets, w.agentId ≠ "") → ∀ w ∈ s'.wallets, w.agentId ≠ ""
  booked : Booked confirmations chain s₀ s'
  cursor : s'.cursors chain = some toBlock
  settled : toBlock ≤ (s'.chains chain).head - confirmations chain
  scan : ∃ wallets, s'.scans = ⟨chain, lastBlock + 1, toBlock, wallets⟩ :: s.scans ∧
    (∀ w ∈ s.wallets, w ∈ wallets) ∧ (∀ w ∈ wallets, w ∈ s'.wallets) ∧
    ∀ raw ∈ (s'.chains chain).range (lastBlock + 1) toBlock, Recorded s' wallets raw

/-- **The cursor write** that ends a cycle, once every log of the range is recorded. -/
theorem setCursor_runs {lastBlock toBlock k : Nat} (h : Runs (world confirmations first) (do
      Task.txn fun s => s.setCursor ⟨chain, lastBlock + 1, toBlock, wallets⟩
      pure k : DepositTask Nat).run s₁ tr (.ok n) s') (hb : Beside confirmations s s₁)
    (hbook : Booked confirmations chain s₀ s₁)
    (hset : toBlock ≤ (s₁.chains chain).head - confirmations chain)
    (hknown : ∀ w ∈ s.wallets, w ∈ wallets) (hread : ∀ w ∈ wallets, w ∈ s₁.wallets)
    (hrec : s'.warned = s₁.warned →
      ∀ raw ∈ (s₁.chains chain).range (lastBlock + 1) toBlock, Recorded s₁ wallets raw)
    (hquiet : s'.warned = s.warned) : Scanned confirmations chain lastBlock toBlock s₀ s s' := by
  rcases runs_bind h with ⟨u, s₂, tr₁, tr₂, hcur, hp, -⟩ | ⟨e, -, hr⟩
  · obtain ⟨s₃, hd₃, -, ⟨u', s₄, hok, -, hd₄⟩ | ⟨e, -, hr, -⟩⟩ := runs_txn hcur
    · obtain ⟨-, -, hd₂⟩ := runs_pure hp
      obtain ⟨hb₃, hlog₃⟩ := drift_beside hd₃
      obtain ⟨hb', hlog'⟩ := drift_beside (hd₄.trans hd₂)
      unfold Store.setCursor at hok
      split at hok
      · cases hok
      cases hok
      have hp : Persists confirmations s₃ { s₃ with
          cursors := update s₃.cursors chain (some toBlock)
          scans := ⟨chain, lastBlock + 1, toBlock, wallets⟩ :: s₃.scans } :=
        { Persists.refl s₃ with scans := fun scan hscan => mem_cons_of_mem _ hscan }
      have hafter := hb₃.persists.trans (hp.trans hb'.persists)
      have hhead := hafter.head chain
      -- nothing was logged on the way, so that the logs before the write are recorded
      have hsame : s'.warned = s₁.warned := by
        have h₁ := hb.warned.length_le
        have h₂ := hb₃.warned.length_le
        have h₃ := hb'.warned.length_le
        rw [hquiet] at h₃
        have heq := hb.warned.eq_of_length (by dsimp only at h₃; omega)
        rw [hquiet, heq]
      refine ⟨hb.persists.trans hafter,
        fun row hrow => hb'.ledger row ((hb.trans hb₃).ledger row hrow),
        fun hn => hb'.named ((hb.trans hb₃).named hn), ?_, ?_, by omega, wallets, ?_, hknown,
        fun w hw => hafter.wallets w (hread w hw), fun raw hraw => ?_⟩
      · refine Booked.beside (fun row hrow => ?_) hb' hlog'
        rcases hbook.beside hb₃ hlog₃ row hrow with hold | ⟨raw, hraw, hkey, hpaid⟩
        · exact .inl hold
        · exact .inr ⟨raw, hraw, hkey, hpaid⟩
      · rw [hb'.cursors]
        exact update_self ..
      · rw [hb'.scans, ← (hb.trans hb₃).scans]
      · rw [hafter.range chain _ _ hset] at hraw
        exact (hrec hsame raw hraw).persists hafter
    · cases hr
  · cases hr

/-- **The scanning half** of a run without an error. -/
theorem scanRange_runs {lastBlock toBlock : Nat} {start : Store}
    (h : Runs (world confirmations first) (scanRange chain lastBlock toBlock).run start tr
      (.ok n) s') (hstart : Beside confirmations s start)
    (hset : toBlock ≤ (start.chains chain).head - confirmations chain)
    (hbook : Booked confirmations chain s₀ start)
    (hlogs : ∀ f b, (⟨.getTransferLogs chain f b, none⟩ : Σ r, Resp r) ∉ tr)
    (hquiet : s'.warned = s.warned) : Scanned confirmations chain lastBlock toBlock s₀ s s' := by
  rcases runs_bind h with ⟨wallets, s₁, tr₁, tr₂, hx, hg, rfl⟩ | ⟨e, -, hr⟩
  · obtain ⟨s₂, hd₂, rfl, hw, hd₁⟩ := runs_act hx
    obtain ⟨hb₂, -⟩ := drift_beside hd₂
    obtain ⟨hb₁, -⟩ := drift_beside hd₁
    obtain ⟨hb, hlog⟩ := drift_beside (hd₂.trans hd₁)
    obtain rfl : wallets = s₂.wallets := Except.ok.inj hw
    have hhead := hb.persists.head chain
    have hknown := (hstart.trans hb₂).persists.wallets
    split at hg
    · next hempty =>
      refine setCursor_runs hg (hstart.trans hb) (hbook.beside hb hlog) (by omega) hknown
        hb₁.persists.wallets (fun _ raw _ log _ _ hagent => ?_) hquiet
      -- with no wallets there is nothing to record
      rw [length_eq_zero_iff.mp hempty] at hagent
      exact absurd rfl hagent
    · rcases runs_bind hg with ⟨answer, s₃, tr₃, tr₄, hask, hg', rfl⟩ | ⟨e, -, hr⟩
      · obtain ⟨s₄, x, s₅, hd₄, ha, hd₅, rfl, hx'⟩ := runs_ask hask
        obtain rfl : answer = x := Except.ok.inj hx'
        obtain ⟨rfl, htrue⟩ := ha
        cases answer with
        | none => exact absurd (by simp) (hlogs (lastBlock + 1) toBlock)
        | some raws =>
          obtain ⟨hb₄, -⟩ := drift_beside hd₄
          obtain ⟨hb₅, -⟩ := drift_beside hd₅
          obtain ⟨hb₃, hlog₃⟩ := drift_beside (hd₄.trans hd₅)
          have hhead₄ := hb₄.persists.head chain
          have hhead₃ := hb₃.persists.head chain
          have hread := fun w hw => hb₃.persists.wallets w (hb₁.persists.wallets w hw)
          have hraws : raws = (s₃.chains chain).range (lastBlock + 1) toBlock := by
            rw [hb₅.persists.range chain _ _ (by omega)]
            exact htrue raws rfl
          have hseen : ∀ raw ∈ raws, Seen confirmations chain s₂.wallets raw s₃ := by
            intro raw hraw
            rw [hraws] at hraw
            obtain ⟨hmem, -, hle⟩ := mem_range.mp hraw
            exact ⟨⟨hmem, by omega⟩, hread⟩
          rcases runs_bind hg' with ⟨k, s₆, tr₅, tr₆, hloop, hg'', rfl⟩ | ⟨e, -, hr⟩
          · obtain ⟨hb₆, hbook₆, rfl, hrec⟩ := creditLogs_runs hloop hseen
              ((hbook.beside hb hlog).beside hb₃ hlog₃)
            have hhead₆ := hb₆.persists.head chain
            have hb' := hstart.trans (hb.trans hb₃)
            refine setCursor_runs hg'' (hb'.trans hb₆) hbook₆ (by omega) hknown
              (fun w hw => hb₆.persists.wallets w (hread w hw)) (fun hlate raw hraw => ?_) hquiet
            have hq := hb'.quiet hb₆ (hlate.symm.trans hquiet)
            rw [hb₆.persists.range chain _ _ (by omega), ← hraws] at hraw
            exact hrec hq.2 raw hraw
          · cases hr
      · cases hr
  · cases hr

/-! ## §3. Catching up -/

/-- A cycle that read the head `head`, met no RPC error, threw nothing and logged no refused
    credit. -/
def CleanCycle (confirmations : String → Nat) (first : String → Option Nat) (chain : String)
    (maxBlocksPerCycle : Nat) (s : Store) (head : Nat) (s' : Store) : Prop :=
  ∃ tr n, Runs (world confirmations first)
      (detectDeposits (confirmations chain) maxBlocksPerCycle chain).run s
      (⟨.getBlockNumber chain, some head⟩ :: tr) (.ok n) s' ∧
    (∀ f b, (⟨.getTransferLogs chain f b, none⟩ : Σ r, Resp r) ∉ tr) ∧ s'.warned = s.warned

theorem lastOfRange_eq {safeBlock lastBlock : Nat} (h : lastBlock < safeBlock) :
    lastOfRange safeBlock (lastBlock + 1) maxBlocksPerCycle =
      min safeBlock (lastBlock + maxBlocksPerCycle + 1) := by
  unfold lastOfRange
  split <;> omega

variable {head cursor : Nat}

/-- **One cycle without an error**: at the horizon it does nothing, behind it it scans on from
    the cursor. -/
theorem CleanCycle.advance (h : CleanCycle confirmations first chain maxBlocksPerCycle s head s')
    (hcursor : s.cursors chain = some cursor) (hbook : Booked confirmations chain s₀ s) :
    (head - confirmations chain ≤ cursor ∧ Beside confirmations s s' ∧
      Booked confirmations chain s₀ s') ∨
    (cursor < head - confirmations chain ∧ Scanned confirmations chain cursor
      (min (head - confirmations chain) (cursor + maxBlocksPerCycle + 1)) s₀ s s') := by
  obtain ⟨tr, n, hruns, hlogs, hquiet⟩ := h
  rcases runs_bind hruns with ⟨answer, s₁, tr₁, tr₂, hask, hg, htr⟩ | ⟨e, -, hr⟩
  · obtain ⟨s₂, x, s₃, hd₂, ha, hd₃, rfl, hx⟩ := runs_ask hask
    obtain rfl : answer = x := Except.ok.inj hx
    cases htr
    obtain ⟨rfl, hhead⟩ := ha
    obtain ⟨hb₁, hlog₁⟩ := drift_beside (hd₂.trans hd₃)
    have hle : head ≤ (s₁.chains chain).head :=
      Nat.le_trans (hhead head rfl) ((drift_beside hd₃).1.persists.head chain)
    dsimp only at hg
    split at hg
    · -- a chain shallower than its confirmation depth
      obtain ⟨-, -, hd₄⟩ := runs_pure hg
      obtain ⟨hb₄, hlog₄⟩ := drift_beside hd₄
      exact .inl ⟨by omega, hb₁.trans hb₄, (hbook.beside hb₁ hlog₁).beside hb₄ hlog₄⟩
    · rcases runs_bind hg with ⟨last, s₄, tr₃, tr₄, hact, hg', rfl⟩ | ⟨e, -, hr⟩
      · obtain ⟨s₅, hd₅, rfl, hlast, hd₄⟩ := runs_act hact
        obtain ⟨hb₅, -⟩ := drift_beside hd₅
        obtain ⟨hb₄, hlog₄⟩ := drift_beside (hd₅.trans hd₄)
        obtain rfl : last = some cursor := by
          rw [Except.ok.inj hlast, ← hcursor, ← hb₁.cursors, ← hb₅.cursors]
        have hbook₄ := (hbook.beside hb₁ hlog₁).beside hb₄ hlog₄
        have hb := hb₁.trans hb₄
        simp only [Option.getD_some] at hg'
        split at hg'
        · next hcaught =>
          obtain ⟨-, -, hd₆⟩ := runs_pure hg'
          obtain ⟨hb₆, hlog₆⟩ := drift_beside hd₆
          exact .inl ⟨hcaught, hb.trans hb₆, hbook₄.beside hb₆ hlog₆⟩
        · next hbehind =>
          have hlt : cursor < head - confirmations chain := by omega
          rw [lastOfRange_eq hlt] at hg'
          have hhead₄ := hb₄.persists.head chain
          exact .inr ⟨hlt, scanRange_runs hg' hb (by omega) hbook₄ hlogs hquiet⟩
      · cases hr
  · cases hr

/-- Cycles without an error, one after the other, with the heads they read. -/
inductive Cycles (confirmations : String → Nat) (first : String → Option Nat) (chain : String)
    (maxBlocksPerCycle : Nat) : Store → List Nat → Store → Prop
  | nil {s : Store} : Cycles confirmations first chain maxBlocksPerCycle s [] s
  | cons {s s₁ s' : Store} {head : Nat} {heads : List Nat} :
      CleanCycle confirmations first chain maxBlocksPerCycle s head s₁ →
      Cycles confirmations first chain maxBlocksPerCycle s₁ heads s' →
      Cycles confirmations first chain maxBlocksPerCycle s (head :: heads) s'

/-- Scans of `chain`, the newest first, that join up from the block after `low` to `high`. -/
def Contiguous (chain : String) : List Scan → Nat → Nat → Prop
  | [], low, high => low = high
  | scan :: older, low, high => scan.chain = chain ∧ scan.toBlock = high ∧
      ∃ mid, mid < high ∧ scan.fromBlock = mid + 1 ∧ Contiguous chain older low mid

variable {low mid high : Nat}

theorem Contiguous.append {newer older : List Scan}
    (h : Contiguous chain newer mid high) (h' : Contiguous chain older low mid) :
    Contiguous chain (newer ++ older) low high := by
  induction newer generalizing high with
  | nil =>
    obtain rfl : mid = high := h
    exact h'
  | cons scan newer ih =>
    obtain ⟨hchain, hto, m, hm, hfrom, hrest⟩ := h
    exact ⟨hchain, hto, m, hm, hfrom, ih hrest⟩

/-- The facts a sequence of cycles carries: from the cursor `low` of `s` to the cursor `high`
    of `s'`. -/
structure Progress (confirmations : String → Nat) (chain : String) (s₀ s : Store) (low high : Nat)
    (s' : Store) : Prop where
  persists : Persists confirmations s s'
  named : ∀ w ∈ s'.wallets, w.agentId ≠ ""
  booked : Booked confirmations chain s₀ s'
  cursor : s'.cursors chain = some high
  le : low ≤ high
  settled : low < high → high ≤ (s'.chains chain).head - confirmations chain
  scans : ∃ new, s'.scans = new ++ s.scans ∧ Contiguous chain new low high
  recorded : ∀ raw ∈ (s'.chains chain).range (low + 1) high, ∀ log, decodeTransfer raw = .ok log →
    0 < log.value → (∃ w ∈ s.wallets, toLowerCase w.address = log.toAddress) →
    ∃ row ∈ s'.depositLog, row.key = raw.key

/-- **One cycle's progress.** -/
theorem CleanCycle.progress (h : CleanCycle confirmations first chain maxBlocksPerCycle s head s')
    (hcursor : s.cursors chain = some cursor) (hbook : Booked confirmations chain s₀ s)
    (hnamed : ∀ w ∈ s.wallets, w.agentId ≠ "") : Progress confirmations chain s₀ s cursor
      (max cursor (min (head - confirmations chain) (cursor + maxBlocksPerCycle + 1))) s' := by
  rcases h.advance hcursor hbook with ⟨hcaught, hb, hbook'⟩ | ⟨hbehind, hscan⟩
  · rw [Nat.max_eq_left (by omega)]
    refine ⟨hb.persists, hb.named hnamed, hbook', by rw [hb.cursors, hcursor], Nat.le_refl _,
      fun hlt => absurd hlt (Nat.lt_irrefl _), ⟨[], hb.scans, rfl⟩, fun raw hraw => ?_⟩
    -- there is no block after the cursor up to itself
    obtain ⟨-, hfrom, hto⟩ := mem_range.mp hraw
    omega
  · rw [Nat.max_eq_right (by omega)]
    obtain ⟨wallets, hscans, hknown, hread, hrec⟩ := hscan.scan
    refine ⟨hscan.persists, hscan.named hnamed, hscan.booked, hscan.cursor, by omega,
      fun _ => hscan.settled, ⟨[_], hscans, rfl, rfl, cursor, ?_, rfl, rfl⟩,
      fun raw hraw log hdec hpos hwallet => ?_⟩
    · show cursor < min _ _
      omega
    · obtain ⟨w, hw, haddr⟩ := hwallet
      exact hrec raw hraw log hdec hpos (agentOf_ne_none (hknown w hw) haddr
        fun w' hw' => hscan.named hnamed w' (hread w' hw'))

theorem Progress.trans (h : Progress confirmations chain s₀ s low mid s₁)
    (h' : Progress confirmations chain s₀ s₁ mid high s') :
    Progress confirmations chain s₀ s low high s' := by
  have hle := h.le
  have hle' := h'.le
  obtain ⟨new, hnew, hcont⟩ := h.scans
  obtain ⟨new', hnew', hcont'⟩ := h'.scans
  refine ⟨h.persists.trans h'.persists, h'.named, h'.booked, h'.cursor, by omega, fun hlt => ?_,
    ⟨new' ++ new, by rw [hnew', hnew, append_assoc], hcont'.append hcont⟩,
    fun raw hraw log hdec hpos hwallet => ?_⟩
  · by_cases hmid : mid < high
    · exact h'.settled hmid
    · have hset := h.settled (by omega)
      have hhead := h'.persists.head chain
      omega
  · obtain ⟨hmem, hfrom, hto⟩ := mem_range.mp hraw
    by_cases hmid : raw.blockNumber ≤ mid
    · -- scanned before, and settled then already
      have hold : raw ∈ (s₁.chains chain).range (low + 1) mid := by
        rw [← h'.persists.range chain _ _ (h.settled (by omega))]
        exact mem_range.mpr ⟨hmem, hfrom, hmid⟩
      obtain ⟨row, hrow, hkey⟩ := h.recorded raw hold log hdec hpos hwallet
      exact ⟨row, h'.persists.depositLog row hrow, hkey⟩
    · obtain ⟨w, hw, haddr⟩ := hwallet
      exact h'.recorded raw (mem_range.mpr ⟨hmem, by omega, hto⟩) log hdec hpos
        ⟨w, h.persists.wallets w hw, haddr⟩

/-- **A sequence's progress**: as far as the number of its cycles that read a head at least `H`
    carries it, up to `H`'s horizon. -/
theorem Cycles.progress {cursor H : Nat} {heads : List Nat}
    (h : Cycles confirmations first chain maxBlocksPerCycle s heads s')
    (hcursor : s.cursors chain = some cursor) (hbook : Booked confirmations chain s₀ s)
    (hnamed : ∀ w ∈ s.wallets, w.agentId ≠ "") :
    ∃ high, Progress confirmations chain s₀ s cursor high s' ∧
      min (H - confirmations chain)
        (cursor + (heads.countP fun head => decide (H ≤ head)) * (maxBlocksPerCycle + 1)) ≤
        high := by
  induction h generalizing cursor with
  | nil =>
    refine ⟨cursor, ⟨.refl _, hnamed, hbook, hcursor, Nat.le_refl _,
      fun hlt => absurd hlt (Nat.lt_irrefl _), ⟨[], rfl, rfl⟩, fun raw hraw => ?_⟩, ?_⟩
    · obtain ⟨-, hfrom, hto⟩ := mem_range.mp hraw
      omega
    · simp only [countP_nil, Nat.zero_mul]
      omega
  | @cons s s₁ s' head heads hcycle _ ih =>
    have hone := hcycle.progress hcursor hbook hnamed
    obtain ⟨high, hrest, hfar⟩ := ih hone.cursor hone.booked hone.named
    refine ⟨high, hone.trans hrest, ?_⟩
    rw [countP_cons]
    by_cases hH : H ≤ head
    · simp only [hH, decide_true, if_true]
      rw [Nat.add_mul]
      omega
    · simp only [hH, decide_false, Bool.false_eq_true, if_false, Nat.add_zero]
      omega

/-- **Detection catches up.**  Each cycle without an error leaves a stored cursor at the safe
    horizon of its head or `maxBlocksPerCycle + 1` blocks further on.  After a sequence of them
    of which `n` read a head of at least `H`, where `n` steps of that size reach from the stored
    cursor to `H`'s horizon: the scans join up from the old cursor to the new one, the new one is
    at or past that horizon, and every Transfer of positive value between the old cursor and the
    horizon, to a wallet known from the start, was recorded at the start or is paid on the
    ledger. -/
theorem detection_catches_up {maxBlocksPerCycle cursor H : Nat} {heads : List Nat}
    (h : Cycles confirmations first chain maxBlocksPerCycle s heads s')
    (hcursor : s.cursors chain = some cursor) (hnamed : ∀ w ∈ s.wallets, w.agentId ≠ "")
    (hcount : H - confirmations chain - cursor ≤
      (heads.countP fun head => decide (H ≤ head)) * (maxBlocksPerCycle + 1)) :
    (∀ s₁ head s₂ before, CleanCycle confirmations first chain maxBlocksPerCycle s₁ head s₂ →
      s₁.cursors chain = some before → ∃ after, s₂.cursors chain = some after ∧ before ≤ after ∧
        (head - confirmations chain ≤ after ∨ after = before + maxBlocksPerCycle + 1)) ∧
    (∃ cursor' new, s'.cursors chain = some cursor' ∧ H - confirmations chain ≤ cursor' ∧
      s'.scans = new ++ s.scans ∧ Contiguous chain new cursor cursor') ∧
    ∀ raw ∈ (s'.chains chain).logs, cursor < raw.blockNumber →
      raw.blockNumber ≤ H - confirmations chain →
      (∀ raw', Settled confirmations s' chain raw' → raw'.key = raw.key → raw' = raw) →
      ∀ log, decodeTransfer raw = .ok log → 0 < log.value →
      (∃ w ∈ s.wallets, toLowerCase w.address = log.toAddress) →
      (∃ row ∈ s.depositLog, row.key = raw.key) ∨ PaidFor s' raw := by
  obtain ⟨high, hprog, hfar⟩ := h.progress (H := H) hcursor
    (fun row hrow => .inl hrow : Booked confirmations chain s s) hnamed
  have hreach : H - confirmations chain ≤ high := by
    omega
  refine ⟨fun s₁ head s₂ before hcycle hfrom => ?_, ?_,
    fun raw hraw hlow hhigh hkeys log hdec hpos hwallet => ?_⟩
  · -- a store that has a cursor satisfies what one cycle needs, whatever its wallets
    rcases hcycle.advance hfrom (fun row hrow => .inl hrow : Booked confirmations chain s₁ s₁)
      with ⟨hcaught, hb, -⟩ | ⟨hbehind, hscan⟩
    · exact ⟨before, by rw [hb.cursors, hfrom], Nat.le_refl _, .inl hcaught⟩
    · exact ⟨_, hscan.cursor, by omega, by omega⟩
  · obtain ⟨new, hnew, hcont⟩ := hprog.scans
    exact ⟨high, new, hprog.cursor, hreach, hnew, hcont⟩
  · obtain ⟨row, hrow, hkey⟩ := hprog.recorded raw
      (mem_range.mpr ⟨hraw, hlow, Nat.le_trans hhigh hreach⟩) log hdec hpos hwallet
    rcases hprog.booked row hrow with hold | ⟨raw', hset, hkey', hpaid⟩
    · exact .inl ⟨row, hold, hkey⟩
    · rw [hkeys raw' hset (hkey'.trans hkey)] at hpaid
      exact .inr hpaid

/-! ### Two sequences -/

theorem read_answered (chain : String) (fromBlock toBlock : Nat) (logs : List TransferLog) :
    ∀ f b, (⟨.getTransferLogs chain f b, none⟩ : Σ r, Resp r) ∉
      [⟨.getTransferLogs chain fromBlock toBlock, some logs⟩] := by
  intro f b hmem
  cases mem_singleton.mp hmem

theorem sample_cycle :
    CleanCycle (fun _ => 1) sampleFirst "eip155:84532" 1000 sampleStore 2 creditedStore := by
  refine ⟨_, 1, .await ⟨rfl, fun head hhead => ?_⟩ (.atomic (.atomic (answered_read rfl ?_))),
    read_answered "eip155:84532" 1 1 [sampleLog], rfl⟩
  · cases hhead
    decide
  · exact .atomic (.atomic (.atomic .done))

theorem detection_catches_up_sample :
    sampleStore.cursors "eip155:84532" = some 0 ∧ PaidFor creditedStore sampleLog := by
  have hcycles : Cycles (fun _ => 1) sampleFirst "eip155:84532" 1000 sampleStore [2]
      creditedStore := .cons sample_cycle .nil
  have hcaught := (detection_catches_up (H := 2) hcycles rfl (by decide) (by decide)).2.2
  have hkeys : ∀ raw', Settled (fun _ => 1) creditedStore "eip155:84532" raw' →
      raw'.key = sampleLog.key → raw' = sampleLog :=
    fun raw' hset _ => mem_singleton.mp hset.1
  rcases hcaught sampleLog (by decide) (by decide) (by decide) hkeys
    ⟨"0xabc", 0, "0xaa", "0xbb", 5, 1⟩ rfl (by decide) (by decide) with ⟨row, hrow, -⟩ | hpaid
  · cases hrow
  · exact ⟨rfl, hpaid⟩

/-- A transfer in the newest settled block of a chain whose cursor is far behind. -/
def lateLog : TransferLog := { sampleLog with blockNumber := 10 }

def behindStore : Store :=
  Store.init Books.empty sampleFirst [⟨"alice", "0xBB"⟩] fun _ => ⟨11, [lateLog]⟩

/-- The store after a scan that found nothing. -/
def scannedOn (s : Store) (fromBlock toBlock : Nat) : Store :=
  { s with
    cursors := update s.cursors "eip155:84532" (some toBlock)
    scans := ⟨"eip155:84532", fromBlock, toBlock, s.wallets⟩ :: s.scans }

theorem behind_first : CleanCycle (fun _ => 1) sampleFirst "eip155:84532" 2 behindStore 10
      (scannedOn behindStore 1 3) := by
  refine ⟨_, 0, .await ⟨rfl, fun head hhead => ?_⟩ (.atomic (.atomic (answered_read rfl ?_))),
    read_answered "eip155:84532" 1 3 [], rfl⟩
  · cases hhead
    decide
  · exact .atomic .done

theorem behind_second :
    CleanCycle (fun _ => 1) sampleFirst "eip155:84532" 2 (scannedOn behindStore 1 3) 11
      (scannedOn (scannedOn behindStore 1 3) 4 6) := by
  refine ⟨_, 0, .await ⟨rfl, fun head hhead => ?_⟩ (.atomic (.atomic (answered_read rfl ?_))),
    read_answered "eip155:84532" 4 6 [], rfl⟩
  · cases hhead
    decide
  · exact .atomic .done

/-- **A cursor far behind takes longer**: counted from the first cycle's head instead of the
    cursor, and by the last head alone, the number of cycles does not suffice. -/
theorem far_behind_needs_more_cycles :
    ¬ ∀ s H₀ s₁ heads s' H,
      CleanCycle (fun _ => 1) sampleFirst "eip155:84532" 2 s H₀ s₁ →
      Cycles (fun _ => 1) sampleFirst "eip155:84532" 2 s₁ heads s' →
      heads.getLast? = some H → 1 + (H - H₀) / 2 ≤ heads.length →
      ∀ raw ∈ (s'.chains "eip155:84532").logs, H₀ - 1 < raw.blockNumber →
      raw.blockNumber ≤ H - 1 → ∀ log, decodeTransfer raw = .ok log → 0 < log.value →
      (∃ w ∈ s.wallets, toLowerCase w.address = log.toAddress) →
      (∃ row ∈ s.depositLog, row.key = raw.key) ∨ PaidFor s' raw := by
  intro hall
  rcases hall _ 10 _ _ _ 11 behind_first
    (.cons behind_second .nil) rfl (by decide) lateLog (by decide)
    (by decide) (by decide) ⟨"0xabc", 0, "0xaa", "0xbb", 5, 10⟩ rfl (by decide) (by decide) with
    ⟨row, hrow, -⟩ | ⟨log, w, -, -, -, credit, hcredit, -⟩
  · cases hrow
  · cases hcredit

end Motebit.Deposit
