/-
  Motebit.X402.Safety — CREDITED ONCE, ON PROOF, AND NEVER WRITTEN OFF.

  Each program of the settlement code keeps the invariant of `X402.Invariant` at every step,
  whatever the others do in between and wherever the process dies.  A visit works from a
  snapshot of its record: what it relies on is that the intent in the table stays the one it
  read, and that a recoverable snapshot was read.

  Main results: `scanPages_yields`, `reconcile_yields`, `settle_ensures`,
  `payments_credited_once`, `executed_payment_recoverable`.
-/

import Mathlib.Order.Nat
import Motebit.Lib.Run
import Motebit.X402.Invariant

namespace Motebit.X402

open Motebit.Lib List
open Motebit.Lib.Protocol
open Motebit.Accounts Visit

variable {chain : Chain} {complete : Prop} {s s' : Store} {t : Nat} {i : Intent} {α β ε ε' : Type}

/-! ## §1. The protocol -/

/-- Every step may move records forward. -/
def protocol (chain : Chain) (complete : Prop) : Protocol (world chain complete) where
  Inv := Inv chain complete
  Guar _ := Moves
  Fresh _ _ := True
  refl _ := .refl

theorem calm : Calm (protocol chain complete) Moves where
  guar _ _ _ h := h
  env _ _ hi he := (Inv.env hi he).2

theorem stable {L : Store → Prop} (h : ∀ s s', Moves s s' → L s → L s') :
    (protocol chain complete).Stable t L :=
  calm.stable ⟨fun _ s s' _ _ _ hm => h s s' hm, fun s s' _ _ hm => h s s' hm⟩

/-- The task runs safely beside any others while its authorization is known, and what it
    returns satisfies `φ`. -/
def Yields (chain : Chain) (complete : Prop) (t : Nat) (i : Intent) (x : Task Store Req Resp ε α)
    (φ : α → Prop) : Prop :=
  (protocol chain complete).Ensures t x (Known i) (fun a s => Known i s ∧ φ a) fun _ => Known i

variable {φ : α → Prop} {x : Task Store Req Resp ε α} {r : Record}

theorem Yields.pure {a : α} (h : φ a) :
    Yields chain complete t i (Pure.pure a : Task Store Req Resp ε α) φ :=
  Ensures.pure fun _ _ hk => ⟨hk, h⟩

theorem Yields.throw {e : ε} : Yields chain complete t i (throw e : Task Store Req Resp ε α) φ :=
  Ensures.throw fun _ _ hk => hk

variable {g : α → Task Store Req Resp ε β}

theorem Yields.bind {ψ : β → Prop}
    (hx : Yields chain complete t i x φ) (hg : ∀ a, φ a → Yields chain complete t i (g a) ψ) :
    Yields chain complete t i (x >>= g) ψ :=
  Ensures.bind hx fun a => .of_pure (hg a)

theorem Yields.step {x : Task Store Req Resp ε α}
    {ψ : β → Prop} (hx : Yields chain complete t i x fun _ => True)
    (hg : ∀ a, Yields chain complete t i (g a) ψ) : Yields chain complete t i (x >>= g) ψ :=
  hx.bind fun a _ => hg a

theorem Yields.weaken {ψ : α → Prop} (hx : Yields chain complete t i x φ) (h : ∀ a, φ a → ψ a) :
    Yields chain complete t i x ψ :=
  Ensures.weaken hx (fun a _ _ hq => ⟨hq.1, h a hq.2⟩) fun _ _ _ he => he

theorem Yields.catching {g : ε → Task Store Req Resp ε' α} (hx : Yields chain complete t i x φ)
    (hg : ∀ e, Yields chain complete t i (g e) φ) :
    Yields chain complete t i (Task.catching x g) φ :=
  Ensures.catching hx hg

theorem Yields.labelled {x : X402Task α} {l : Locals} (hx : Yields chain complete t i x φ) :
    Yields chain complete t i (labelled l x) φ :=
  hx.catching fun _ => .throw

theorem Yields.txn {f : Store → Except ε (α × Store)}
    (h : ∀ s a s', Inv chain complete s → Known i s → f s = .ok (a, s') →
      Inv chain complete s' ∧ Moves s s' ∧ φ a) : Yields chain complete t i (Task.txn f) φ := by
  refine Ensures.txn (fun a => stable fun s s' hm hl => ⟨hl.1.moves hm, hl.2⟩)
    (fun _ => stable fun s s' hm hl => hl.moves hm) ?_ fun _ _ _ hk _ => hk
  intro s a s' hi hk hf
  obtain ⟨hinv, hm, hφ⟩ := h s a s' hi hk hf
  exact ⟨hinv, hm, hk.moves hm, hφ⟩

theorem Yields.ask {r : Req} {φ : Resp r → Prop}
    (h : ∀ s a s', Answer chain complete s r a s' → s' = s ∧ φ a) :
    Yields chain complete t i (Task.ask r : Task Store Req Resp ε (Resp r)) φ := by
  refine Ensures.ask (fun a => stable fun s s' hm hl => ⟨hl.1.moves hm, hl.2⟩) ?_
  intro s a s' hi hk ha
  obtain ⟨rfl, hφ⟩ := h s a s' ha
  exact ⟨hi, .refl _, hk, hφ⟩

theorem orThrow_yields {a : Except Bool α} (h : ∀ b, a = .ok b → φ b) :
    Yields chain complete t i (orThrow a) φ := by
  cases a with
  | ok b => exact .pure (h b rfl)
  | error => exact .throw

theorem getConfirmedHead_yields : Yields chain complete t i getConfirmedHead
      fun head => head.timestamp = chain.timestamp head.number :=
  Yields.bind (Yields.ask fun _ _ _ ha => ha) fun _ hφ => orThrow_yields hφ

theorem getBlockTimestamp_yields (n : Nat) :
    Yields chain complete t i (getBlockTimestamp n) fun ts => ts = chain.timestamp n :=
  Yields.bind (Yields.ask fun _ _ _ ha => ha) fun _ hφ => orThrow_yields hφ

theorem getReceiptLogs_yields (txHash : String) : Yields chain complete t i (getReceiptLogs txHash)
      fun logs => logs = chain.receipt txHash ∨ logs = [] :=
  Yields.bind (Yields.ask fun _ _ _ ha => ha) fun _ hφ => orThrow_yields hφ

theorem getAuthorizationEvents_yields (reader : Head) (token authorizer nonce : String)
    (fromBlock toBlock : Nat) :
    Yields chain complete t i (Task.ask (Req.getAuthorizationEvents reader token authorizer nonce
      fromBlock toBlock) : X402Task _) fun answer =>
      ∀ events : List AuthorizationEvent, answer = .ok events →
        (∀ e ∈ events,
          chain.HasEvent token authorizer nonce fromBlock (min toBlock reader.number) e) ∧
        (complete → ∀ e, chain.HasEvent token authorizer nonce fromBlock
          (min toBlock reader.number) e → e ∈ events) :=
  Yields.ask fun _ _ _ ha => ha

/-! ## §2. The window -/

/-- **The binary search** keeps `lo` at or before the target time and `hi` after it. -/
theorem bisect_yields (targetTs lo hi : Nat) :
    Yields chain complete t i (bisect targetTs lo hi) fun found =>
      (chain.timestamp lo ≤ targetTs → chain.timestamp found.1 ≤ targetTs) ∧
      (targetTs < chain.timestamp hi → targetTs < chain.timestamp found.2) := by
  induction hn : hi - lo using Nat.strongRecOn generalizing lo hi with
  | ind n ih =>
    rw [bisect]
    split
    · refine (getBlockTimestamp_yields _).bind fun ts hts => ?_
      subst hts
      split
      · next hle =>
        refine (ih _ (by omega) _ _ rfl).weaken fun found hf => ⟨fun _ => hf.1 hle, hf.2⟩
      · next hgt =>
        refine (ih _ (by omega) _ _ rfl).weaken fun found hf => ⟨hf.1, fun _ => hf.2 (by omega)⟩
    · exact .pure ⟨fun h => h, fun h => h⟩

theorem locateScanStart_yields {head : Head} (hhead : head.timestamp = chain.timestamp head.number)
    (targetTs : Nat) : Yields chain complete t i (locateScanStart head targetTs) fun start =>
      start = 0 ∨ chain.timestamp start ≤ targetTs := by
  unfold locateScanStart
  split
  · next hle => exact .pure (.inr (hhead ▸ hle))
  · refine (getBlockTimestamp_yields 0).bind fun first hfirst => ?_
    split
    · exact .pure (.inl rfl)
    · next hle =>
      refine (bisect_yields targetTs 0 head.number).bind fun found hfound => ?_
      exact .pure (.inr (hfound.1 (by omega)))

theorem locateScanEnd_yields {head : Head} (hhead : head.timestamp = chain.timestamp head.number)
    {targetTs : Nat} (hpast : targetTs < head.timestamp) (start : Nat) :
    Yields chain complete t i (locateScanEnd start head targetTs) fun last =>
      targetTs < chain.timestamp last := by
  refine (getBlockTimestamp_yields start).bind fun first hfirst => ?_
  subst hfirst
  split
  · next hgt => exact .pure hgt
  · refine (bisect_yields targetTs start head.number).bind fun found hfound => ?_
    exact .pure (hfound.2 (hhead ▸ hpast))

/-- What a scan up to `toBlock` may claim. -/
structure ScanOk (chain : Chain) (complete : Prop) (i : Intent) (toBlock : Nat) (scan : Scan) :
    Prop where
  events : ∀ e ∈ scan.events, chain.event i.token i.payer i.nonce = some e
  reached : scan.reached = true → scan.events = [] ∧
    (complete → ∀ e, Executed chain i e → toBlock < e.blockNumber)

theorem past_of_empty_page {reader : Head} {fromBlock toBlock : Nat}
    (hreader : toBlock ≤ reader.number)
    (hstart : complete → ∀ e, Executed chain i e → fromBlock ≤ e.blockNumber)
    (hall : complete → ∀ e, chain.HasEvent i.token i.payer i.nonce fromBlock
      (min toBlock reader.number) e → e ∈ ([] : List AuthorizationEvent)) :
    complete → ∀ e, Executed chain i e → toBlock < e.blockNumber := by
  intro hc e he
  by_contra hle
  have hin := hall hc e ⟨he.event, hstart hc e he, by omega⟩
  cases hin

variable {rec : Record}

/-- **The scan loop**: it starts at or before the execution, so that its cursor stays before
    it, and it reaches its end only if the execution is beyond. -/
theorem scanPages_yields {reader : Head} {cursor : Option ScanCursor}
    {maxPages : Option Nat} {toBlock : Nat} (hreader : toBlock ≤ reader.number)
    (block pageBlocks pages : Nat) (expected : Option Nat) (lost : Bool) (hpage : 0 < pageBlocks)
    (hstart : complete → ∀ e, Executed chain rec.intent e → block ≤ e.blockNumber) :
    Yields chain complete t rec.intent
      (scanPages reader rec cursor maxPages toBlock block pageBlocks pages expected lost hpage)
      (ScanOk chain complete rec.intent toBlock) := by
  -- on the blocks left, and for a range limit on the page's size
  induction hn : (toBlock + 1 - block) + pageBlocks using Nat.strongRecOn
    generalizing block pageBlocks pages expected lost with
  | ind n ih =>
    rw [scanPages]
    split
    · have hlast : min toBlock (block + pageBlocks - 1) ≤ reader.number := by omega
      refine (getAuthorizationEvents_yields _ _ _ _ _ _).bind fun answer hanswer => ?_
      match answer, hanswer with
      | .error limit, _ =>
        dsimp only
        split
        · next hlimit => exact ih _ (by omega) _ _ _ _ _ _ hstart rfl
        · exact .throw
      | .ok (e :: es), hanswer =>
        refine .pure ⟨fun e' he' => ?_, nofun⟩
        exact ((hanswer _ rfl).1 e' he').1
      | .ok [], hanswer =>
        have hpast := past_of_empty_page hlast hstart (hanswer [] rfl).2
        have hnext : complete → ∀ e, Executed chain rec.intent e →
            min toBlock (block + pageBlocks - 1) + 1 ≤ e.blockNumber := hpast
        match cursor, lost with
        | some c, false =>
          refine .step (Yields.txn fun s changed s' hi hk hu => ?_)
            fun changed => ih _ (by omega) _ _ _ _ _ _ hnext rfl
          have hsound : complete → (c.advance rec (min toBlock (block + pageBlocks - 1))
              expected).Sound chain rec.intent := by
            intro hc e he
            cases c <;> exact hpast hc e he
          obtain ⟨hinv, hr⟩ := hi.update hk hsound hu
          exact ⟨hinv, hr.moves, trivial⟩
        | none, false => exact ih _ (by omega) _ _ _ _ _ _ hnext rfl
        | none, true => exact ih _ (by omega) _ _ _ _ _ _ hnext rfl
        | some c, true => exact ih _ (by omega) _ _ _ _ _ _ hnext rfl
    · refine .pure ⟨nofun, fun hreached => ⟨rfl, fun hc e he => ?_⟩⟩
      have hbeyond : toBlock < block := of_decide_eq_true hreached
      have hle := hstart hc e he
      omega

/-! ## §3. One visit -/

section

variable {v : Visit} {l : Locals} {head : Head} {headTs : Nat}

theorem write_yields {u : Update} (hsound : complete → u.Sound chain v.record.intent) :
    Yields chain complete t v.record.intent (v.write l u) fun _ => True := by
  refine .labelled (Yields.txn fun s changed s' hi hk hu => ?_)
  obtain ⟨hinv, hr⟩ := hi.update hk hsound hu
  exact ⟨hinv, hr.moves, trivial⟩

theorem scheduleNextVisit_yields :
    Yields chain complete t v.record.intent (v.scheduleNextVisit l headTs) fun _ => True := by
  refine (write_yields ?_).step fun _ => .pure trivial
  exact fun _ _ _ => trivial

theorem spendExpiryRecheck_yields (hnot : complete → ∀ e, ¬ Executed chain v.record.intent e) :
    Yields chain complete t v.record.intent (v.spendExpiryRecheck l headTs) fun _ => True := by
  unfold spendExpiryRecheck
  split
  · exact .pure trivial
  · exact (write_yields fun hc e he => (hnot hc e he).elim).step fun _ => .pure trivial

theorem mismatch_yields (hnot : complete → ∀ e, ¬ Executed chain v.record.intent e) :
    Yields chain complete t v.record.intent (v.mismatch l headTs) fun _ => True := by
  unfold mismatch
  split
  · exact .pure trivial
  · split
    · refine .step ?_ fun _ => .pure trivial
      exact (write_yields fun hc e he => (hnot hc e he).elim).step fun _ => .pure trivial
    · refine .step ?_ fun _ => .pure trivial
      refine .labelled (Yields.txn fun s changed s' hi hk hu => ?_)
      obtain ⟨hinv, hr⟩ := hi.failMismatched hk hnot hu
      exact ⟨hinv, hr.moves, trivial⟩

variable {txHash : String}

theorem credit_ne_unique {description : String} {position : Nat} {source : CreditFrom}
    (hi : Inv chain complete s) (hev : Evidence chain i txHash position) :
    s.credit i.payer i.nonce (some txHash) (some position) description source ≠ .error .unique := by
  intro herr
  unfold Store.credit at herr
  split at herr
  · cases herr
  next rec hfind =>
  split at herr
  · cases herr
  split at herr
  · next fault hrefusal =>
    cases herr
    unfold Store.refusal at hrefusal
    split at hrefusal
    · cases hrefusal
    · split at hrefusal <;> cases hrefusal
  · split at herr
    · dsimp only at herr
      split at herr
      · next hused =>
        -- the other record's evidence is this Transfer log too
        obtain ⟨r, hr, hsel⟩ := any_eq_true.mp (Bool.and_eq_true_iff.mp hused).2
        simp only [Bool.and_eq_true, bne_iff_ne, beq_iff_eq] at hsel
        obtain ⟨⟨hother, htx⟩, hidx⟩ := hsel
        obtain ⟨-, tx, htx', hev'⟩ := hi.proved r hr position hidx
        rw [htx'] at htx
        cases htx
        have hkey := hev'.key_eq hev
        have hrec := find?_some hfind
        rw [toLowerCase_of_hexWord i.payer_word, toLowerCase_of_hexWord i.nonce_word] at hrec
        exact hother (hkey.trans (beq_iff_eq.mp hrec).symm)
      · cases herr
    · cases herr

/-- **The credit of a visit** succeeds, finds the record resolved, or throws. -/
theorem tryCredit_yields {position : Nat} (hev : Evidence chain v.record.intent txHash position) :
    Yields chain complete t v.record.intent (v.tryCredit l txHash position)
      fun credited => credited ≠ none := by
  refine .tryCatch (F := fun e s => Known v.record.intent s ∧ e.fault ≠ .unique) ?_
    fun e => .of_pure fun hne => ?_
  · refine .bind (Q := fun _ => Known v.record.intent)
      (Ensures.catching (E := fun fault s => Known v.record.intent s ∧ fault ≠ .unique) ?_
        fun fault => .throw fun _ _ hk => hk)
      fun credited => .pure fun _ _ hk => ⟨hk, Option.some_ne_none _⟩
    refine .txn (fun _ => stable fun s s' hm hl => hl.moves hm)
      (fun _ => stable fun s s' hm hl => ⟨hl.1.moves hm, hl.2⟩) ?_ ?_
    · intro s credited s' hi hk hok
      obtain ⟨hinv, hm⟩ := Inv.credit hi hk (fun p hp => ⟨txHash, rfl, by cases hp; exact hev⟩) hok
      exact ⟨hinv, hm, hk.moves hm⟩
    · intro s fault hi hk herr
      refine ⟨hk, fun hunique => ?_⟩
      rw [hunique] at herr
      exact credit_ne_unique hi hev herr
  · rw [if_neg hne]
    exact Yields.throw

variable {paired : PairedTransfer}

theorem evidence_of_paired {logs : List ReceiptLog}
    (hlogs : logs = chain.receipt txHash ∨ logs = [])
    (hpaired : pairedTransfer logs v.record.intent.token v.record.intent.payer
      v.record.intent.nonce = some paired) (hexpects : v.expects paired = true) :
    Evidence chain v.record.intent txHash paired.position := by
  obtain ⟨j, used, transfer, hpos, hused, htransfer, hlog, hread⟩ := pairedTransfer_spec hpaired
  rcases hlogs with rfl | rfl
  · simp only [expects, Bool.and_eq_true, beq_iff_eq] at hexpects
    exact ⟨j, used, transfer, paired, hpos, hused, htransfer, hlog, hread, hexpects.1.1,
      hexpects.1.2, hexpects.2⟩
  · cases hused

theorem expects_of_executed {e : AuthorizationEvent} (he : Executed chain v.record.intent e)
    (hpaired : pairedTransfer (chain.receipt e.txHash) v.record.intent.token
      v.record.intent.payer v.record.intent.nonce = some paired) : v.expects paired = true := by
  obtain ⟨logs, used, transfer, logs', paired', hreceipt, hfirst, hused, hread, hsender,
    hrecipient, hvalue⟩ := he.paired
  rw [hreceipt, pairedTransfer_of_split hused hfirst, hread] at hpaired
  cases hpaired
  simp [expects, hsender, hrecipient, hvalue]

/-- **`judgeUsed`**, of the transaction that executed the authorization. -/
theorem judgeUsed_yields
    (htx : complete → ∀ e, Executed chain v.record.intent e → e.txHash = txHash) :
    Yields chain complete t v.record.intent (v.judgeUsed l txHash headTs) fun _ => True := by
  refine (getReceiptLogs_yields txHash).labelled.bind fun logs hlogs => ?_
  split
  · split
    · exact .pure trivial
    · split
      · refine (write_yields ?_).step fun _ => .pure trivial
        exact fun _ _ _ => trivial
      · exact scheduleNextVisit_yields.step fun _ => .pure trivial
  · next paired hpaired =>
    split
    · next hexpects =>
      have hev := evidence_of_paired hlogs hpaired hexpects
      refine (tryCredit_yields hev).bind fun credited hcredited => ?_
      match credited, hcredited with
      | none, hcredited => exact absurd rfl hcredited
      | some true, _ => exact .pure trivial
      | some false, _ => exact .pure trivial
    · next hnot =>
      refine mismatch_yields fun hc e he => hnot ?_
      rcases hlogs with rfl | rfl
      · rw [← htx hc e he] at hpaired
        exact expects_of_executed he hpaired
      · cases hpaired

theorem failWithoutEvidence_yields {reason : String} {decision : ReconcileDecision}
    (hnot : complete → ∀ e, ¬ Executed chain v.record.intent e) :
    Yields chain complete t v.record.intent (v.failWithoutEvidence l reason headTs decision)
      fun _ => True := by
  refine (write_yields fun hc e he => (hnot hc e he).elim).bind fun failed _ => ?_
  split <;> exact .pure trivial

/-- **Absence** is concluded, or a cancellation seen, only of an authorization that was not
    executed. -/
theorem judgeAbsence_yields {canceled concluded : Bool}
    (hcanceled : canceled = true → complete → ∀ e, ¬ Executed chain v.record.intent e)
    (hconcluded : concluded = true → complete → ∀ e, ¬ Executed chain v.record.intent e) :
    Yields chain complete t v.record.intent (v.judgeAbsence l head canceled concluded)
      fun _ => True := by
  unfold judgeAbsence
  dsimp only
  split
  · split
    · exact .pure trivial
    · exact scheduleNextVisit_yields.step fun _ => .pure trivial
  · split
    · next hcan =>
      split
      · exact .pure trivial
      · split
        · exact (spendExpiryRecheck_yields (hcanceled hcan)).step fun _ => .pure trivial
        · exact failWithoutEvidence_yields (hcanceled hcan)
    · split
      · exact .pure trivial
      · split
        · split
          · exact .pure trivial
          · split
            · next hcon =>
              exact (spendExpiryRecheck_yields (hconcluded hcon)).step fun _ => .pure trivial
            · exact .pure trivial
        · by_cases hcon : concluded = true
          · subst hcon
            simp only [Bool.not_true, Bool.false_eq_true, if_false]
            split
            · refine (write_yields ?_).step fun _ => .pure trivial
              exact fun _ _ _ => trivial
            · exact failWithoutEvidence_yields (hconcluded rfl)
          · rw [Bool.not_eq_true] at hcon
            subst hcon
            exact .pure trivial

theorem leaveCadence_yields :
    Yields chain complete t v.record.intent (v.leaveCadence l) fun _ => True := by
  unfold leaveCadence
  split
  · refine (write_yields ?_).step fun _ => .pure trivial
    exact fun _ _ _ => trivial
  · exact .pure trivial

/-- **What a visit makes of its scan.** -/
theorem conclude_yields {last : Option Nat} {ceiling : Nat} {scan : Scan}
    (hscan : ScanOk chain complete v.record.intent ceiling scan)
    (hlast : ∀ b, last = some b → complete → ∀ e, Executed chain v.record.intent e →
      e.blockNumber < b) :
    Yields chain complete t v.record.intent (v.conclude l head last ceiling scan)
      fun _ => True := by
  -- the token emitted one event for the authorization
  have hone : ∀ e ∈ scan.events, complete → ∀ e', Executed chain v.record.intent e' → e' = e := by
    intro e he _ e' he'
    have heq := (he'.event.symm.trans (hscan.events e he))
    exact Option.some.inj heq
  have hused : ∀ e, scan.events.find? (fun e => e.kind == .used) = some e →
      complete → ∀ e', Executed chain v.record.intent e' → e'.txHash = e.txHash := by
    intro e hfind hc e' he'
    rw [hone e (mem_of_find?_eq_some hfind) hc e' he']
  unfold conclude
  dsimp only
  split
  · split
    · exact .pure trivial
    · next e hfind => exact judgeUsed_yields (hused e hfind)
  · refine leaveCadence_yields.bind fun l _ => ?_
    split
    · next e hfind => exact judgeUsed_yields (hused e hfind)
    · refine judgeAbsence_yields (fun hcan hc e' he' => ?_) fun hcon hc e' he' => ?_
      · obtain ⟨e, he, hkind⟩ := any_eq_true.mp hcan
        have hk := he'.kind
        rw [hone e he hc e' he', beq_iff_eq.mp hkind] at hk
        cases hk
      · obtain ⟨hreached, hend⟩ := Bool.and_eq_true_iff.mp hcon
        have hbeyond := (hscan.reached hreached).2 hc e' he'
        have hbefore := hlast ceiling (of_decide_eq_true hend) hc e' he'
        omega

/-- A recoverable snapshot was read. -/
abbrev SnapshotOk (chain : Chain) (complete : Prop) (r : Record) : Prop :=
  complete → RecordOk chain r

theorem lt_of_timestamp_lt (hmono : Monotone chain.timestamp) {a b : Nat}
    (h : chain.timestamp a < chain.timestamp b) : a < b := by
  by_contra hle
  have hrev := hmono (Nat.le_of_not_lt hle)
  omega

variable (hmono : complete → Monotone chain.timestamp)

include hmono in
theorem scanStart_yields (hhead : head.timestamp = chain.timestamp head.number)
    (hok : SnapshotOk chain complete v.record) :
    Yields chain complete t v.record.intent (v.scanStart l head) fun start =>
      complete → ∀ e, Executed chain v.record.intent e → start ≤ e.blockNumber := by
  unfold scanStart
  split
  · next start hstart => exact .pure fun hc e he => (hok hc e he).scanFrom start hstart
  · refine (locateScanStart_yields hhead _).labelled.bind fun start hstart => ?_
    have hbefore : complete → ∀ e, Executed chain v.record.intent e → start ≤ e.blockNumber := by
      intro hc e he
      rcases hstart with rfl | hle
      · exact Nat.zero_le _
      · exact Nat.le_of_lt (lt_of_timestamp_lt (hmono hc) (Nat.lt_of_le_of_lt hle he.after))
    split
    · exact .pure hbefore
    · exact (write_yields hbefore).step fun _ => .pure hbefore

include hmono in
theorem scanEnd_yields (hhead : head.timestamp = chain.timestamp head.number)
    (hok : SnapshotOk chain complete v.record) (start : Nat) :
    Yields chain complete t v.record.intent (v.scanEnd l head start) fun last =>
      ∀ b, last = some b → complete → ∀ e, Executed chain v.record.intent e →
        e.blockNumber < b := by
  unfold scanEnd
  split
  · next last hlast =>
    refine .pure fun b hb hc e he => (hok hc e he).scanEnd b ?_
    rw [hlast, hb]
  · split
    · exact .pure fun b hb => by cases hb
    · next hpast =>
      refine (locateScanEnd_yields hhead (by omega) start).labelled.bind fun last hlast => ?_
      have hafter : complete → ∀ e, Executed chain v.record.intent e → e.blockNumber < last := by
        intro hc e he
        refine lt_of_timestamp_lt (hmono hc) ?_
        have hbefore := he.before
        unfold expiryTs at hlast
        omega
      have hsome : ∀ b, some last = some b → complete → ∀ e,
          Executed chain v.record.intent e → e.blockNumber < b := by
        intro b hb
        cases hb
        exact hafter
      split
      · exact .pure hsome
      · exact (write_yields hafter).step fun _ => .pure hsome

include hmono in
/-- **A visit under a known head.** -/
theorem reconcileAt_yields (hhead : head.timestamp = chain.timestamp head.number)
    (hok : SnapshotOk chain complete v.record) :
    Yields chain complete t v.record.intent (v.reconcileAt head) fun _ => True := by
  unfold reconcileAt
  refine (scanStart_yields hmono hhead hok).bind fun start hstart => ?_
  refine (scanEnd_yields hmono hhead hok start).bind fun last hlast => ?_
  split
  · exact .pure trivial
  · have hceiling : last.elim head.number (min · head.number) ≤ head.number := by
      cases last with
      | none => exact Nat.le_refl _
      | some => exact Nat.min_le_right _ _
    -- a stored cursor is before the execution, so that the next block is not after it
    have hfirst : complete → ∀ e, Executed chain v.record.intent e →
        v.firstBlock start ≤ e.blockNumber := by
      intro hc e he
      have hcursor : ∀ cursor : Option Nat, (∀ b, cursor = some b → b < e.blockNumber) →
          cursor.elim start (· + 1) ≤ e.blockNumber := by
        intro cursor hb
        cases cursor with
        | none => exact hstart hc e he
        | some b => exact hb b rfl
      unfold firstBlock
      split
      · exact hstart hc e he
      · split
        · exact hcursor _ (hok hc e he).passCursor
        · exact hcursor _ (hok hc e he).scannedTo
    refine .bind (Yields.labelled (scanPages_yields hceiling _ _ _ _ _ _ hfirst))
      fun scan hscan => ?_
    exact conclude_yields hscan hlast

theorem onError_yields {e : Thrown} :
    Yields chain complete t v.record.intent (v.onError e) fun _ => True := by
  unfold onError
  split
  · exact .throw
  · split
    · exact .pure trivial
    · split
      · exact .pure trivial
      · exact .step (scheduleNextVisit_yields.catching fun _ => .throw) fun _ => .pure trivial

include hmono in
theorem visitBody_yields (p : ScanParams) (operator : Bool) {head : Option Head}
    (hhead : ∀ h, head = some h → h.timestamp = chain.timestamp h.number)
    (hok : SnapshotOk chain complete rec) : Yields chain complete t rec.intent
      (Task.catching ((⟨p, rec, operator⟩ : Visit).body head) (⟨p, rec, operator⟩ : Visit).onError)
      fun _ => True := by
  refine .catching ?_ fun e => onError_yields (v := ⟨p, rec, operator⟩)
  unfold body
  split
  · next h => exact reconcileAt_yields (v := ⟨p, rec, operator⟩) hmono (hhead h rfl) hok
  · refine getConfirmedHead_yields.labelled.bind fun h hh => ?_
    exact reconcileAt_yields (v := ⟨p, rec, operator⟩) hmono hh hok

include hmono in
/-- **`reconcileX402Settlement`**, from any snapshot. -/
theorem reconcile_yields {p : ScanParams} {operator : Bool} {head : Option Head}
    (hhead : ∀ h, head = some h → h.timestamp = chain.timestamp h.number)
    (hok : SnapshotOk chain complete rec) :
    Yields chain complete t rec.intent (reconcileX402Settlement p rec operator head)
      fun _ => True := by
  have hbody := visitBody_yields (t := t) hmono p operator hhead hok
  unfold reconcileX402Settlement
  split
  · exact hbody
  · refine .step (Yields.txn fun s changed s' hi hk hu => ?_) fun _ => hbody
    obtain ⟨hinv, hm⟩ := hi.visit hu
    exact ⟨hinv, hm, trivial⟩

end

/-! ## §4. Runs and doors -/

variable (hmono : complete → Monotone chain.timestamp)

/-- What a run knows of the candidates it has selected. -/
def Selected (chain : Chain) (complete : Prop) (recs : List Record) (s : Store) : Prop :=
  ∀ rec ∈ recs, Known rec.intent s ∧ SnapshotOk chain complete rec

theorem Selected.moves {recs : List Record} (h : Selected chain complete recs s)
    (hm : Moves s s') : Selected chain complete recs s' :=
  fun rec hrec => ⟨(h rec hrec).1.moves hm, (h rec hrec).2⟩

include hmono in
/-- **The loop of a run.** -/
theorem visitAll_ensures (p : ScanParams) {head : Head}
    (hhead : head.timestamp = chain.timestamp head.number) (recs : List Record)
    (result : ReconcileResult) : (protocol chain complete).Ensures t (visitAll p head recs result)
      (Selected chain complete recs) (fun _ _ => True) fun _ _ => True := by
  induction recs generalizing result with
  | nil => exact .pure fun _ _ _ => trivial
  | cons rec recs ih =>
    unfold visitAll
    have hrest : (protocol chain complete).Stable t (Selected chain complete recs) :=
      stable fun s s' hm hl => hl.moves hm
    -- the later candidates stay known while this one is visited
    have hone : SnapshotOk chain complete rec → (protocol chain complete).Ensures t
        (reconcileX402Settlement p rec false (some head)) _ _ _ := fun hok =>
      Ensures.frame (fun s s' _ _ hm hl => hl.moves hm) hrest
        (reconcile_yields hmono (fun h hh => by cases hh; exact hhead) hok)
    have hstart : (protocol chain complete).Ensures t
        (reconcileX402Settlement p rec false (some head))
        (fun s => (Known rec.intent s ∧ Selected chain complete recs s) ∧
          SnapshotOk chain complete rec)
        (fun _ => Selected chain complete recs) fun _ _ => True :=
      Ensures.of_pure fun hok => (hone hok).weaken (fun _ _ _ hq => hq.2) fun _ _ _ _ => trivial
    refine .bind (hstart.mono fun s _ hl => ?_) fun decision => ih _
    obtain ⟨hk, hok⟩ := hl rec mem_cons_self
    exact ⟨⟨hk, fun r hr => hl r (mem_cons_of_mem _ hr)⟩, hok⟩

variable {eligible : Record → Bool} {records : List Record}

theorem mem_selectFirst {limit : Nat}
    (h : r ∈ selectFirst eligible limit records) : r ∈ records ∧ eligible r = true := by
  have hfilter := mem_mergeSort.mp (mem_of_mem_take h)
  exact mem_filter.mp hfilter

include hmono in
/-- **One reconciliation run.** -/
theorem reconcilePending_ensures (p : ScanParams) (limit : Nat) :
    (protocol chain complete).Ensures t (reconcilePendingX402Settlements p limit)
      (fun _ => True) (fun _ _ => True) fun _ _ => True := by
  unfold reconcilePendingX402Settlements
  refine .bind (Q := fun answer s => True ∧ ∀ head : Head, answer = .ok head →
    head.timestamp = chain.timestamp head.number) ?_ fun answer => .of_pure fun hanswer => ?_
  · refine .ask (fun answer => stable fun _ _ _ hl => hl) ?_
    intro s answer s' hi _ ha
    obtain ⟨rfl, hhead⟩ := ha
    exact ⟨hi, .refl _, trivial, hhead⟩
  split
  · exact .pure fun _ _ _ => trivial
  next head =>
  unfold reconcileUnder
  refine .bind (Q := fun _ _ => True) ?_ fun _ => ?_
  · refine .txn (fun _ => .true) (fun _ => .true) ?_ fun _ _ _ _ _ => trivial
    intro s changed s' hi _ hu
    obtain ⟨hinv, hr⟩ := Inv.stampUnobservedFailures hi hu
    exact ⟨hinv, hr.moves, trivial⟩
  · refine .bind (Q := fun candidates =>
      Selected chain complete (candidates.1 ++ candidates.2)) ?_
      fun candidates => visitAll_ensures hmono p (hanswer head rfl) _ _
    refine .act (fun _ => stable fun s s' hm hl => hl.moves hm) fun s hi _ => ?_
    refine ⟨hi, .refl s, fun rec hrec => ?_⟩
    have hmem : rec ∈ s.records := by
      rcases mem_append.mp hrec with h | h
      · exact (mem_selectFirst h).1
      · exact (mem_selectFirst h).1
    exact ⟨⟨rec, hmem, rfl⟩, fun hc => Inv.recoverable hi hc rec hmem⟩

include hmono in
/-- **The operator's resolve.** -/
theorem resolve_ensures (payer nonce : String) :
    (protocol chain complete).Ensures t (resolve payer nonce) (fun _ => True) (fun _ _ => True)
      fun _ _ => True := by
  unfold resolve
  refine .bind (Q := fun rec? s => ∀ rec, rec? = some rec →
    Known rec.intent s ∧ SnapshotOk chain complete rec) ?_ fun rec? => ?_
  · refine .act (fun _ => stable fun s s' hm hl rec hrec =>
      ⟨(hl rec hrec).1.moves hm, (hl rec hrec).2⟩) fun s hi _ => ⟨hi, .refl s, fun rec hrec => ?_⟩
    have hmem : rec ∈ s.records := mem_of_find?_eq_some hrec
    exact ⟨⟨rec, hmem, rfl⟩, fun hc => Inv.recoverable hi hc rec hmem⟩
  · split
    · exact .pure fun _ _ _ => trivial
    · next rec =>
      split
      · exact .pure fun _ _ _ => trivial
      · refine .bind (Q := fun _ _ => True) ?_ fun _ => .pure fun _ _ _ => trivial
        have hrec : SnapshotOk chain complete rec → (protocol chain complete).Ensures t
            (reconcileX402Settlement x402Scan rec true none) (Known rec.intent)
            (fun _ _ => True) fun _ _ => True := fun hok =>
          Ensures.weaken (reconcile_yields hmono nofun hok)
            (fun _ _ _ _ => trivial) fun _ _ _ _ => trivial
        exact (Ensures.of_pure hrec).mono fun s _ hl => hl rec rfl

theorem mem_of_refused {answer : SettleAnswer} {network reason : String} {amountMicro : Int}
    (h : answer.outcome network amountMicro = .refused reason) : reason ∈ definiteRefusals := by
  have hclass : ∀ v : Verdict, classifySettleVerdict v network amountMicro = .refused reason →
      reason ∈ definiteRefusals := by
    intro v hv
    unfold classifySettleVerdict at hv
    dsimp only at hv
    split at hv
    · split at hv
      · cases hv
      split at hv
      · cases hv
      · split at hv <;> cases hv
    · split at hv
      · next hdef =>
        cases hv
        simp only [Bool.and_eq_true] at hdef
        exact contains_iff_mem.mp hdef.2
      · cases hv
  cases answer with
  | verdict v => exact hclass v h
  | settleError errorReason transaction =>
    exact hclass ⟨false, transaction, none, none, errorReason⟩ h
  | threw => cases h

/-- **The settling request.** -/
theorem settle_ensures (network : String) (i : Intent) :
    (protocol chain complete).Ensures t (settle network i) (fun _ => True) (fun _ _ => True)
      fun _ _ => True := by
  have hforget : ∀ {x : X402Task Unit}, Yields chain complete t i x (fun _ => True) →
      (protocol chain complete).Ensures t x (Known i) (fun _ _ => True) fun _ _ => True :=
    fun hx => .weaken hx (fun _ _ _ _ => trivial) fun _ _ _ _ => trivial
  refine .bind (Q := fun recorded s => recorded = true → Known i s) ?_ fun recorded => ?_
  · refine .txn (fun _ => stable fun s s' hm hl h => (hl h).moves hm)
      (fun _ => .true) ?_ fun _ _ _ _ _ => trivial
    intro s recorded s' hi _ hok
    exact Inv.recordIntent hi hok
  split
  · next hrec =>
    refine .mono (hforget ?_) fun s _ hl => hl hrec
    refine .step (Yields.ask fun _ _ _ ha => ⟨ha, trivial⟩) fun answer => ?_
    split
    · next reason hrefused =>
      refine .step (Yields.txn fun s changed s' hi hk hu => ?_) fun _ => .throw
      have hsound : complete → (Update.fail reason none false).Sound chain i :=
        fun _ _ _ => mem_of_refused hrefused
      obtain ⟨hinv, hr⟩ := hi.update hk hsound hu
      exact ⟨hinv, hr.moves, trivial⟩
    · exact .throw
    · next txHash network' hsettled =>
      refine .step (Ensures.tryCatch (F := fun _ => Known i)
        (Yields.txn fun s credited s' hi hk hok => ?_) fun _ => Yields.throw) fun credited => ?_
      · obtain ⟨hinv, hm⟩ := hi.credit hk (fun _ hp => by cases hp) hok
        exact ⟨hinv, hm, trivial⟩
      · split
        · exact .pure trivial
        · refine .step (Yields.txn fun s r s' hi hk hok => ?_) fun r => ?_
          · cases hok
            exact ⟨hi, .refl _, trivial⟩
          · split
            · exact .pure trivial
            · exact .throw
  · exact Ensures.throw fun _ _ _ => trivial

include hmono in
theorem verified : Verified (protocol chain complete) where
  init s hs := by
    obtain ⟨hrecords, hagrees, hnone⟩ := hs
    have hempty : ∀ r, r ∉ s.records := by simp [hrecords]
    refine ⟨⟨?_, ?_, fun r hr => absurd hr (hempty r), ?_, hagrees,
      fun r hr => absurd hr (hempty r), fun _ r hr => absurd hr (hempty r)⟩, fun _ => trivial⟩
    · rw [hrecords]
      exact nodup_nil
    · exact fun r hr => absurd hr (hempty r)
    · unfold Store.posted Store.owed
      rw [filter_eq_nil_iff.mpr fun row hrow heq => by simp [hnone row hrow] at heq, hrecords]
      exact .nil
  env s s' hi he := ⟨(Inv.env hi he).1, fun _ _ => trivial⟩
  crash s s' hi hc := ⟨hc ▸ hi, fun _ _ => trivial⟩
  fresh _ _ _ _ _ _ _ _ := trivial
  entry t p hp := by
    refine ⟨Stable.true, ?_⟩
    rcases hp with ⟨network, i, rfl⟩ | ⟨params, limit, rfl⟩ | ⟨payer, nonce, rfl⟩
    · exact (settle_ensures network i).detach
    · exact (reconcilePending_ensures hmono params limit).detach
    · exact (resolve_ensures hmono payer nonce).detach

/-! ## §5. Once, exactly, and on proof -/

/-- Every credit is one record's, for its own amount, and a Transfer log credits one record,
    whose proof it is. -/
structure CreditedOnce (chain : Chain) (s : Store) : Prop where
  records : (s.records.map Record.key).Nodup
  ledger : s.posted.Perm s.owed
  balances : ∀ motebitId,
    s.books.balance motebitId = Books.ledgerSum s.books.transactions motebitId
  transfers : ∀ r ∈ s.records, ∀ r' ∈ s.records, ∀ position, r.creditLogIndex = some position →
    r'.creditLogIndex = some position → r.txHash = r'.txHash → r = r'
  proofs : ∀ r ∈ s.records, ∀ position, r.creditLogIndex = some position →
    ∃ txHash, r.txHash = some txHash ∧ Evidence chain r.intent txHash position

/-- The credited records of one store are credited, from the same log, in another. -/
def StaysCredited (s s' : Store) : Prop :=
  ∀ r ∈ s.records, r.status = .credited → ∃ r' ∈ s'.records, r'.intent = r.intent ∧
    r'.status = .credited ∧ r'.txHash = r.txHash ∧ r'.creditLogIndex = r.creditLogIndex

theorem Moves.staysCredited (h : Moves s s') : StaysCredited s s' := by
  intro r hr hstatus
  obtain ⟨r', hr', hintent, hadv, hsame⟩ := h.kept r hr
  refine ⟨r', hr', hintent, ?_, hsame hstatus⟩
  rw [hstatus] at hadv
  rcases hadv with heq | hcred | ⟨hpending, -⟩
  · exact heq.symm
  · exact hcred
  · cases hpending

theorem StaysCredited.trans {s'' : Store} (h : StaysCredited s s') (h' : StaysCredited s' s'') :
    StaysCredited s s'' := by
  intro r hr hstatus
  obtain ⟨r', hr', hi, hs, htx, hidx⟩ := h r hr hstatus
  obtain ⟨r'', hr'', hi', hs', htx', hidx'⟩ := h' r' hr' hs
  exact ⟨r'', hr'', hi'.trans hi, hs', htx'.trans htx, hidx'.trans hidx⟩

/-- A payment of 5 micro-units, valid between the times 10 and 20. -/
def sampleIntent : Intent where
  payer := "0x1111111111111111111111111111111111111111"
  nonce := "0x2222222222222222222222222222222222222222222222222222222222222222"
  token := "0x4444444444444444444444444444444444444444"
  payTo := "0x3333333333333333333333333333333333333333"
  amountMicro := 5
  validAfter := 10
  validBefore := 20
  delegatorId := "delegator"
  taskId := "task"
  payer_word := by decide
  nonce_word := by decide

/-- Block `n` has time `n`; the authorization was executed in block 15. -/
def sampleChain : Chain where
  timestamp n := n
  event _ _ _ := some ⟨.used, "0xexec", 15, 0⟩
  receipt _ :=
    [⟨sampleIntent.token, [authorizationUsedTopic, topicAddress sampleIntent.payer,
        sampleIntent.nonce], "0x"⟩,
      ⟨sampleIntent.token, [transferTopic, topicAddress sampleIntent.payer,
        topicAddress sampleIntent.payTo], "0x5"⟩]

theorem sample_executed : Executed sampleChain sampleIntent ⟨.used, "0xexec", 15, 0⟩ where
  event := rfl
  kind := rfl
  after := by decide
  before := by decide
  paired := ⟨[], _, _, [], ⟨1, sampleIntent.payer, sampleIntent.payTo, 5⟩, rfl,
    nofun, by decide +kernel, by decide +kernel, rfl, by decide +kernel, rfl⟩

/-- Nothing recorded yet, at the time 100. -/
def sampleStore : Store := ⟨[], Books.empty, false, false, 100⟩

theorem sample_reachable {complete : Prop} {tr : List (Σ r, Resp r)}
    (h : Runs (world sampleChain complete) (settle "eip155:8453" sampleIntent).detach sampleStore
      tr () s') : ∃ c, (world sampleChain complete).Reachable c ∧ c.store = s' := by
  have hinit := World.Reachable.init (W := world sampleChain complete) sampleStore
    ⟨rfl, .empty, forall_mem_nil _⟩
  exact Runs.reachable hinit (.inl ⟨_, _, rfl⟩) h

/-- The facilitator settles, and the request credits its record. -/
def settledVerdict : Verdict := ⟨true, some "0xexec", some "eip155:8453", none, none⟩

def creditedStore : Store :=
  { sampleStore with
    records := [(sampleIntent.record 100).credit (some "0xexec") none]
    books := (Books.empty.credit "delegator" 5 .deposit (some "x402-task")
      (some "x402 payment 0xexec for task task") none).2 }

theorem credited_run : Runs (world sampleChain False) (settle "eip155:8453" sampleIntent).detach
    sampleStore [⟨.settlePayment sampleIntent, SettleAnswer.verdict settledVerdict⟩] ()
    creditedStore :=
  .atomic (.await rfl (.atomic .done))

/-- Some later run of any parameters finds the record, whatever head it stamps first. -/
def Selectable (s : Store) (r : Record) : Prop :=
  ∀ (p : ScanParams) (stampTs : Nat) (changed : Bool) (s' : Store),
    s.stampUnobservedFailures stampTs = .ok (changed, s') →
    ∃ bound, ∀ headTs limit, bound ≤ headTs → s'.records.length ≤ limit →
      ∃ r', r'.intent = r.intent ∧ (r' ∈ (s'.selectCandidates p headTs limit).1 ∨
        r' ∈ (s'.selectCandidates p headTs limit).2)

theorem mem_selectFirst_of_eligible {limit : Nat}
    (hr : r ∈ records) (he : eligible r = true) (hlimit : records.length ≤ limit) :
    r ∈ selectFirst eligible limit records := by
  unfold selectFirst
  rw [take_of_length_le]
  · exact mem_mergeSort.mpr (mem_filter.mpr ⟨hr, he⟩)
  · rw [length_mergeSort]
    exact Nat.le_trans (length_filter_le _ _) hlimit

theorem visitable_of_le {headTs : Nat} (h : r.nextVisitHeadTs.getD 0 ≤ headTs) :
    r.visitable headTs = true := by
  unfold Record.visitable
  cases hnext : r.nextVisitHeadTs with
  | none => rfl
  | some =>
    rw [hnext] at h
    exact decide_eq_true h

theorem Recoverable.failedEligible {block stampTs : Nat} (h : Recoverable block r)
    (hstatus : r.status = .failed) (hstamp : r.resolvedHeadTs = some stampTs) (p : ScanParams)
    {headTs : Nat} (hvisit : r.nextVisitHeadTs.getD 0 ≤ headTs)
    (hwait : stampTs + chainSeconds ((p.recheckBackoffMs[0]?).getD 0) ≤ headTs)
    (hexpired : r.intent.validBefore + p.expiryMarginSeconds < headTs) :
    r.failedEligible p headTs = true := by
  have hleft : 0 < p.recheckBackoffMs.length := length_pos_iff.mpr p.recheckBackoffMs_ne
  have hreason : r.failureReason.any (fun reason => recheckableFailures.contains reason) = true := by
    cases hr : r.failureReason with
    | none => exact absurd hr (h.failed hstatus)
    | some reason =>
      refine contains_iff_mem.mpr (mem_append_left _ ?_)
      exact h.reason reason hr
  unfold Record.failedEligible
  rw [hstatus, visitable_of_le hvisit, hstamp, h.nextRecheck, h.recheckCount, hreason]
  generalize chainSeconds ((p.recheckBackoffMs[0]?).getD 0) = wait at hwait ⊢
  cases hused : r.usedState with
  | none => simp [hleft, hwait, hexpired]
  | some state =>
    cases state with
    | unpaired => simp
    | mismatched => exact absurd hused h.usedState

theorem selectable_of_recoverable {block : Nat} (hr : r ∈ s.records) (h : Recoverable block r)
    (hstatus : r.status ≠ .credited) : Selectable s r := by
  intro p stampTs changed s' hstamp
  let r' : Record := if r.status == .failed && r.resolvedHeadTs.isNone then
    { r with resolvedHeadTs := some stampTs } else r
  have hmem : r' ∈ s'.records := by
    rw [updateRecords_ok hstamp]
    exact mem_map_of_mem hr
  have hsame : r'.intent = r.intent ∧ r'.status = r.status ∧ Recoverable block r' := by
    by_cases hsel : (r.status == .failed && r.resolvedHeadTs.isNone) = true
    · simp only [r', if_pos hsel]
      exact ⟨trivial, trivial, { h with }⟩
    · simp only [r', if_neg hsel]
      exact ⟨trivial, trivial, h⟩
  obtain ⟨hintent, hstatus', hrec⟩ := hsame
  cases hst : r.status with
  | credited => exact absurd hst hstatus
  | pending =>
    refine ⟨r'.nextVisitHeadTs.getD 0, fun headTs limit hbound hlimit => ⟨r', hintent, .inl ?_⟩⟩
    refine mem_selectFirst_of_eligible hmem ?_ hlimit
    unfold Record.pendingEligible
    rw [hstatus', hst, visitable_of_le hbound]
    rfl
  | failed =>
    obtain ⟨ts, hts⟩ : ∃ ts, r'.resolvedHeadTs = some ts := by
      cases hres : r.resolvedHeadTs with
      | none => exact ⟨stampTs, by simp [r', hst, hres]⟩
      | some ts => exact ⟨ts, by simp [r', hres]⟩
    refine ⟨max (r'.nextVisitHeadTs.getD 0)
      (max (ts + chainSeconds ((p.recheckBackoffMs[0]?).getD 0))
        (r'.intent.validBefore + p.expiryMarginSeconds + 1)),
      fun headTs limit hbound hlimit => ⟨r', hintent, .inr ?_⟩⟩
    refine mem_selectFirst_of_eligible hmem ?_ hlimit
    exact hrec.failedEligible (hstatus'.trans hst) hts p (by omega) (by omega) (by omega)

/-- **An executed payment is never written off**: its record is credited, or a run that stamps
    and selects under a late enough head visits it; it is never failed as expired or as
    cancelled, and no re-check is spent on it. -/
theorem executed_payment_recoverable (hmono : Monotone chain.timestamp)
    {c : Config Store Req Resp} (hreach : (world chain True).Reachable c) {r : Record}
    (hr : r ∈ c.store.records) {e : AuthorizationEvent} (he : Executed chain r.intent e) :
    (r.status = .credited ∨ Selectable c.store r) ∧
    r.failureReason ≠ some "authorization_expired_unused" ∧
    r.failureReason ≠ some "authorization_cancelled" ∧
    r.recheckCount = 0 ∧ r.mismatchRechecks = 0 := by
  have hinv : Inv chain True c.store := sound (verified fun _ => hmono) hreach
  have hrec := hinv.recoverable trivial r hr e he
  refine ⟨?_, fun hreason => ?_, fun hreason => ?_, hrec.recheckCount, hrec.mismatchRechecks⟩
  · by_cases hstatus : r.status = .credited
    · exact .inl hstatus
    · exact .inr (selectable_of_recoverable hr hrec hstatus)
  · exact absurd (hrec.reason _ hreason) (by decide)
  · exact absurd (hrec.reason _ hreason) (by decide)

/-- The facilitator refuses, though the authorization is executed. -/
def refusedVerdict : Verdict := ⟨false, none, none, none, some "insufficient_funds"⟩

/-- The record the request leaves behind, with no chain time of its failure. -/
def refusedRecord : Record :=
  { sampleIntent.record 100 with status := .failed, failureReason := some "insufficient_funds" }

theorem refused_run : Runs (world sampleChain True) (settle "eip155:8453" sampleIntent).detach
    sampleStore [⟨.settlePayment sampleIntent, SettleAnswer.verdict refusedVerdict⟩] ()
    { sampleStore with records := [refusedRecord] } :=
  .atomic (.await rfl (.atomic .done))

theorem executed_payment_recoverable_refused : ∃ c, (world sampleChain True).Reachable c ∧
    refusedRecord ∈ c.store.records ∧ Selectable c.store refusedRecord := by
  obtain ⟨c, hreach, hstore⟩ := sample_reachable refused_run
  have hmem : refusedRecord ∈ c.store.records := by
    rw [hstore]
    exact mem_singleton.mpr rfl
  have hmono : Monotone sampleChain.timestamp := fun _ _ h => h
  refine ⟨c, hreach, hmem, ?_⟩
  rcases (executed_payment_recoverable hmono hreach hmem sample_executed).1 with hcred | hsel
  · cases hcred
  · exact hsel

/-- **Before a run has stamped it, a refused record is not selectable**: with no chain time of
    its failure it is selected under no head, though its authorization was executed. -/
theorem refused_record_not_selectable :
    ¬ ∀ c, (world sampleChain True).Reachable c → ∀ r ∈ c.store.records,
      ∀ e, Executed sampleChain r.intent e → r.status = .credited ∨
        ∃ bound, ∀ headTs, bound ≤ headTs →
          r.pendingEligible headTs = true ∨ r.failedEligible x402Scan headTs = true := by
  intro hall
  obtain ⟨c, hreach, hstore⟩ := sample_reachable refused_run
  have hmem : refusedRecord ∈ c.store.records := by
    rw [hstore]
    exact mem_singleton.mpr rfl
  rcases hall c hreach refusedRecord hmem _ sample_executed with hcred | ⟨bound, hbound⟩
  · cases hcred
  · rcases hbound bound (Nat.le_refl _) with hpending | hfailed
    · cases hpending
    · have hnever : refusedRecord.failedEligible x402Scan bound = false := by
        unfold Record.failedEligible
        simp [refusedRecord, Intent.record]
      cases hfailed

end Motebit.X402
