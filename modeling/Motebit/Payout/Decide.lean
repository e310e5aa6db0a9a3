/-
  Motebit.Payout.Decide — DECIDING A PAYOUT FROM THE CHAIN.

  A program that decides a withdrawal either is the one that claimed it or finds it no longer
  in flight (`Decides`), so the attempts it read are all there will ever be, and a verdict over
  them stays true until it is written down.

  Main results: `verdict_sound`, `judgeLane_sound`, `resolveWithdrawal_ensures`.
-/

import Motebit.Payout.Invariant

namespace Motebit.Payout

open Motebit.Lib List Function
open Motebit.Lib.Protocol
open Motebit.Accounts

variable (sign : Tx → String) (isPublicKey : String → Bool) (killAfterMs : Nat)

/-- The protocol of the payout programs. -/
def protocol : Protocol (world sign isPublicKey killAfterMs) where
  Inv := Inv sign
  Guar := Guar sign
  Fresh _ _ := True
  refl := .refl

/-- Neither another program nor a quiet step breaks `L`. -/
abbrev Kept (t : Nat) (L : Store → Prop) : Prop :=
  Framed (protocol sign isPublicKey killAfterMs) (Quiet sign) t L

theorem calm : Calm (protocol sign isPublicKey killAfterMs) (Quiet sign) where
  guar t _ _ hq := hq.guar t
  env _ _ hi he := (Inv.env hi he).2

variable {sign isPublicKey killAfterMs} {t : Nat} {id : String}

/-! ## §1. Assertions a program may hold on to -/

variable {L : Store → Prop} {s s' : Store} {rows : List Attempt}

theorem kept_of_persists (h : ∀ s s', Persists sign s s' → L s → L s') :
    Kept sign isPublicKey killAfterMs t L :=
  ⟨fun _ s s' _ _ _ hg => h s s' hg.toPersists, fun s s' _ _ hq => h s s' hq.persists⟩

/-- A lane read is true: the account held the value at the observed slot. -/
def Observed (lane : Lane) (s : Store) : Prop :=
  ∀ o, lane.observedSlot = some o →
    o ≤ s.chain.slot ∧ s.chain.valueAt lane.account o = some lane.nonceValue

theorem Observed.persists {lane : Lane} (hp : Persists sign s s') (h : Observed lane s) :
    Observed lane s' := by
  intro o ho
  obtain ⟨hle, hval⟩ := h o ho
  refine ⟨Nat.le_trans hle hp.chain.slot, ?_⟩
  rw [hp.chain.valueAt _ _ hle]
  exact hval

/-- The program holds the withdrawal, and nothing was sent for it yet. -/
def FirstOf (sign : Tx → String) (t : Nat) (id : String) (s : Store) : Prop :=
  Held t id s ∧ ∀ tx, ¬ s.PaysOut sign id tx

/-- The program reserved the lane's value, and no payout used it. -/
def SoleUse (sign : Tx → String) (t : Nat) (lane : Lane) (s : Store) : Prop :=
  Reserves t lane.nonceValue s ∧ ∀ i tx, s.PaysOut sign i tx →
    ¬ (tx.account = lane.account ∧ tx.nonce = lane.nonceValue)

theorem kept_held : Kept sign isPublicKey killAfterMs t (Held t id) :=
  ⟨fun _ _ _ _ _ hu hg hh => (hg.held id t hu.symm hh).1, fun _ _ _ _ hq hh => hq.held hh⟩

theorem kept_reserves (v : String) : Kept sign isPublicKey killAfterMs t (Reserves t v) :=
  ⟨fun _ _ _ _ _ hu hg hr => (hg.reserves v t hu.symm hr).1, fun _ _ _ _ hq hr => hq.reserves hr⟩

theorem kept_firstOf : Kept sign isPublicKey killAfterMs t (FirstOf sign t id) where
  others _ _ _ _ _ hu hg hl := by
    obtain ⟨hh, hno⟩ := hl
    obtain ⟨hh', hback⟩ := hg.held id t hu.symm hh
    exact ⟨hh', fun tx hp => hno tx (hback tx hp)⟩
  quiet _ _ _ _ hq hl := ⟨hq.held hl.1, fun tx hp => hl.2 tx (hq.payouts id tx hp)⟩

theorem kept_soleUse (lane : Lane) : Kept sign isPublicKey killAfterMs t (SoleUse sign t lane) where
  others _ _ _ _ _ hu hg hl := by
    obtain ⟨hr, hno⟩ := hl
    obtain ⟨hr', hback⟩ := hg.reserves _ t hu.symm hr
    refine ⟨hr', fun i tx hp hsame => ?_⟩
    exact hno i tx (hback i tx hsame.2 hp) hsame
  quiet _ _ _ _ hq hl :=
    ⟨hq.reserves hl.1, fun i tx hp => hl.2 i tx (hq.payouts i tx hp)⟩

/-- Who decides a withdrawal: its own sender, or anyone once it is no longer in flight. -/
def Decides (t : Nat) (id : String) (inline : Bool) (s : Store) : Prop :=
  if inline then Held t id s else Done id s

theorem kept_decides (inline : Bool)
    (hL : ∀ s s', Persists sign s s' → (∀ tx, s'.PaysOut sign id tx → s.PaysOut sign id tx) →
      L s → L s') : Kept sign isPublicKey killAfterMs t fun s => Decides t id inline s ∧ L s where
  others u s s' _ _ hu hg hl := by
    obtain ⟨hd, hl⟩ := hl
    cases inline with
    | true =>
      obtain ⟨hh, hback⟩ := hg.held id t hu.symm hd
      exact ⟨hh, hL s s' hg.toPersists hback hl⟩
    | false =>
      obtain ⟨hdone, hback⟩ := hg.done id hd
      exact ⟨hdone, hL s s' hg.toPersists hback hl⟩
  quiet s s' _ _ hq hl := by
    obtain ⟨hd, hl⟩ := hl
    refine ⟨?_, hL s s' hq.persists (hq.payouts id) hl⟩
    cases inline with
    | true => exact hq.held hd
    | false => exact (hq.persists.done id hd).1

theorem Decides.guar {inline : Bool} {L' : Ledger} {dst : WithdrawalStatus}
    (hd : Decides t id inline s) (hm : StatusMove id .processing dst s.ledger L')
    (hdst : dst ≠ .pending) : Guar sign t s { s with ledger := L' } := by
  cases inline with
  | true => exact hm.guar hdst (by simp) hd.1
  | false => exact (hm.quiet hdst (by simp) fun _ => .inr hd.2).guar t

/-! ## §2. The snapshot and the verdict -/

/-- A copied row is still the record of its transaction. -/
structure SnapRow (sign : Tx → String) (id : String) (a : Attempt) (s : Store) : Prop where
  recorded : s.Recorded id a.signature
  true : ∃ tx, Describes sign a tx ∧ Witnessed s.chain a tx

/-- The rows a decision works from: each true, and every payout of the withdrawal among
    them. -/
def Snapshot (sign : Tx → String) (id : String) (rows : List Attempt) (s : Store) : Prop :=
  (∀ a ∈ rows, SnapRow sign id a s) ∧
  ∀ tx, s.PaysOut sign id tx → ∃ a ∈ rows, a.signature = sign tx

theorem Snapshot.persists (hp : Persists sign s s')
    (hback : ∀ tx, s'.PaysOut sign id tx → s.PaysOut sign id tx) (h : Snapshot sign id rows s) :
    Snapshot sign id rows s' := by
  refine ⟨fun a ha => ?_, fun tx hpay => h.2 tx (hback tx hpay)⟩
  obtain ⟨hrec, tx, hd, hw⟩ := h.1 a ha
  exact ⟨hp.recorded _ _ hrec, tx, hd, hw.extends hp.chain⟩

def VerdictFact (sign : Tx → String) (id : String) (s : Store) : ChainVerdict → Prop
  | .paid .. => ∃ tx, s.PaysOut sign id tx ∧ LandedOk s.chain tx
  | .notPaid _ => ∀ tx, s.PaysOut sign id tx → Dead s.chain tx
  | .undecided .. => True

theorem SnapRow.paysOut {a : Attempt} (h : SnapRow sign id a s) (hk : a.kind = .payout) {tx : Tx}
    (hd : Describes sign a tx) : s.PaysOut sign id tx := by
  refine ⟨hd.kind.symm.trans hk, ?_⟩
  rw [← hd.signature]
  exact h.recorded

/-- **A verdict is what the chain did.** -/
theorem verdict_sound (hinv : Inv sign s) (hsnap : Snapshot sign id rows s) (rpcError : Bool) :
    VerdictFact sign id s (verdictOf rows rpcError) := by
  have hpayouts : ∀ a ∈ rows.filter fun a => a.kind == .payout, a ∈ rows ∧ a.kind = .payout := by
    intro a ha
    obtain ⟨hmem, hk⟩ := mem_filter.mp ha
    exact ⟨hmem, by simpa using hk⟩
  unfold verdictOf
  dsimp only
  split
  · next a hfind =>
    -- a payout whose recorded status is finalized without error
    obtain ⟨hmem, hk⟩ := hpayouts a (mem_of_find?_eq_some hfind)
    have hfin : a.finalStatus = some true := by simpa using find?_some hfind
    obtain ⟨tx, hd, hw⟩ := (hsnap.1 a hmem).true
    exact ⟨tx, (hsnap.1 a hmem).paysOut hk hd, hw.final true hfin⟩
  · split
    · next d hdur =>
      obtain ⟨hmem, hk⟩ := hpayouts d (mem_of_find?_eq_some hdur)
      obtain ⟨txd, hd, hw⟩ := (hsnap.1 d hmem).true
      have honly : ∀ tx, s.PaysOut sign id tx → tx = txd := fun tx hpay =>
        hinv.onePayout id tx txd hpay ((hsnap.1 d hmem).paysOut hk hd)
      split
      · next hfin =>
        -- the payout landed and failed: it used its own nonce up
        obtain ⟨l, hl, htx, hok⟩ := hw.final false (by simpa using hfin)
        intro tx hpay
        rw [honly tx hpay]
        have hpast := hinv.chain.past l hl
        rw [htx] at hpast
        refine ⟨hpast, fun l' hl' htx' => ?_⟩
        have hsame : l' = l := hinv.chain.landed_unique hl' hl (by rw [htx, htx']) (by rw [htx, htx'])
        rw [hsame]
        exact hok
      · split
        · next hkill =>
          -- a kill used the payout's nonce up, and a kill is no payout
          obtain ⟨k, hkfind⟩ := Option.isSome_iff_exists.mp hkill
          obtain ⟨hkmem, hkk⟩ := mem_filter.mp (mem_of_find?_eq_some hkfind)
          have hsel := find?_some hkfind
          simp only [Bool.and_eq_true, beq_iff_eq] at hsel
          obtain ⟨⟨hkfin, hkacc⟩, hkval⟩ := hsel
          obtain ⟨ok, hok⟩ := Option.isSome_iff_exists.mp hkfin
          obtain ⟨txk, hkd, hkw⟩ := (hsnap.1 k hkmem).true
          obtain ⟨l, hl, htx, -⟩ := hkw.final ok hok
          rw [hkd.account, hd.account] at hkacc
          rw [hkd.value, hd.value] at hkval
          have hacc : txk.account = txd.account := Option.some.inj hkacc
          have hval : txk.nonce = txd.nonce := Option.some.inj hkval
          intro tx hpay
          rw [honly tx hpay]
          have hpast := hinv.chain.past l hl
          rw [htx, hacc, hval] at hpast
          refine ⟨hpast, fun l' hl' htx' => ?_⟩
          have hsame : l' = l := hinv.chain.landed_unique hl' hl (by rw [htx, htx', hacc])
            (by rw [htx, htx', hval])
          have hkinds : txd.kind = txk.kind := by rw [← htx', hsame, htx]
          rw [← hd.kind, hk, ← hkd.kind] at hkinds
          have hkkill : k.kind = .kill := by simpa using hkk
          rw [hkkill] at hkinds
          cases hkinds
        · trivial
    · next hdur =>
      -- every recorded payout is durable, so there is none
      have hempty : (rows.filter fun a => a.kind == .payout) = [] := by
        rw [eq_nil_iff_forall_not_mem]
        intro a ha
        obtain ⟨tx, hd, -⟩ := (hsnap.1 a (hpayouts a ha).1).true
        have hno := find?_eq_none.mp hdur a ha
        rw [hd.value, hd.account] at hno
        simp at hno
      rw [hempty]
      trivial

/-! ## §3. Reading the chain -/

variable {E : Err → Store → Prop}

theorem ask_ensures {r : Req} {Q : Resp r → Store → Prop}
    (hQ : ∀ a, Kept sign isPublicKey killAfterMs t (Q a))
    (h : ∀ s a s', Inv sign s → L s → Answer sign s r a s' → s' = s ∧ Q a s) :
    (protocol sign isPublicKey killAfterMs).Ensures t (Task.ask r : PayoutTask (Resp r)) L Q E := by
  refine .ask (fun a => (calm sign isPublicKey killAfterMs).stable (hQ a)) ?_
  intro s a s' hi hl ha
  obtain ⟨rfl, hq⟩ := h s a s' hi hl ha
  exact ⟨hi, Guar.refl t _, hq⟩

theorem ask_any_ensures {r : Req}
    (hL : Kept sign isPublicKey killAfterMs t L) (h : ∀ s a s', Answer sign s r a s' → s' = s) :
    (protocol sign isPublicKey killAfterMs).Ensures t (Task.ask r : PayoutTask (Resp r)) L
      (fun _ => L) E :=
  ask_ensures (fun _ => hL) fun s a s' _ hl ha => ⟨h s a s' ha, hl⟩

variable {signature : String}

theorem TrueStatus.persists {status : SignatureStatus}
    (hp : Persists sign s s') (h : TrueStatus sign s signature status) :
    TrueStatus sign s' signature status := by
  cases status with
  | finalized =>
    obtain ⟨l, hl, hsig, hok, hslot⟩ := h
    exact ⟨l, hp.chain.landed l hl, hsig, hok, hslot⟩
  | notFinalized | absent | rpcError => trivial

theorem Snapshot.readFinal (hsign : Injective sign) {ok : Bool}
    {slot : Nat} (hl : ∃ l ∈ s.chain.landed, sign l.tx = signature ∧ l.ok = ok)
    (h : Snapshot sign id rows s) :
    Snapshot sign id (updateWhere (fun b => b.signature == signature)
      (fun b => { b with finalStatus := some ok, finalSlot := some slot }) rows) s := by
  refine ⟨fun b hb => ?_, fun tx hpay => ?_⟩
  · obtain ⟨a, ha, rfl⟩ := mem_updateWhere.mp hb
    obtain ⟨hrec, tx, hd, hw⟩ := h.1 a ha
    split
    · next hsel =>
      obtain ⟨l, hlm, hlsig, hlok⟩ := hl
      have htx : l.tx = tx :=
        hsign (hlsig.trans ((beq_iff_eq.mp hsel).symm.trans hd.signature))
      refine ⟨hrec, tx, ⟨hd.signature, hd.kind, hd.account, hd.value⟩, hw.observed, ?_⟩
      exact fun ok' hok' => ⟨l, hlm, htx, hlok.trans (Option.some.inj hok')⟩
    · exact ⟨hrec, tx, hd, hw⟩
  · obtain ⟨a, ha, hsig⟩ := h.2 tx hpay
    refine ⟨_, mem_updateWhere.mpr ⟨a, ha, rfl⟩, ?_⟩
    split <;> exact hsig

section

variable (hsign : Injective sign) {K : Store → Prop}
  (hK : ∀ s s', Persists sign s s' → K s → K s')

/-- What a decision holds on to while it reads. -/
def Deciding (K : Store → Prop) (t : Nat) (id : String) (inline : Bool)
    (L : Store → Prop) (s : Store) : Prop :=
  Decides t id inline s ∧ (K s ∧ L s)

include hK in
theorem kept_deciding (inline : Bool) {L : Store → Prop}
    (hL : ∀ s s', Persists sign s s' → (∀ tx, s'.PaysOut sign id tx → s.PaysOut sign id tx) →
      L s → L s') : Kept sign isPublicKey killAfterMs t (Deciding K t id inline L) :=
  kept_decides inline fun s s' hp hback hl => ⟨hK s s' hp hl.1, hL s s' hp hback hl.2⟩

include hsign hK

/-- **The reads** of a verdict, in whatever order they are answered. -/
theorem readStatuses_ensures (inline : Bool) (n : Nat) (outstanding waiting rows : List Attempt)
    (rpcError : Bool) : (protocol sign isPublicKey killAfterMs).Ensures t
      (readStatuses id n outstanding waiting rows rpcError)
      (Deciding K t id inline (Snapshot sign id rows))
      (fun r => Deciding K t id inline (Snapshot sign id r.1)) (fun _ => K) := by
  induction n generalizing outstanding waiting rows rpcError with
  | zero => exact .pure fun _ _ hl => hl
  | succ n ih =>
    have hkept : ∀ rows, Kept sign isPublicKey killAfterMs t
        (Deciding K t id inline (Snapshot sign id rows)) :=
      fun rows => kept_deciding hK inline fun s s' hp hback hl => hl.persists hp hback
    refine .bind (Q := fun answer s => Deciding K t id inline (Snapshot sign id rows) s ∧
      ∀ a, outstanding[answer.1]? = some a → TrueStatus sign s a.signature answer.2) ?_ ?_
    · refine ask_ensures (fun answer => (hkept rows).and (kept_of_persists ?_)) ?_
      · exact fun s s' hp hl a ha => (hl a ha).persists hp
      · intro s answer s' _ hl hans
        obtain ⟨rfl, htrue⟩ := hans
        refine ⟨rfl, hl, fun a ha => htrue a.signature ?_⟩
        rw [getElem?_map, ha]
        rfl
    · intro answer
      obtain ⟨i, status⟩ := answer
      dsimp only
      split
      · exact .pure fun _ _ hl => hl.1
      next a ha =>
      cases status with
      | finalized ok slot =>
        refine .bind (Q := fun _ => Deciding K t id inline (Snapshot sign id
          (updateWhere (fun b => b.signature == a.signature)
            (fun b => { b with finalStatus := some ok, finalSlot := some slot }) rows)))
          ?_ fun _ => ih _ _ _ _
        refine .act (fun _ => (calm sign isPublicKey killAfterMs).stable (hkept _)) ?_
        intro s hi hl
        obtain ⟨l, hlm, hlsig, hlok, -⟩ := hl.2 a ha
        have hwritten : Inv sign (s.recordFinal id a.signature ok slot) ∧
            Quiet sign s (s.recordFinal id a.signature ok slot) :=
          Inv.recordFinal hi hsign ⟨l, hlm, hlsig, hlok⟩
        obtain ⟨hinv, hq⟩ := hwritten
        refine ⟨hinv, hq.guar t, ?_⟩
        obtain ⟨hdec, hk, hsnap⟩ := (hkept rows).quiet _ _ hi hinv hq hl.1
        exact ⟨hdec, hk, hsnap.readFinal hsign ⟨l, hlm, hlsig, hlok⟩⟩
      | rpcError | notFinalized | absent => exact (ih _ _ _ _).mono fun _ _ hl => hl.1

theorem readChainVerdict_ensures (inline : Bool) (rows : List Attempt) :
    (protocol sign isPublicKey killAfterMs).Ensures t (readChainVerdict id rows)
      (Deciding K t id inline (Snapshot sign id rows))
      (fun v => Deciding K t id inline fun s => VerdictFact sign id s v) (fun _ => K) := by
  unfold readChainVerdict
  split
  · next hempty =>
    -- no attempts: nothing was ever given to the network
    refine .pure fun s _ hl => ⟨hl.1, hl.2.1, fun tx hpay => ?_⟩
    obtain ⟨a, ha, -⟩ := hl.2.2.2 tx hpay
    rw [List.isEmpty_iff.mp hempty] at ha
    cases ha
  · refine (readStatuses_ensures hsign hK inline _ _ _ rows false).bind fun r => ?_
    exact .pure fun s hi hl => ⟨hl.1, hl.2.1, verdict_sound hi hl.2.2 r.2⟩

/-! ## §4. Settling -/

omit hsign in
theorem completeFromChain_ensures (inline : Bool) (signature : String) :
    (protocol sign isPublicKey killAfterMs).Ensures t (completeFromChain id signature)
      (Deciding K t id inline fun s => ∃ tx, s.PaysOut sign id tx ∧ LandedOk s.chain tx)
      (fun _ => K) (fun _ => K) := by
  have hkept : Kept sign isPublicKey killAfterMs t (Deciding K t id inline
      fun s => ∃ tx, s.PaysOut sign id tx ∧ LandedOk s.chain tx) := by
    refine kept_deciding hK inline fun s s' hp _ hl => ?_
    obtain ⟨tx, hpay, hok⟩ := hl
    exact ⟨tx, hp.payout hpay, hok.extends hp.chain⟩
  have hcalm := calm sign isPublicKey killAfterMs
  refine .bind (hcalm.step hkept fun s hi _ => ⟨hi, .refl s⟩) fun completedAt => ?_
  refine .bind (ask_any_ensures hkept fun _ _ _ ha => ha) fun signed => ?_
  cases signed with
  | false => exact .throw fun _ _ hl => hl.2.1
  | true =>
    refine .act (fun _ => hcalm.stable (kept_of_persists hK)) fun s hi hl => ?_
    have hm := complete_move s.ledger id signature completedAt
    refine ⟨?_, hl.1.guar hm (by simp), ?_⟩
    · exact .move hi (hi.ledger.step (Ledger.Step.complete s.ledger id signature completedAt
        .processing)) hm (by simp) nofun fun _ => hl.2.2
    · exact hK _ _ (hm.persists (by simp) (by simp)) hl.2.1

omit hsign in
theorem refundFromChain_ensures (inline : Bool) (by_ : NotPaidBy) :
    (protocol sign isPublicKey killAfterMs).Ensures t (Task.txn fun s => s.refundFromChain id by_)
      (Deciding K t id inline fun s => ∀ tx, s.PaysOut sign id tx → Dead s.chain tx)
      (fun _ => K) (fun _ => K) := by
  have hstable := (calm sign isPublicKey killAfterMs).stable (t := t) (kept_of_persists hK)
  refine .txn (fun _ => hstable) (fun _ => hstable) ?_ fun s e _ hl _ => hl.2.1
  intro s frozen s' hi hl hok
  unfold Store.refundFromChain at hok
  split at hok
  · cases hok
  next refunded L hfail =>
  split at hok
  · -- the freeze refused the refund: only a note is left
    obtain ⟨-, rfl⟩ := Prod.mk.inj (Except.ok.inj hok)
    obtain ⟨hinv, hq⟩ := Inv.note hi _
    exact ⟨hinv, hq.guar t, hK _ _ hq.persists hl.2.1⟩
  · obtain ⟨-, rfl⟩ := Prod.mk.inj (Except.ok.inj hok)
    obtain ⟨hL, hm⟩ := fail_move hi.ledger hfail
    refine ⟨?_, hl.1.guar hm (by simp), ?_⟩
    · exact .move hi hL hm (by simp) (fun _ _ => hl.2.2) fun hdst => by cases hdst
    · exact hK _ _ (hm.persists (by simp) (by simp [WithdrawalOpenStatus.status])) hl.2.1

/-! ## §5. The kill -/

/-- A payout row as the kill reads it: its own nonce, and a true observation. -/
def KillTarget (sign : Tx → String) (p : Attempt) (s : Store) : Prop :=
  ∃ tx, Describes sign p tx ∧ ∀ o, p.nonceObservedSlot = some o →
    o ≤ s.chain.slot ∧ s.chain.valueAt tx.account o = some tx.nonce

omit hsign hK in
theorem KillTarget.persists {p : Attempt} {s s' : Store} (hp : Persists sign s s')
    (h : KillTarget sign p s) : KillTarget sign p s' := by
  obtain ⟨tx, hd, hobs⟩ := h
  refine ⟨tx, hd, fun o ho => ?_⟩
  obtain ⟨hle, hval⟩ := hobs o ho
  refine ⟨Nat.le_trans hle hp.chain.slot, ?_⟩
  rw [hp.chain.valueAt _ _ hle]
  exact hval

omit hsign hK in
theorem TrueRead.persists {account : String} {floor : Nat} {state : LaneState} {s s' : Store}
    (hp : Persists sign s s') (h : TrueRead s account floor state) :
    TrueRead s' account floor state := by
  cases state with
  | unavailable => trivial
  | ready =>
    obtain ⟨hacc, k, hfloor, hk, hval, hobs⟩ := h
    refine ⟨hacc, k, hfloor, Nat.le_trans hk hp.chain.slot, ?_, hobs⟩
    rw [hp.chain.valueAt _ _ hk]
    exact hval

omit hsign hK in
/-- **`consumed` is true**: the account held the payout's value at the observed slot and
    another one at the slot of the read. -/
theorem judgeLane_sound {p : Attempt} {account value : String} {observed : Nat}
    {state : LaneState} {s : Store} (hi : Inv sign s)
    (hobs : observed ≤ s.chain.slot ∧ s.chain.valueAt account observed = some value)
    (hread : TrueRead s account observed state) :
    Inv sign (s.judgeLane p account value observed state).2 ∧
    Quiet sign s (s.judgeLane p account value observed state).2 := by
  unfold Store.judgeLane
  split
  · exact ⟨hi, .refl s⟩
  next lane =>
  obtain ⟨-, k, -, hk, hval, hslot⟩ := hread
  split
  · exact ⟨hi, .refl s⟩
  next slot hobserved =>
  split
  · exact ⟨hi, .refl s⟩
  next hle =>
  split
  · next hne =>
    split
    · exact ⟨hi, .refl s⟩
    · -- the read's slot is not below the observation, and shows another value
      have hks : k = slot := by
        rcases hslot with hnone | hsome
        · rw [hobserved] at hnone
          cases hnone
        · rw [hobserved] at hsome
          exact (Option.some.inj hsome).symm
      refine hi.noteConsumed ⟨observed, k, by omega, hk, hobs.2, ?_⟩
      rw [hval]
      exact fun heq => hne (Option.some.inj heq)
  · exact ⟨hi, .refl s⟩

theorem broadcastKill_ensures {tx : Tx} (hkind : tx.kind = .kill) (observed : Nat) :
    (protocol sign isPublicKey killAfterMs).Ensures t (broadcast sign id tx (some observed))
      (fun s => K s ∧ (observed ≤ s.chain.slot ∧
        s.chain.valueAt tx.account observed = some tx.nonce)) (fun _ => K) (fun _ => K) := by
  have hcalm := calm sign isPublicKey killAfterMs
  have hstable := hcalm.stable (t := t) (kept_of_persists hK)
  have hrec : Kept sign isPublicKey killAfterMs t fun s => K s ∧ s.Recorded id (sign tx) :=
    (kept_of_persists hK).and (kept_of_persists fun _ _ hp => hp.recorded _ _)
  refine .bind (Q := fun _ s => K s ∧ s.Recorded id (sign tx)) ?_ fun _ => ?_
  · refine .txn (fun _ => hcalm.stable hrec) (fun _ => hstable) ?_ fun s e _ hl _ => hl.1
    intro s _ s' hi hl hok
    obtain ⟨hinv, hq, hr⟩ := Inv.recordKill hi hsign hkind (fun o ho => by cases ho; exact hl.2) hok
    exact ⟨hinv, hq.guar t, hK _ _ hq.persists hl.1, hr⟩
  · refine .bind (Q := fun _ => K) ?_ fun _ => ?_
    · refine .act (fun _ => hstable) fun s hi hl => ?_
      obtain ⟨hinv, hq⟩ := Inv.broadcast hi hl.2
      exact ⟨hinv, hq.guar t, hK _ _ hq.persists hl.1⟩
    · exact ask_any_ensures (kept_of_persists hK) fun _ _ _ ha => ha

theorem requestKill_ensures :
    (protocol sign isPublicKey killAfterMs).Ensures t (requestKill sign id) K (fun _ => K)
      (fun _ => K) := by
  have hcalm := calm sign isPublicKey killAfterMs
  have hkeptK : Kept sign isPublicKey killAfterMs t K := kept_of_persists hK
  refine .bind (Q := fun payout s => K s ∧ ∀ p, payout = some p → KillTarget sign p s)
    ?_ fun payout => ?_
  · refine .act (fun payout => hcalm.stable (hkeptK.and (kept_of_persists ?_))) ?_
    · exact fun s s' hp hl p hpay => (hl p hpay).persists hp
    · intro s hi hk
      refine ⟨hi, Guar.refl t s, hk, fun p hp => ?_⟩
      have hmem := mem_of_mem_filter (mem_of_find?_eq_some hp)
      obtain ⟨tx, hd, hw⟩ := hi.attempts p (mem_of_mem_filter (mem_mergeSort.mp hmem))
      exact ⟨tx, hd, hw.observed⟩
  · cases payout with
    | none => exact .pure fun _ _ hl => hl.1
    | some p =>
      refine .mono (L := fun s => K s ∧ KillTarget sign p s) ?_ fun s _ hl => ⟨hl.1, hl.2 p rfl⟩
      dsimp only
      split
      · exact .pure fun _ _ hl => hl.1
      · next account value observed hacc hval hobs =>
        -- the payout's own account and value, as its row has them
        set L : Store → Prop := fun s => K s ∧ (observed ≤ s.chain.slot ∧
          s.chain.valueAt account observed = some value) with hL
        have hkeptL : Kept sign isPublicKey killAfterMs t L := by
          refine hkeptK.and (kept_of_persists fun s s' hp hl => ?_)
          refine ⟨Nat.le_trans hl.1 hp.chain.slot, ?_⟩
          rw [hp.chain.valueAt _ _ hl.1]
          exact hl.2
        refine .mono (L := L) ?_ fun s _ hl => ?_
        · refine .bind (Q := fun state s => L s ∧ TrueRead s account observed state) ?_
            fun state => ?_
          · refine ask_ensures (fun state => hkeptL.and
              (kept_of_persists fun _ _ hp h => h.persists hp)) ?_
            intro s state s' _ hl ha
            exact ⟨ha.1, hl, ha.2⟩
          · refine .bind (Q := fun _ => L) ?_ fun judged => ?_
            · refine .act (fun _ => hcalm.stable hkeptL) fun s hi hl => ?_
              obtain ⟨hinv, hq⟩ := judgeLane_sound (p := p) hi hl.1.2 hl.2
              exact ⟨hinv, hq.guar t, hkeptL.quiet _ _ hi hinv hq hl.1⟩
            · cases judged with
              | some => exact .pure fun _ _ hl => hl.1
              | none =>
                refine .tryCatch (Ensures.bind (broadcastKill_ensures hsign hK rfl observed)
                  fun refused => ?_) fun e => .pure fun _ _ hl => hl
                cases refused with
                | none | some => exact .pure fun _ _ hl => hl
        · obtain ⟨hk, tx, hd, htrue⟩ := hl
          rw [hd.account] at hacc
          rw [hd.value] at hval
          have hslot := htrue observed hobs
          rw [Option.some.inj hacc, Option.some.inj hval] at hslot
          exact ⟨hk, hslot⟩
      · exact .pure fun _ _ hl => hl.1

/-! ## §6. Deciding -/

omit hsign hK in
theorem toDecide_sound {inline : Bool} {s : Store} (hi : Inv sign s)
    (hheld : inline = true → Held t id s) {w : Withdrawal} {rows : List Attempt}
    (hread : s.toDecide id inline = some (w, rows)) :
    Decides t id inline s ∧ Snapshot sign id rows s := by
  unfold Store.toDecide at hread
  split at hread
  · cases hread
  next w₀ hfind =>
  split at hread
  · cases hread
  next hproc =>
  split at hread
  · cases hread
  split at hread
  · cases hread
  next hflight =>
  obtain ⟨-, rfl⟩ := Prod.mk.inj (Option.some.inj hread)
  have hstatus : HasStatus s.ledger id .processing :=
    ⟨w₀, mem_of_find?_eq_some hfind, by simpa using find?_some hfind,
      not_not.mp hproc⟩
  refine ⟨?_, fun a ha => ?_, fun tx hpay => ?_⟩
  · cases inline with
    | true => exact hheld rfl
    | false =>
      refine ⟨⟨.processing, by simp, hstatus⟩, fun hmem => hflight ?_⟩
      simpa using hmem
  · obtain ⟨hmem, hid⟩ := mem_filter.mp (mem_mergeSort.mp ha)
    exact ⟨⟨a, hmem, beq_iff_eq.mp hid, rfl⟩, hi.attempts a hmem⟩
  · obtain ⟨-, a, ha, hid, hsig⟩ := hpay
    refine ⟨a, mem_mergeSort.mpr (mem_filter.mpr ⟨ha, ?_⟩), hsig⟩
    exact beq_iff_eq.mpr hid

/-- **Deciding one withdrawal**, by its own sender or after it. -/
theorem resolveWithdrawal_ensures (inline : Bool) :
    (protocol sign isPublicKey killAfterMs).Ensures t (resolveWithdrawal sign killAfterMs id inline)
      (fun s => K s ∧ (inline = true → Held t id s)) (fun _ => K) (fun _ => K) := by
  have hcalm := calm sign isPublicKey killAfterMs
  have hkeptK : Kept sign isPublicKey killAfterMs t K := kept_of_persists hK
  refine .bind (Q := fun d s => K s ∧ ∀ w rows, d = some (w, rows) →
    Decides t id inline s ∧ Snapshot sign id rows s) ?_ fun d => ?_
  · refine .act (fun d => hcalm.stable (hkeptK.and ?_)) fun s hi hl => ?_
    · have hsnap : ∀ rows, Kept sign isPublicKey killAfterMs t fun s =>
          Decides t id inline s ∧ Snapshot sign id rows s :=
        fun rows => kept_decides inline fun s s' hp hback h => h.persists hp hback
      exact ⟨fun u s s' hi hi' hu hg hl w rows hd =>
          (hsnap rows).others u s s' hi hi' hu hg (hl w rows hd),
        fun s s' hi hi' hq hl w rows hd => (hsnap rows).quiet s s' hi hi' hq (hl w rows hd)⟩
    · exact ⟨hi, Guar.refl t s, hl.1, fun w rows hd => toDecide_sound hi hl.2 hd⟩
  · cases d with
    | none => exact .pure fun _ _ hl => hl.1
    | some d =>
      obtain ⟨w, rows⟩ := d
      refine .mono (L := Deciding K t id inline (Snapshot sign id rows)) ?_ ?_
      · refine (readChainVerdict_ensures hsign hK inline rows).bind fun verdict => ?_
        cases verdict with
        | paid signature =>
          exact (completeFromChain_ensures hK inline signature).bind fun _ => .pure fun _ _ hl => hl
        | notPaid by_ => exact refundFromChain_ensures hK inline by_
        | undecided =>
          refine .mono (L := K) ?_ fun _ _ hl => hl.2.1
          cases inline with
          | true => exact hcalm.step hkeptK fun s hi _ => Inv.note hi _
          | false =>
            refine .bind (hcalm.step hkeptK fun s hi _ => ⟨hi, .refl s⟩) fun now => ?_
            split
            · exact (requestKill_ensures hsign hK).bind fun _ => .pure fun _ _ hl => hl
            · exact .pure fun _ _ hl => hl
      · intro s _ hl
        obtain ⟨hd, hsnap⟩ := hl.2 w rows rfl
        exact ⟨hd, hl.1, hsnap⟩

end

end Motebit.Payout
