/-
  Motebit.Payout.Invariant — WHAT THE RECORD, THE LEDGER AND THE CHAIN HAVE IN COMMON.

  A payout is decided from its recorded attempts, so the attempts have to say the truth about
  everything that was ever given to the network.  `Inv` ties each attempt to a transaction,
  each transaction to one withdrawal and one nonce value, and each settled withdrawal to what
  the chain did; `Guar` says what one running program leaves to the others.

  Main results: `Inv.move`, `Inv.recordPayout`, `Inv.recordKill`, `Inv.recordFinal`,
  `Inv.claimLane`, `Inv.env`.
-/

import Motebit.Payout.Model

namespace Motebit.Payout

open Motebit.Lib List Function
open Motebit.Accounts
open Ledger

/-! ## §1. Vocabulary -/

def HasStatus (L : Ledger) (id : String) (st : WithdrawalStatus) : Prop :=
  ∃ w ∈ L.withdrawals, w.withdrawalId = id ∧ w.status = st

/-- The withdrawal exists and has left `pending`. -/
def Store.Claimed (s : Store) (id : String) : Prop :=
  ∃ st, st ≠ .pending ∧ HasStatus s.ledger id st

/-- The row was written for this transaction. -/
structure Describes (sign : Tx → String) (a : Attempt) (tx : Tx) : Prop where
  signature : a.signature = sign tx
  kind : a.kind = tx.kind
  account : a.nonceAccount = some tx.account
  value : a.nonceValue = some tx.nonce

/-- What the chain says about the transaction a row was written for. -/
structure Witnessed (chain : Chain) (a : Attempt) (tx : Tx) : Prop where
  observed : ∀ o, a.nonceObservedSlot = some o →
    o ≤ chain.slot ∧ chain.valueAt tx.account o = some tx.nonce
  final : ∀ ok, a.finalStatus = some ok → ∃ l ∈ chain.landed, l.tx = tx ∧ l.ok = ok

/-- The attempts table has a row for this withdrawal and signature. -/
def Store.Recorded (s : Store) (id signature : String) : Prop :=
  ∃ a ∈ s.attempts, a.withdrawalId = id ∧ a.signature = signature

/-- The transaction can never land ok: its nonce is past, and if it landed it failed. -/
def Dead (chain : Chain) (tx : Tx) : Prop :=
  chain.Past tx.account tx.nonce ∧ ∀ l ∈ chain.landed, l.tx = tx → l.ok = false

def LandedOk (chain : Chain) (tx : Tx) : Prop := ∃ l ∈ chain.landed, l.tx = tx ∧ l.ok = true

section

variable (sign : Tx → String)

/-- A recorded payout of this withdrawal. -/
def Store.PaysOut (s : Store) (id : String) (tx : Tx) : Prop :=
  tx.kind = .payout ∧ s.Recorded id (sign tx)

/-- **The invariant.** -/
structure Inv (s : Store) : Prop where
  chain : s.chain.Ok
  ledger : s.ledger.Settled
  attempts : ∀ a ∈ s.attempts, ∃ tx, Describes sign a tx ∧ Witnessed s.chain a tx
  payoutClaimed : ∀ id tx, s.PaysOut sign id tx → s.Claimed id
  onePayout : ∀ id tx tx', s.PaysOut sign id tx → s.PaysOut sign id tx' → tx = tx'
  oneUse : ∀ id id' tx tx', s.PaysOut sign id tx → s.PaysOut sign id' tx' →
    tx.account = tx'.account → tx.nonce = tx'.nonce → id = id'
  sent : ∀ p ∈ s.sent, s.Recorded p.1 (sign p.2)
  landed : ∀ l ∈ s.chain.landed, ∃ id, (id, l.tx) ∈ s.sent
  failed : ∀ id tx, HasStatus s.ledger id .failed → s.PaysOut sign id tx → Dead s.chain tx
  completed : ∀ id, HasStatus s.ledger id .completed →
    ∃ tx, s.PaysOut sign id tx ∧ LandedOk s.chain tx
  inFlight : ∀ id ∈ s.payoutsInFlight, s.Claimed id
  owned : ∀ id t, s.owner id = some t → s.Claimed id
  consumed : ∀ p ∈ s.consumed, s.chain.Past p.1 p.2

end

/-- The program `t` claimed the withdrawal and its payout is in flight. -/
def Held (t : Nat) (id : String) (s : Store) : Prop :=
  s.owner id = some t ∧ id ∈ s.payoutsInFlight ∧ HasStatus s.ledger id .processing

def Reserves (t : Nat) (value : String) (s : Store) : Prop :=
  s.reserver value = some t ∧ value ∈ s.reservedNonces

/-- No program of this process can send a payout of the withdrawal any more. -/
def Done (id : String) (s : Store) : Prop := s.Claimed id ∧ id ∉ s.payoutsInFlight

section

variable (sign : Tx → String)

/-- What every step leaves in place. -/
structure Persists (s s' : Store) : Prop where
  chain : s.chain.Extends s'.chain
  claimed : ∀ id, s.Claimed id → s'.Claimed id
  failed : ∀ id, HasStatus s.ledger id .failed → HasStatus s'.ledger id .failed
  owner : ∀ id t, s.owner id = some t → s'.owner id = some t
  recorded : ∀ id sig, s.Recorded id sig → s'.Recorded id sig
  done : ∀ id, Done id s → Done id s' ∧ ∀ tx, s'.PaysOut sign id tx → s.PaysOut sign id tx

/-- The guarantee of program `u`: what others hold or reserved stays theirs, and no payout is
    recorded for it. -/
structure Guar (u : Nat) (s s' : Store) : Prop extends Persists sign s s' where
  held : ∀ id t, t ≠ u → Held t id s →
    Held t id s' ∧ ∀ tx, s'.PaysOut sign id tx → s.PaysOut sign id tx
  reserves : ∀ v t, t ≠ u → Reserves t v s →
    Reserves t v s' ∧ ∀ id tx, tx.nonce = v → s'.PaysOut sign id tx → s.PaysOut sign id tx

/-- A step that leaves the process's memory, the payouts and the statuses of payouts in flight
    alone. -/
structure Quiet (s s' : Store) : Prop where
  chain : s.chain.Extends s'.chain
  claimed : ∀ id, s.Claimed id → s'.Claimed id
  failed : ∀ id, HasStatus s.ledger id .failed → HasStatus s'.ledger id .failed
  recorded : ∀ id sig, s.Recorded id sig → s'.Recorded id sig
  payouts : ∀ id tx, s'.PaysOut sign id tx → s.PaysOut sign id tx
  owner : s'.owner = s.owner
  reserver : s'.reserver = s.reserver
  inFlight : s'.payoutsInFlight = s.payoutsInFlight
  reserved : s'.reservedNonces = s.reservedNonces
  processing : ∀ id ∈ s.payoutsInFlight, HasStatus s.ledger id .processing →
    HasStatus s'.ledger id .processing

end

variable {sign : Tx → String} {s s' : Store} {id : String}

/-! ## §2. Consequences -/

theorem Persists.refl (s : Store) : Persists sign s s :=
  ⟨.refl _, fun _ h => h, fun _ h => h, fun _ _ h => h, fun _ _ h => h,
    fun _ h => ⟨h, fun _ h' => h'⟩⟩

theorem Guar.refl (u : Nat) (s : Store) : Guar sign u s s :=
  ⟨.refl s, fun _ _ _ h => ⟨h, fun _ h' => h'⟩, fun _ _ _ h => ⟨h, fun _ _ _ h' => h'⟩⟩

theorem Quiet.refl (s : Store) : Quiet sign s s :=
  ⟨.refl _, fun _ h => h, fun _ h => h, fun _ _ h => h, fun _ _ h => h, rfl, rfl, rfl, rfl,
    fun _ _ h => h⟩

theorem Quiet.persists (h : Quiet sign s s') : Persists sign s s' where
  __ := h
  owner i t ho := by
    rw [h.owner]
    exact ho
  done i hd := by
    refine ⟨⟨h.claimed i hd.1, ?_⟩, fun tx => h.payouts i tx⟩
    rw [h.inFlight]
    exact hd.2

variable {t : Nat} {tx : Tx} {a : Attempt} {L L' : Ledger} {src dst : WithdrawalStatus}
  {ok : Withdrawal → Bool} {i : String} {observed : Option Nat}

theorem Quiet.held (h : Quiet sign s s') (hh : Held t id s) : Held t id s' := by
  refine ⟨?_, ?_, h.processing id hh.2.1 hh.2.2⟩
  · rw [h.owner]
    exact hh.1
  · rw [h.inFlight]
    exact hh.2.1

theorem Quiet.reserves (h : Quiet sign s s') {v : String} (hr : Reserves t v s) :
    Reserves t v s' := by
  unfold Reserves at hr ⊢
  rw [h.reserver, h.reserved]
  exact hr

theorem Quiet.guar (h : Quiet sign s s') (u : Nat) : Guar sign u s s' where
  toPersists := h.persists
  held i _ _ hh := ⟨h.held hh, fun tx => h.payouts i tx⟩
  reserves _ _ _ hr := ⟨h.reserves hr, fun i tx _ => h.payouts i tx⟩

theorem Persists.payout (h : Persists sign s s') (hp : s.PaysOut sign id tx) :
    s'.PaysOut sign id tx :=
  ⟨hp.1, h.recorded _ _ hp.2⟩

variable {c c' : Chain}

theorem LandedOk.extends (h : LandedOk c tx) (he : c.Extends c') : LandedOk c' tx := by
  obtain ⟨l, hl, htx, hok⟩ := h
  exact ⟨l, he.landed l hl, htx, hok⟩

theorem Dead.extends (h : Dead c tx) (he : c.Extends c') : Dead c' tx := by
  refine ⟨h.1.extends he, fun l hl htx => ?_⟩
  rcases he.dead l hl with hold | hnew
  · exact h.2 l hold htx
  · rw [htx] at hnew
    exact absurd h.1 hnew

theorem Witnessed.extends (h : Witnessed c a tx) (he : c.Extends c') : Witnessed c' a tx where
  observed o ho := by
    obtain ⟨hle, hval⟩ := h.observed o ho
    refine ⟨Nat.le_trans hle he.slot, ?_⟩
    rw [he.valueAt _ _ hle]
    exact hval
  final ok hok := by
    obtain ⟨l, hl, htx, hlok⟩ := h.final ok hok
    exact ⟨l, he.landed l hl, htx, hlok⟩

theorem Inv.status_unique (h : Inv sign s) {st st' : WithdrawalStatus}
    (h₁ : HasStatus s.ledger id st) (h₂ : HasStatus s.ledger id st') : st = st' := by
  obtain ⟨w, hw, hid, rfl⟩ := h₁
  obtain ⟨w', hw', hid', rfl⟩ := h₂
  rw [inj_on_of_nodup_map h.ledger.ids hw hw' (hid.trans hid'.symm)]

theorem Inv.not_claimed_of_pending (h : Inv sign s) (hp : HasStatus s.ledger id .pending) :
    ¬ s.Claimed id := by
  intro hc
  obtain ⟨st, hne, hst⟩ := hc
  exact hne (h.status_unique hst hp)

theorem Inv.no_payout_of_pending (h : Inv sign s) (hp : HasStatus s.ledger id .pending) (tx : Tx) :
    ¬ s.PaysOut sign id tx :=
  fun hpay => h.not_claimed_of_pending hp (h.payoutClaimed id tx hpay)

theorem Inv.payout_of_row (h : Inv sign s) (hsign : Injective sign) (ha : a ∈ s.attempts)
    (hsig : a.signature = sign tx) : Describes sign a tx ∧ Witnessed s.chain a tx := by
  obtain ⟨tx', hd, hw⟩ := h.attempts a ha
  have heq : tx' = tx := hsign (hd.signature.symm.trans hsig)
  rw [← heq]
  exact ⟨hd, hw⟩

/-! ## §3. A withdrawal changes its status -/

/-- The statuses before and after a write that moves `id` from `src` to `dst`. -/
structure StatusMove (id : String) (src dst : WithdrawalStatus) (L L' : Ledger) : Prop where
  forth : ∀ i st, HasStatus L i st → HasStatus L' i st ∨
    (i = id ∧ st = src ∧ HasStatus L' id dst)
  back : ∀ i st, HasStatus L' i st → HasStatus L i st ∨
    (i = id ∧ st = dst ∧ HasStatus L id src)

theorem StatusMove.refl (id : String) (src dst : WithdrawalStatus) (L : Ledger) :
    StatusMove id src dst L L := ⟨fun _ _ h => .inl h, fun _ _ h => .inl h⟩

variable {u : Withdrawal → Withdrawal}

theorem StatusMove.update {id : String} (hok : ∀ w, ok w = true → w.status = src)
    (hu : ∀ w, (u w).withdrawalId = w.withdrawalId ∧ (w.status = src → (u w).status = dst))
    (hL' : L'.withdrawals = updateWhere (fun w => w.withdrawalId == id && ok w) u L.withdrawals) :
    StatusMove id src dst L L' where
  forth i st hst := by
    obtain ⟨w, hw, rfl, rfl⟩ := hst
    unfold HasStatus
    rw [hL']
    cases hp : (w.withdrawalId == id && ok w) with
    | false => exact .inl ⟨w, mem_updateWhere.mpr ⟨w, hw, by simp [hp]⟩, rfl, rfl⟩
    | true =>
      obtain ⟨hid, hsrc⟩ := Bool.and_eq_true_iff.mp hp
      rw [beq_iff_eq] at hid
      refine .inr ⟨hid, hok w hsrc, u w, mem_updateWhere.mpr ⟨w, hw, by simp [hp]⟩, ?_, ?_⟩
      · rw [(hu w).1]
        exact hid
      · exact (hu w).2 (hok w hsrc)
  back i st hst := by
    obtain ⟨w', hw', rfl, rfl⟩ := hst
    rw [hL'] at hw'
    obtain ⟨w, hw, rfl⟩ := mem_updateWhere.mp hw'
    cases hp : (w.withdrawalId == id && ok w) with
    | false =>
      exact .inl ⟨w, hw, rfl, rfl⟩
    | true =>
      obtain ⟨hid, hsrc⟩ := Bool.and_eq_true_iff.mp hp
      rw [beq_iff_eq] at hid
      rw [if_pos rfl]
      refine .inr ⟨?_, (hu w).2 (hok w hsrc), w, hw, hid, hok w hsrc⟩
      rw [(hu w).1]
      exact hid

theorem StatusMove.claimed (hm : StatusMove id src dst s.ledger L') (hdst : dst ≠ .pending)
    (hc : s.Claimed i) : ({ s with ledger := L' } : Store).Claimed i := by
  obtain ⟨st, hne, hst⟩ := hc
  rcases hm.forth i st hst with h | ⟨rfl, -, h⟩
  · exact ⟨st, hne, h⟩
  · exact ⟨dst, hdst, h⟩

/-- **A status move** keeps the invariant if the chain bears the new status out. -/
theorem Inv.move (h : Inv sign s) (hL' : L'.Settled) (hm : StatusMove id src dst s.ledger L')
    (hdst : dst ≠ .pending) (hfailed : dst = .failed → HasStatus s.ledger id src →
      ∀ tx, s.PaysOut sign id tx → Dead s.chain tx)
    (hcompleted : dst = .completed → ∃ tx, s.PaysOut sign id tx ∧ LandedOk s.chain tx) :
    Inv sign { s with ledger := L' } := by
  refine ⟨h.chain, hL', h.attempts, ?_, h.onePayout, h.oneUse, h.sent, h.landed, ?_, ?_, ?_, ?_,
    h.consumed⟩
  · exact fun i tx hp => hm.claimed hdst (h.payoutClaimed i tx hp)
  · intro i tx hst hp
    rcases hm.back i _ hst with hold | ⟨rfl, hd, hsrc⟩
    · exact h.failed i tx hold hp
    · exact hfailed hd.symm hsrc tx hp
  · intro i hst
    rcases hm.back i _ hst with hold | ⟨rfl, hd, -⟩
    · exact h.completed i hold
    · exact hcompleted hd.symm
  · exact fun i hi => hm.claimed hdst (h.inFlight i hi)
  · exact fun i t ho => hm.claimed hdst (h.owned i t ho)

section

variable (hm : StatusMove id src dst s.ledger L')
include hm

theorem StatusMove.persists (hdst : dst ≠ .pending)
    (hsrc : src ≠ .failed) : Persists sign s { s with ledger := L' } where
  chain := .refl _
  claimed _ hc := hm.claimed hdst hc
  failed i hf := by
    rcases hm.forth i _ hf with hkeep | ⟨-, heq, -⟩
    · exact hkeep
    · exact absurd heq.symm hsrc
  owner _ _ ho := ho
  recorded _ _ hr := hr
  done _ hd := ⟨⟨hm.claimed hdst hd.1, hd.2⟩, fun _ hp => hp⟩

theorem StatusMove.quiet (hdst : dst ≠ .pending)
    (hsrc : src ≠ .failed) (hstay : src = .processing → dst = .processing ∨ id ∉ s.payoutsInFlight) :
    Quiet sign s { s with ledger := L' } := by
  have hp : Persists sign s { s with ledger := L' } := hm.persists hdst hsrc
  refine ⟨hp.chain, hp.claimed, hp.failed, hp.recorded, fun _ _ h => h, rfl, rfl, rfl, rfl, ?_⟩
  intro i hi hst
  rcases hm.forth i _ hst with hkeep | ⟨rfl, heq, hnew⟩
  · exact hkeep
  · rcases hstay heq.symm with hd | hnot
    · rwa [hd] at hnew
    · exact absurd hi hnot

theorem StatusMove.guar {u : Nat} (hdst : dst ≠ .pending)
    (hsrc : src ≠ .failed) (hown : s.owner id = some u) :
    Guar sign u s { s with ledger := L' } where
  toPersists := hm.persists hdst hsrc
  held i t ht hh := by
    refine ⟨⟨hh.1, hh.2.1, ?_⟩, fun _ hp => hp⟩
    rcases hm.forth i _ hh.2.2 with hkeep | ⟨rfl, -, -⟩
    · exact hkeep
    · have heq := hh.1
      rw [hown] at heq
      exact absurd (Option.some.inj heq).symm ht
  reserves _ _ _ hr := ⟨hr, fun _ _ _ hp => hp⟩

end

/-! ## §4. The attempts table -/

theorem paysOut_append (hsign : Injective sign) (hsig : a.signature = sign tx) {tx' : Tx}
    (hp : ({ s with attempts := s.attempts ++ [a] } : Store).PaysOut sign i tx') :
    s.PaysOut sign i tx' ∨ (i = a.withdrawalId ∧ tx' = tx ∧ tx.kind = .payout) := by
  obtain ⟨hkind, b, hb, hid, hbsig⟩ := hp
  rcases mem_append.mp hb with hb | hb
  · exact .inl ⟨hkind, b, hb, hid, hbsig⟩
  · rw [mem_singleton.mp hb] at hid hbsig
    have heq : tx' = tx := hsign (hbsig.symm.trans hsig)
    rw [heq] at hkind
    exact .inr ⟨hid.symm, heq, hkind⟩

theorem recorded_append (a : Attempt) {sig : String} (hr : s.Recorded i sig) :
    ({ s with attempts := s.attempts ++ [a] } : Store).Recorded i sig := by
  obtain ⟨b, hb, hid, hsig⟩ := hr
  exact ⟨b, mem_append_left _ hb, hid, hsig⟩

/-- A row more, for a transaction that is no payout or the first payout of a withdrawal that
    is not failed, over a nonce value no payout used. -/
theorem Inv.append (h : Inv sign s) (hsign : Injective sign) (hd : Describes sign a tx)
    (hw : Witnessed s.chain a tx) (hpay : tx.kind = .payout → s.Claimed a.withdrawalId ∧
      ¬ HasStatus s.ledger a.withdrawalId .failed ∧
      (∀ tx', ¬ s.PaysOut sign a.withdrawalId tx') ∧
      ∀ i tx', s.PaysOut sign i tx' → ¬ (tx'.account = tx.account ∧ tx'.nonce = tx.nonce)) :
    Inv sign { s with attempts := s.attempts ++ [a] } := by
  refine ⟨h.chain, h.ledger, ?_, ?_, ?_, ?_, ?_, h.landed, ?_, ?_, h.inFlight, h.owned, h.consumed⟩
  · exact forall_mem_append.mpr ⟨h.attempts, forall_mem_singleton.mpr ⟨tx, hd, hw⟩⟩
  · intro i tx' hp
    rcases paysOut_append hsign hd.signature hp with hold | ⟨rfl, -, hk⟩
    · exact h.payoutClaimed i tx' hold
    · exact (hpay hk).1
  · intro i tx₁ tx₂ h₁ h₂
    rcases paysOut_append hsign hd.signature h₁ with h₁ | ⟨hi, rfl, hk⟩ <;>
      rcases paysOut_append hsign hd.signature h₂ with h₂ | ⟨hi', rfl, hk'⟩
    · exact h.onePayout i tx₁ tx₂ h₁ h₂
    · rw [hi'] at h₁
      exact absurd h₁ ((hpay hk').2.2.1 tx₁)
    · rw [hi] at h₂
      exact absurd h₂ ((hpay hk).2.2.1 tx₂)
    · rfl
  · intro i i' tx₁ tx₂ h₁ h₂ ha hn
    rcases paysOut_append hsign hd.signature h₁ with h₁ | ⟨hi, rfl, hk⟩ <;>
      rcases paysOut_append hsign hd.signature h₂ with h₂ | ⟨hi', rfl, hk'⟩
    · exact h.oneUse i i' tx₁ tx₂ h₁ h₂ ha hn
    · exact absurd ⟨ha, hn⟩ ((hpay hk').2.2.2 i tx₁ h₁)
    · exact absurd ⟨ha.symm, hn.symm⟩ ((hpay hk).2.2.2 i' tx₂ h₂)
    · rw [hi, hi']
  · exact fun p hp => recorded_append a (h.sent p hp)
  · intro i tx' hst hp
    rcases paysOut_append hsign hd.signature hp with hold | ⟨rfl, -, hk⟩
    · exact h.failed i tx' hst hold
    · exact absurd hst (hpay hk).2.1
  · intro i hst
    obtain ⟨tx', hp, hl⟩ := h.completed i hst
    exact ⟨tx', ⟨hp.1, recorded_append a hp.2⟩, hl⟩

theorem recordDurableAttempt_cases (hok : s.recordDurableAttempt sign id tx observed = .ok ((), s')) :
    (s' = s ∧ s.Recorded id (sign tx)) ∨
    s' = { s with attempts := s.attempts ++ [newAttempt sign id tx observed s.clock] } := by
  unfold Store.recordDurableAttempt at hok
  split at hok
  · cases hok
  split at hok
  · next hany =>
    cases hok
    obtain ⟨a, ha, hsel⟩ := any_eq_true.mp hany
    rw [Bool.and_eq_true, beq_iff_eq, beq_iff_eq] at hsel
    exact .inl ⟨rfl, a, ha, hsel.1, hsel.2⟩
  · cases hok
    exact .inr rfl

theorem newAttempt_describes (tx : Tx) (observed : Option Nat) (now : Nat) :
    Describes sign (newAttempt sign id tx observed now) tx := ⟨rfl, rfl, rfl, rfl⟩

theorem newAttempt_witnessed {chain : Chain} (now : Nat)
    (hobs : ∀ o, observed = some o → o ≤ chain.slot ∧ chain.valueAt tx.account o = some tx.nonce) :
    Witnessed chain (newAttempt sign id tx observed now) tx :=
  ⟨hobs, nofun⟩

/-- **Recording a payout**, by the program that holds the withdrawal and the nonce value. -/
theorem Inv.recordPayout (h : Inv sign s) (hsign : Injective sign)
    (hkind : tx.kind = .payout) (hheld : Held t id s) (hres : Reserves t tx.nonce s)
    (hfirst : ∀ tx', ¬ s.PaysOut sign id tx')
    (hunused : ∀ i tx', s.PaysOut sign i tx' → ¬ (tx'.account = tx.account ∧ tx'.nonce = tx.nonce))
    (hobs : ∀ o, observed = some o →
      o ≤ s.chain.slot ∧ s.chain.valueAt tx.account o = some tx.nonce)
    (hok : s.recordDurableAttempt sign id tx observed = .ok ((), s')) :
    Inv sign s' ∧ Guar sign t s s' ∧ Held t id s' ∧ Reserves t tx.nonce s' ∧
      s'.Recorded id (sign tx) := by
  rcases recordDurableAttempt_cases hok with ⟨rfl, hrec⟩ | rfl
  · exact ⟨h, .refl t _, hheld, hres, hrec⟩
  · have hnew : Describes sign (newAttempt sign id tx observed s.clock) tx :=
      newAttempt_describes tx observed s.clock
    have hp : ∀ {i tx'}, ({ s with attempts := s.attempts ++
        [newAttempt sign id tx observed s.clock] } : Store).PaysOut sign i tx' →
        s.PaysOut sign i tx' ∨ (i = id ∧ tx' = tx ∧ tx.kind = .payout) :=
      fun hp => paysOut_append hsign hnew.signature hp
    refine ⟨?_, ⟨⟨.refl _, fun _ hc => hc, fun _ hf => hf, fun _ _ ho => ho,
      fun _ _ hr => recorded_append _ hr, ?_⟩, ?_, ?_⟩, hheld, hres, ?_⟩
    · refine h.append hsign hnew (newAttempt_witnessed s.clock hobs) fun _ => ?_
      refine ⟨⟨.processing, by simp, hheld.2.2⟩, fun hf => ?_, hfirst, hunused⟩
      cases h.status_unique hheld.2.2 hf
    · -- a payout in flight is not done
      intro i hdone
      refine ⟨hdone, fun tx' hpay => ?_⟩
      rcases hp hpay with hold | ⟨rfl, -, -⟩
      · exact hold
      · exact absurd hheld.2.1 hdone.2
    · intro i u hu hh
      refine ⟨hh, fun tx' hpay => ?_⟩
      rcases hp hpay with hold | ⟨rfl, -, -⟩
      · exact hold
      · have heq := hh.1
        rw [hheld.1] at heq
        exact absurd (Option.some.inj heq).symm hu
    · intro v u hu hr
      refine ⟨hr, fun i tx' hv hpay => ?_⟩
      rcases hp hpay with hold | ⟨-, rfl, -⟩
      · exact hold
      · have heq := hr.1
        rw [← hv, hres.1] at heq
        exact absurd (Option.some.inj heq).symm hu
    · exact ⟨_, mem_append_right _ (mem_singleton_self _), rfl, rfl⟩

/-- **Recording a kill** adds no payout. -/
theorem Inv.recordKill (h : Inv sign s) (hsign : Injective sign) (hkind : tx.kind = .kill)
    (hobs : ∀ o, observed = some o →
      o ≤ s.chain.slot ∧ s.chain.valueAt tx.account o = some tx.nonce)
    (hok : s.recordDurableAttempt sign id tx observed = .ok ((), s')) :
    Inv sign s' ∧ Quiet sign s s' ∧ s'.Recorded id (sign tx) := by
  rcases recordDurableAttempt_cases hok with ⟨rfl, hrec⟩ | rfl
  · exact ⟨h, .refl _, hrec⟩
  · have hnew : Describes sign (newAttempt sign id tx observed s.clock) tx :=
      newAttempt_describes tx observed s.clock
    refine ⟨?_, ⟨.refl _, fun _ hc => hc, fun _ hf => hf, fun _ _ hr => recorded_append _ hr,
      fun i tx' hp => ?_, rfl, rfl, rfl, rfl, fun _ _ hst => hst⟩, ?_⟩
    · refine h.append hsign hnew (newAttempt_witnessed s.clock hobs) fun hk => ?_
      rw [hkind] at hk
      cases hk
    · rcases paysOut_append hsign hnew.signature hp with hold | ⟨-, -, hk⟩
      · exact hold
      · rw [hkind] at hk
        cases hk
    · exact ⟨_, mem_append_right _ (mem_singleton_self _), rfl, rfl⟩

variable {signature : String}

theorem recorded_recordFinal {ok : Bool} {slot : Nat} {sig : String} :
    (s.recordFinal id signature ok slot).Recorded i sig ↔ s.Recorded i sig := by
  constructor
  · intro hr
    obtain ⟨b, hb, hid, hsig⟩ := hr
    obtain ⟨a, ha, rfl⟩ := mem_updateWhere.mp hb
    refine ⟨a, ha, ?_⟩
    split at hid
    · rw [if_pos (by assumption)] at hsig
      exact ⟨hid, hsig⟩
    · rw [if_neg (by assumption)] at hsig
      exact ⟨hid, hsig⟩
  · intro hr
    obtain ⟨a, ha, hid, hsig⟩ := hr
    refine ⟨_, mem_updateWhere.mpr ⟨a, ha, rfl⟩, ?_⟩
    split
    · exact ⟨hid, hsig⟩
    · exact ⟨hid, hsig⟩

section

variable (h : Inv sign s)
include h

/-- **A finalized status** is written down as the chain has it. -/
theorem Inv.recordFinal (hsign : Injective sign)
    {ok : Bool} {slot : Nat} (hl : ∃ l ∈ s.chain.landed, sign l.tx = signature ∧ l.ok = ok) :
    Inv sign (s.recordFinal id signature ok slot) ∧
    Quiet sign s (s.recordFinal id signature ok slot) := by
  have hpays : ∀ i tx, (s.recordFinal id signature ok slot).PaysOut sign i tx ↔
      s.PaysOut sign i tx :=
    fun i tx => and_congr_right fun _ => recorded_recordFinal
  refine ⟨⟨h.chain, h.ledger, ?_, ?_, ?_, ?_, ?_, h.landed, ?_, ?_, h.inFlight, h.owned,
    h.consumed⟩, ⟨.refl _, fun _ hc => hc, fun _ hf => hf, fun _ _ hr =>
    recorded_recordFinal.mpr hr, fun i tx => (hpays i tx).mp, rfl, rfl, rfl, rfl,
    fun _ _ hst => hst⟩⟩
  · intro b hb
    obtain ⟨a, ha, rfl⟩ := mem_updateWhere.mp hb
    obtain ⟨tx, hd, hw⟩ := h.attempts a ha
    split
    · next hsel =>
      -- the row is this signature's, so what landed is its transaction
      simp only [Bool.and_eq_true, beq_iff_eq] at hsel
      obtain ⟨l, hlm, hlsig, hlok⟩ := hl
      have htx : l.tx = tx := hsign (hlsig.trans (hsel.1.2.symm.trans hd.signature))
      refine ⟨tx, ⟨hd.signature, hd.kind, hd.account, hd.value⟩, hw.observed, fun ok' hok' => ?_⟩
      exact ⟨l, hlm, htx, hlok.trans (Option.some.inj hok')⟩
    · exact ⟨tx, hd, hw⟩
  · exact fun i tx hp => h.payoutClaimed i tx ((hpays i tx).mp hp)
  · exact fun i tx tx' hp hp' => h.onePayout i tx tx' ((hpays i tx).mp hp) ((hpays i tx').mp hp')
  · exact fun i i' tx tx' hp hp' => h.oneUse i i' tx tx' ((hpays i tx).mp hp) ((hpays i' tx').mp hp')
  · exact fun p hp => recorded_recordFinal.mpr (h.sent p hp)
  · exact fun i tx hst hp => h.failed i tx hst ((hpays i tx).mp hp)
  · intro i hst
    obtain ⟨tx, hp, hok⟩ := h.completed i hst
    exact ⟨tx, (hpays i tx).mpr hp, hok⟩

/-! ## §5. The process's memory and the ghosts -/

theorem Inv.scratch (frozen locked : Bool) (queue : List (String × Nat))
    (clock : Nat) (squat : Option (String × String)) :
    Inv sign { s with
      frozen := frozen, attemptsLocked := locked, queue := queue, clock := clock,
      squatThisTick := squat } ∧
    Quiet sign s { s with
      frozen := frozen, attemptsLocked := locked, queue := queue, clock := clock,
      squatThisTick := squat } :=
  ⟨{ h with },
    ⟨.refl _, fun _ hc => hc, fun _ hf => hf, fun _ _ hr => hr, fun _ _ hp => hp, rfl, rfl, rfl,
      rfl, fun _ _ hst => hst⟩⟩

theorem Inv.broadcast (hrec : s.Recorded id (sign tx)) :
    Inv sign { s with sent := (id, tx) :: s.sent } ∧
    Quiet sign s { s with sent := (id, tx) :: s.sent } := by
  refine ⟨{ h with sent := ?_, landed := ?_ },
    ⟨.refl _, fun _ hc => hc, fun _ hf => hf, fun _ _ hr => hr, fun _ _ hp => hp, rfl, rfl, rfl,
      rfl, fun _ _ hst => hst⟩⟩
  · exact forall_mem_cons.mpr ⟨hrec, h.sent⟩
  · intro l hl
    obtain ⟨i, hi⟩ := h.landed l hl
    exact ⟨i, mem_cons_of_mem _ hi⟩

theorem Inv.noteConsumed {account value : String} (hpast : s.chain.Past account value) :
    Inv sign { s with consumed := (account, value) :: s.consumed } ∧
    Quiet sign s { s with consumed := (account, value) :: s.consumed } := by
  refine ⟨{ h with consumed := fun p hp => ?_ },
    ⟨.refl _, fun _ hc => hc, fun _ hf => hf, fun _ _ hr => hr, fun _ _ hp => hp, rfl, rfl, rfl,
      rfl, fun _ _ hst => hst⟩⟩
  rcases mem_cons.mp hp with rfl | hp
  · exact hpast
  · exact h.consumed p hp

theorem Inv.releaseNonce {value : String} (hr : Reserves t value s) :
    Inv sign { s with reservedNonces := s.reservedNonces.filter fun v => v != value } ∧
    Guar sign t s { s with reservedNonces := s.reservedNonces.filter fun v => v != value } := by
  refine ⟨{ h with }, ⟨⟨.refl _, fun _ hc => hc, fun _ hf => hf, fun _ _ ho => ho, fun _ _ hr => hr,
      fun _ hd => ⟨hd, fun _ hp => hp⟩⟩, fun _ _ _ hh => ⟨hh, fun _ hp => hp⟩, ?_⟩⟩
  intro v u hu hv
  refine ⟨⟨hv.1, mem_filter.mpr ⟨hv.2, ?_⟩⟩, fun _ _ _ hp => hp⟩
  rw [bne_iff_ne]
  intro heq
  have hown := hv.1
  rw [heq, hr.1] at hown
  exact hu (Option.some.inj hown).symm

theorem Inv.releasePayout (hown : s.owner id = some t) :
    Inv sign { s with payoutsInFlight := s.payoutsInFlight.filter fun i => i != id } ∧
    Guar sign t s { s with payoutsInFlight := s.payoutsInFlight.filter fun i => i != id } := by
  refine ⟨{ h with inFlight := fun i hi => h.inFlight i (mem_of_mem_filter hi) },
    ⟨⟨.refl _, fun _ hc => hc, fun _ hf => hf, fun _ _ ho => ho, fun _ _ hr => hr, ?_⟩, ?_,
      fun _ _ _ hr => ⟨hr, fun _ _ _ hp => hp⟩⟩⟩
  · exact fun i hd => ⟨⟨hd.1, fun hi => hd.2 (mem_of_mem_filter hi)⟩, fun _ hp => hp⟩
  · intro i u hu hh
    refine ⟨⟨hh.1, mem_filter.mpr ⟨hh.2.1, ?_⟩, hh.2.2⟩, fun _ hp => hp⟩
    rw [bne_iff_ne]
    intro heq
    have howner := hh.1
    rw [heq, hown] at howner
    exact hu (Option.some.inj howner).symm

end

theorem claim_move (L : Ledger) (id : String) (at_ : Nat) : StatusMove id .pending .processing L
      (L.updateWithdrawal id claimOk (claimSet at_ none)).2 :=
  StatusMove.update (u := claimSet at_ none)
    (fun w (hw : claimOk w = true) => by simpa [claimOk] using hw)
    (fun w => ⟨rfl, fun _ => rfl⟩) rfl

theorem hasStatus_of_count {st : WithdrawalStatus} (hok : ∀ w, ok w = true → w.status = st)
    (hpos : 0 < countWhere (fun w => w.withdrawalId == id && ok w) L.withdrawals) :
    HasStatus L id st := by
  obtain ⟨w, hw⟩ := exists_mem_of_length_pos hpos
  obtain ⟨hmem, hsel⟩ := mem_filter.mp hw
  rw [Bool.and_eq_true, beq_iff_eq] at hsel
  exact ⟨w, hmem, hsel.1, hok w hsel.2⟩

theorem hasStatus_updated (hu : ∀ w, (u w).withdrawalId = w.withdrawalId ∧ (u w).status = dst)
    (hpos : 0 < countWhere (fun w => w.withdrawalId == id && ok w) L.withdrawals) :
    HasStatus (L.updateWithdrawal id ok u).2 id dst := by
  obtain ⟨w, hw⟩ := exists_mem_of_length_pos hpos
  obtain ⟨hmem, hsel⟩ := mem_filter.mp hw
  refine ⟨u w, mem_updateWhere.mpr ⟨w, hmem, by rw [if_pos hsel]⟩, ?_, (hu w).2⟩
  rw [Bool.and_eq_true, beq_iff_eq] at hsel
  rw [(hu w).1]
  exact hsel.1

/-- The store right after a won claim. -/
def Store.won (s : Store) (t : Nat) (id : String) (lane : Lane) : Store :=
  { s.dequeuePayout id with
    ledger := (s.ledger.updateWithdrawal id Ledger.claimOk (Ledger.claimSet s.clock none)).2
    chainClaims := id :: s.chainClaims
    reservedNonces := lane.nonceValue :: s.reservedNonces
    payoutsInFlight := id :: s.payoutsInFlight
    owner := Function.update s.owner id (some t)
    reserver := Function.update s.reserver lane.nonceValue (some t) }

theorem claimLane_cases {w : Withdrawal} {state : LaneState} {claim : Claim}
    (hok : s.claimLane t w id state = .ok (claim, s')) :
    ((claim = .refused ∨ claim = .frozen) ∧ ∃ queue squat,
      s' = { s with queue := queue, squatThisTick := squat }) ∨
    ∃ lane, state = .ready lane ∧ claim = .won w lane ∧ s' = s.won t id lane ∧
      lane.nonceValue ∉ s.reservedNonces ∧ s.isNonceValueUsed lane = false ∧
      0 < countWhere (fun w => w.withdrawalId == id && claimOk w) s.ledger.withdrawals := by
  unfold Store.claimLane at hok
  split at hok
  · cases hok
    exact .inl ⟨.inl rfl, _, _, rfl⟩
  · cases hok
    exact .inl ⟨.inl rfl, _, _, rfl⟩
  next lane =>
  split at hok
  · cases hok
    exact .inl ⟨.inl rfl, _, _, rfl⟩
  next hfree =>
  simp only [Bool.or_eq_true, not_or, Bool.not_eq_true] at hfree
  split at hok
  · cases hok
    exact .inl ⟨.inl rfl, _, _, rfl⟩
  next L hupd =>
  obtain ⟨hcount, rfl⟩ := Prod.mk.inj hupd
  split at hok
  · cases hok
    exact .inl ⟨.inr rfl, _, _, rfl⟩
  split at hok
  · cases hok
  cases hok
  refine .inr ⟨lane, rfl, rfl, rfl, ?_, hfree.2, of_decide_eq_true hcount⟩
  simpa using hfree.1

/-- **Claiming the lane**: what is won is a pending withdrawal nothing was sent for, and a nonce
    value nobody reserved and no payout used. -/
theorem Inv.won (h : Inv sign s) (hsign : Injective sign) (t : Nat) {lane : Lane}
    (hunreserved : lane.nonceValue ∉ s.reservedNonces) (hunused : s.isNonceValueUsed lane = false)
    (hpos : 0 < countWhere (fun w => w.withdrawalId == id && claimOk w) s.ledger.withdrawals) :
    Inv sign (s.won t id lane) ∧ Guar sign t s (s.won t id lane) ∧ Held t id (s.won t id lane) ∧
      Reserves t lane.nonceValue (s.won t id lane) ∧
      (∀ tx, ¬ (s.won t id lane).PaysOut sign id tx) ∧
      ∀ i tx, (s.won t id lane).PaysOut sign i tx →
        ¬ (tx.account = lane.account ∧ tx.nonce = lane.nonceValue) := by
  have hpend : HasStatus s.ledger id .pending := hasStatus_of_count
    (fun w (hw : claimOk w = true) => by simpa [claimOk] using hw) hpos
  have hm := claim_move s.ledger id s.clock
  have hproc : HasStatus (s.won t id lane).ledger id .processing :=
    hasStatus_updated (fun w => ⟨rfl, rfl⟩) hpos
  have hmoved := h.move (h.ledger.step (Ledger.Step.claim s.ledger id s.clock none)) hm
    (by simp) (fun hfail => by cases hfail) (fun hdone => by cases hdone)
  -- nobody else has anything to do with a pending withdrawal
  have hfresh : ∀ {i}, s.Claimed i → i ≠ id := by
    intro i hc heq
    rw [heq] at hc
    exact h.not_claimed_of_pending hpend hc
  have howner : ∀ {i u}, s.owner i = some u → (s.won t id lane).owner i = some u := by
    intro i u ho
    show Function.update s.owner id (some t) i = some u
    rw [update_of_ne (hfresh (h.owned i u ho))]
    exact ho
  refine ⟨?_, ⟨⟨.refl _, fun i hc => hm.claimed (by simp) hc, fun i hf => ?_, fun _ _ => howner,
    fun _ _ hr => hr, fun i hd => ?_⟩, fun i u _ hh => ?_, fun v u _ hr => ?_⟩,
    ⟨update_self _ _ _, mem_cons_self, hproc⟩,
    ⟨update_self _ _ _, mem_cons_self⟩, ?_, ?_⟩
  · refine ⟨h.chain, hmoved.ledger, h.attempts, hmoved.payoutClaimed, h.onePayout, h.oneUse,
      h.sent, h.landed, hmoved.failed, hmoved.completed, fun i hi => ?_, fun i u ho => ?_,
      h.consumed⟩
    · rcases mem_cons.mp hi with rfl | hi
      · exact ⟨.processing, by simp, hproc⟩
      · exact hmoved.inFlight i hi
    · by_cases hi : i = id
      · rw [hi]
        exact ⟨.processing, by simp, hproc⟩
      · have ho' : s.owner i = some u := by
          rw [← ho]
          exact (update_of_ne hi _ _).symm
        exact hmoved.owned i u ho'
  · rcases hm.forth i _ hf with hkeep | ⟨-, heq, -⟩
    · exact hkeep
    · cases heq
  · refine ⟨⟨hm.claimed (by simp) hd.1, fun hi => ?_⟩, fun _ hp => hp⟩
    rcases mem_cons.mp hi with heq | hi
    · exact hfresh hd.1 heq
    · exact hd.2 hi
  · refine ⟨⟨howner hh.1, mem_cons_of_mem _ hh.2.1, ?_⟩, fun _ hp => hp⟩
    rcases hm.forth i _ hh.2.2 with hkeep | ⟨-, heq, -⟩
    · exact hkeep
    · cases heq
  · refine ⟨⟨?_, mem_cons_of_mem _ hr.2⟩, fun _ _ _ hp => hp⟩
    have hne : v ≠ lane.nonceValue := fun heq => hunreserved (heq ▸ hr.2)
    show Function.update s.reserver lane.nonceValue (some t) v = some u
    rw [update_of_ne hne]
    exact hr.1
  · exact fun tx hp => h.no_payout_of_pending hpend tx hp
  · intro i tx hp hsame
    obtain ⟨-, a, ha, -, hsig⟩ := hp
    have hd := (h.payout_of_row hsign ha hsig).1
    have hno := any_eq_false.mp hunused a ha
    rw [hd.account, hd.value, hsame.1, hsame.2] at hno
    simp at hno

/-! ## §6. The ledger's own statements -/

theorem note_move (L : Ledger) (id note : String) : StatusMove id .processing .processing L
      (L.updateWithdrawal id noteOk (noteSet note)).2 :=
  StatusMove.update (u := noteSet note) (fun w (hw : noteOk w = true) => by simpa [noteOk] using hw)
    (fun w => ⟨rfl, fun hst => hst⟩) rfl

theorem complete_move (L : Ledger) (id ref : String) (at_ : Nat) :
    StatusMove id .processing .completed L
      (L.updateWithdrawal id (fromOk .processing) (completionSet ref at_)).2 :=
  StatusMove.update (u := completionSet ref at_) (fun w (hw : fromOk .processing w = true) => by
      simpa [fromOk, WithdrawalOpenStatus.status] using hw)
    (fun w => ⟨rfl, fun _ => rfl⟩) rfl

theorem fail_move (hL : L.Settled) {id reason : String} {source : WithdrawalOpenStatus} {at_ : Nat}
    {refunded : Option (String × Int)}
    (hfail : L.failWithdrawalAndRefund id reason source at_ = .ok (refunded, L')) :
    L'.Settled ∧ StatusMove id source.status .failed L L' := by
  rcases L.failWithdrawalAndRefund_cases hL.ids id reason source at_ with ⟨w, hw, rfl, hok, heq⟩ | heq
  · rw [heq] at hfail
    obtain ⟨-, rfl⟩ := Prod.mk.inj (Except.ok.inj hfail)
    refine ⟨hL.step (Ledger.Step.fail L w reason at_ source hw hok), ?_⟩
    exact StatusMove.update (u := failSet reason at_)
      (fun v (hv : fromOk source v = true) => by simpa [fromOk] using hv)
      (fun v => ⟨rfl, fun _ => rfl⟩) rfl
  · rw [heq] at hfail
    obtain ⟨-, rfl⟩ := Prod.mk.inj (Except.ok.inj hfail)
    exact ⟨hL, .refl _ _ _ _⟩

theorem Inv.note (h : Inv sign s) (note : String) :
    Inv sign (s.note id note) ∧ Quiet sign s (s.note id note) := by
  have hm := note_move s.ledger id note
  exact ⟨h.move (h.ledger.step (Ledger.Step.note s.ledger id note)) hm (by simp)
    nofun nofun, hm.quiet (by simp) (by simp) fun _ => .inl rfl⟩

/-! ## §7. Everything else -/

theorem Inv.books (h : Inv sign s) (hL' : L'.Settled)
    (hkeep : ∀ i st, HasStatus s.ledger i st → HasStatus L' i st)
    (hback : ∀ i st, st ≠ .pending → HasStatus L' i st → HasStatus s.ledger i st) :
    Inv sign { s with ledger := L' } ∧ Quiet sign s { s with ledger := L' } := by
  have hclaimed : ∀ i, s.Claimed i → ({ s with ledger := L' } : Store).Claimed i := by
    intro i hc
    obtain ⟨st, hne, hs⟩ := hc
    exact ⟨st, hne, hkeep i st hs⟩
  refine ⟨⟨h.chain, hL', h.attempts, fun i tx hp => hclaimed i (h.payoutClaimed i tx hp),
    h.onePayout, h.oneUse, h.sent, h.landed,
    fun i tx hf => h.failed i tx (hback i _ (by simp) hf),
    fun i hc => h.completed i (hback i _ (by simp) hc), fun i hi => hclaimed i (h.inFlight i hi),
    fun i t ho => hclaimed i (h.owned i t ho), h.consumed⟩, ?_⟩
  exact ⟨.refl _, hclaimed, fun i hf => hkeep i _ hf, fun _ _ hr => hr,
    fun _ _ hp => hp, rfl, rfl, rfl, rfl, fun i _ hs => hkeep i _ hs⟩

theorem Inv.block (h : Inv sign s) {txs : List (Tx × Bool)} {next : String → Option String}
    (hblock : s.chain.Block (fun tx => ∃ id, (id, tx) ∈ s.sent) txs next) :
    Inv sign { s with chain := s.chain.extend txs next } ∧
    Quiet sign s { s with chain := s.chain.extend txs next } := by
  have hext := h.chain.extends hblock
  refine ⟨⟨h.chain.extend hblock, h.ledger, ?_, h.payoutClaimed, h.onePayout, h.oneUse, h.sent,
    ?_, fun i tx hf hp => (h.failed i tx hf hp).extends hext, ?_, h.inFlight, h.owned,
    fun p hp => (h.consumed p hp).extends hext⟩,
    ⟨hext, fun _ hc => hc, fun _ hf => hf, fun _ _ hr => hr, fun _ _ hp => hp, rfl, rfl, rfl, rfl,
      fun _ _ hs => hs⟩⟩
  · intro a ha
    obtain ⟨tx, hd, hw⟩ := h.attempts a ha
    exact ⟨tx, hd, hw.extends hext⟩
  · intro l hl
    rcases mem_append.mp hl with hl | hl
    · exact h.landed l hl
    · obtain ⟨x, hx, rfl⟩ := mem_map.mp hl
      exact hblock.sent x hx
  · intro i hc
    obtain ⟨tx, hp, hok⟩ := h.completed i hc
    exact ⟨tx, hp, hok.extends hext⟩

/-- **The environment** keeps the invariant and takes quiet steps only. -/
theorem Inv.env (h : Inv sign s) (he : Env s s') : Inv sign s' ∧ Quiet sign s s' := by
  cases he with
  | request w description hpos hcover hfresh =>
    refine h.books (h.ledger.step (Ledger.Step.record s.ledger w description hpos hcover hfresh))
      ?_ ?_
    · intro i st hs
      obtain ⟨v, hv, hid, hst⟩ := hs
      exact ⟨v, mem_append_left _ hv, hid, hst⟩
    · intro i st hne hs
      obtain ⟨v, hv, hid, hst⟩ := hs
      rcases mem_append.mp hv with hv | hv
      · exact ⟨v, hv, hid, hst⟩
      · rw [mem_singleton.mp hv] at hst
        exact absurd hst.symm hne
  | deposit m amount =>
    have hnn := h.ledger.agrees.nonneg m
    refine h.books (h.ledger.step (Ledger.Step.plain s.ledger m amount .deposit none none
      (by omega) fun w hw => by simp)) (fun _ _ hs => hs) fun _ _ _ hs => hs
  | operatorFail i reason failedAt refunded L hfail =>
    obtain ⟨hL, hm⟩ := fail_move h.ledger hfail
    refine ⟨?_, hm.quiet (by simp) (by simp [WithdrawalOpenStatus.status]) nofun⟩
    exact h.move hL hm (by simp)
      (fun _ hp tx hpay => absurd hpay (h.no_payout_of_pending hp tx)) fun hd => by cases hd
  | freeze frozen =>
    exact h.scratch frozen s.attemptsLocked s.queue s.clock s.squatThisTick
  | lock locked =>
    exact h.scratch s.frozen locked s.queue s.clock s.squatThisTick
  | clock now =>
    exact h.scratch s.frozen s.attemptsLocked s.queue now s.squatThisTick
  | block txs next hblock => exact h.block hblock

end Motebit.Payout
