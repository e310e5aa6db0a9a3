/-
  Motebit.Payout.Safety — A PAYOUT IS SETTLED BY WHAT THE CHAIN DID.

  The program that claimed a withdrawal is the only one that can send for it, it sends once,
  and over a nonce value no other payout uses.  With the decisions of `Payout.Decide` this
  gives the invariant in every reachable configuration, whatever the interleaving and wherever
  the process dies.

  Main results: `firePathZero_ensures`, `resolvePayoutsOnce_ensures`,
  `payouts_settled_by_chain`.
-/

import Mathlib.Logic.Equiv.List
import Motebit.Payout.Decide

namespace Motebit.Payout

open Motebit.Lib List Function
open Motebit.Lib.Protocol
open Motebit.Accounts

variable {sign : Tx → String} {isPublicKey : String → Bool} {killAfterMs : Nat} {t : Nat}
  {id : String}

section

variable (hsign : Injective sign)
include hsign

/-! ## §1. Sending -/

/-- **The send** of a claimed withdrawal over a reserved nonce value: recorded, then sent. -/
theorem broadcastPayout_ensures (lane : Lane) {tx : Tx} (hkind : tx.kind = .payout)
    (hacc : tx.account = lane.account) (hval : tx.nonce = lane.nonceValue) :
    (protocol sign isPublicKey killAfterMs).Ensures t (broadcast sign id tx lane.observedSlot)
      (fun s => (FirstOf sign t id s ∧ SoleUse sign t lane s) ∧ Observed lane s)
      (fun _ s => Held t id s ∧ Reserves t lane.nonceValue s)
      (fun _ s => Held t id s ∧ Reserves t lane.nonceValue s) := by
  have hcalm := calm sign isPublicKey killAfterMs
  have hboth : Kept sign isPublicKey killAfterMs t
      fun s => Held t id s ∧ Reserves t lane.nonceValue s := kept_held.and (kept_reserves _)
  refine .bind (Q := fun _ s => (Held t id s ∧ Reserves t lane.nonceValue s) ∧
    s.Recorded id (sign tx)) ?_ fun _ => ?_
  · refine .txn (fun _ => hcalm.stable (hboth.and
      (kept_of_persists fun _ _ hp => hp.recorded _ _))) (fun _ => hcalm.stable hboth) ?_
      fun s e _ hl _ => ⟨hl.1.1.1, hl.1.2.1⟩
    intro s _ s' hi hl hok
    obtain ⟨⟨hfirst, hsole⟩, hobs⟩ := hl
    unfold SoleUse at hsole
    unfold Observed at hobs
    rw [← hacc, ← hval] at hsole hobs
    obtain ⟨hinv, hguar, hheld, hres, hrec⟩ := Inv.recordPayout hi hsign hkind hfirst.1 hsole.1
      hfirst.2 hsole.2 hobs hok
    rw [hval] at hres
    exact ⟨hinv, hguar, ⟨hheld, hres⟩, hrec⟩
  · refine .bind (Q := fun _ s => Held t id s ∧ Reserves t lane.nonceValue s) ?_ fun _ => ?_
    · refine .act (fun _ => hcalm.stable hboth) fun s hi hl => ?_
      obtain ⟨hinv, hq⟩ := Inv.broadcast hi hl.2
      exact ⟨hinv, hq.guar t, hboth.quiet _ _ hi hinv hq hl.1⟩
    · exact ask_any_ensures hboth fun _ _ _ ha => ha

theorem sendUsdcDurable_ensures (destination : String) (amount : Int) (lane : Lane) :
    (protocol sign isPublicKey killAfterMs).Ensures t
      (sendUsdcDurable sign isPublicKey id destination amount lane)
      (fun s => (FirstOf sign t id s ∧ SoleUse sign t lane s) ∧ Observed lane s)
      (fun _ s => Held t id s ∧ Reserves t lane.nonceValue s)
      (fun _ s => Held t id s ∧ Reserves t lane.nonceValue s) := by
  have hboth : Kept sign isPublicKey killAfterMs t
      fun s => Held t id s ∧ Reserves t lane.nonceValue s := kept_held.and (kept_reserves _)
  have hsending : Kept sign isPublicKey killAfterMs t fun s =>
      (FirstOf sign t id s ∧ SoleUse sign t lane s) ∧ Observed lane s :=
    (kept_firstOf.and (kept_soleUse lane)).and (kept_of_persists fun _ _ hp h => h.persists hp)
  have hdrop : ∀ s, Inv sign s → (FirstOf sign t id s ∧ SoleUse sign t lane s) ∧ Observed lane s →
      Held t id s ∧ Reserves t lane.nonceValue s := fun s _ hl => ⟨hl.1.1.1, hl.1.2.1⟩
  unfold sendUsdcDurable
  split
  · exact .throw hdrop
  · refine .bind (ask_any_ensures hsending fun _ _ _ ha => ha) fun balance => ?_
    cases balance with
    | none => exact .throw hdrop
    | some =>
      dsimp only
      split
      · exact .throw hdrop
      · refine (broadcastPayout_ensures hsign lane rfl rfl rfl).bind fun refused => ?_
        cases refused with
        | some => exact .pure fun _ _ hl => hl
        | none =>
          refine .bind (Q := fun _ s => Held t id s ∧ Reserves t lane.nonceValue s) ?_
            fun _ => .pure fun _ _ hl => hl
          exact ask_any_ensures hboth fun _ _ _ ha => ha

theorem sendAndResolve_ensures (w : Withdrawal) (lane : Lane) :
    (protocol sign isPublicKey killAfterMs).Ensures t
      (sendAndResolve sign isPublicKey killAfterMs id w lane)
      (fun s => (FirstOf sign t id s ∧ SoleUse sign t lane s) ∧ Observed lane s)
      (fun _ s => s.owner id = some t) (fun _ s => s.owner id = some t) := by
  have hrelease : (protocol sign isPublicKey killAfterMs).Ensures t (releaseNonce lane.nonceValue)
      (fun s => Held t id s ∧ Reserves t lane.nonceValue s) (fun _ => Held t id)
      fun _ => Held t id := by
    refine .act (fun _ => (calm sign isPublicKey killAfterMs).stable kept_held) ?_
    intro s hi hl
    obtain ⟨hinv, hguar⟩ := Inv.releaseNonce hi hl.2
    exact ⟨hinv, hguar, hl.1⟩
  refine .tryCatch (Ensures.bind (Q := fun _ => Held t id) ?_ fun _ => ?_)
    fun e => .pure fun _ _ hl => hl
  · refine .weaken (Ensures.andFinally (Ensures.tryCatch
      (sendUsdcDurable_ensures hsign w.destination w.amount lane)
      fun e => .pure fun _ _ hl => hl) (fun _ => hrelease) fun _ => hrelease)
      (fun _ _ _ hl => hl) ?_
    exact fun _ _ _ hl => hl.1
  · exact (resolveWithdrawal_ensures hsign (K := fun s => s.owner id = some t)
      (fun _ _ hp => hp.owner id t) true).mono fun s _ hl => ⟨hl.1, fun _ => hl⟩

theorem claimPathZero_ensures :
    (protocol sign isPublicKey killAfterMs).Ensures t (claimPathZero t id) (fun _ => True)
      (fun claim s => ∀ w lane, claim = .won w lane →
        (FirstOf sign t id s ∧ SoleUse sign t lane s) ∧ Observed lane s) fun _ _ => True := by
  have hcalm := calm sign isPublicKey killAfterMs
  have hsending : ∀ lane, Kept sign isPublicKey killAfterMs t fun s =>
      (FirstOf sign t id s ∧ SoleUse sign t lane s) ∧ Observed lane s := fun lane =>
    (kept_firstOf.and (kept_soleUse lane)).and (kept_of_persists fun _ _ hp h => h.persists hp)
  refine .bind (hcalm.step (Framed.const True) fun s hi _ => ?_) fun row => ?_
  · have hdeq := Inv.scratch hi s.frozen s.attemptsLocked (s.queue.filter fun e => e.1 != id)
      s.clock s.squatThisTick
    split
    · split
      · exact ⟨hi, .refl s⟩
      · exact hdeq
    · exact hdeq
  cases row with
  | none => exact .pure fun _ _ _ w lane hwon => by cases hwon
  | some w =>
    refine .bind (hcalm.step (Framed.const True) fun s hi _ => ⟨hi, .refl s⟩) fun floor => ?_
    refine .bind (Q := fun state s => ∀ lane, state = .ready lane → Observed lane s) ?_
      fun state => ?_
    · refine ask_ensures (fun state => kept_of_persists fun s s' hp hl lane hr =>
        (hl lane hr).persists hp) ?_
      intro s state s' _ _ ha
      refine ⟨ha.1, fun lane hr o ho => ?_⟩
      subst hr
      obtain ⟨hacc, k, -, hk, hval, hobs⟩ := ha.2
      rcases hobs with hnone | hsome
      · rw [ho] at hnone
        cases hnone
      · rw [ho] at hsome
        rw [Option.some.inj hsome, hacc]
        exact ⟨hk, hval⟩
    · refine .txn (fun claim => hcalm.stable ?_) (fun _ => .true) ?_ fun _ _ _ _ _ => trivial
      · exact ⟨fun u s s' hi hi' hu hg hl w lane hc =>
            (hsending lane).others u s s' hi hi' hu hg (hl w lane hc),
          fun s s' hi hi' hq hl w lane hc => (hsending lane).quiet s s' hi hi' hq (hl w lane hc)⟩
      · intro s claim s' hi hl hok
        rcases claimLane_cases hok with ⟨hrefused, queue, squat, rfl⟩ |
          ⟨lane, rfl, rfl, rfl, hunreserved, hunused, hpos⟩
        · have hq := Inv.scratch hi s.frozen s.attemptsLocked queue s.clock squat
          refine ⟨hq.1, hq.2.guar t, fun w' lane hwon => ?_⟩
          rcases hrefused with heq | heq <;> rw [heq] at hwon <;> cases hwon
        · obtain ⟨hinv, hguar, hheld, hres, hnone, hfree⟩ :=
            Inv.won hi hsign t hunreserved hunused hpos
          refine ⟨hinv, hguar, fun w' lane' hwon => ?_⟩
          cases hwon
          exact ⟨⟨⟨hheld, hnone⟩, hres, hfree⟩, hl lane rfl⟩

/-- **`firePathZero`** keeps the invariant, at every step and under any interference. -/
theorem firePathZero_ensures : (protocol sign isPublicKey killAfterMs).Ensures t
      (firePathZero sign isPublicKey killAfterMs t id) (fun _ => True) (fun _ _ => True)
      fun _ _ => True := by
  refine (claimPathZero_ensures hsign).bind fun claim => ?_
  cases claim with
  | refused | frozen => exact .pure fun _ _ _ => trivial
  | won w lane =>
    have hrelease : (protocol sign isPublicKey killAfterMs).Ensures t (releasePayout id)
        (fun s => s.owner id = some t) (fun _ _ => True) fun _ _ => True := by
      refine .act (fun _ => .true) fun s hi hl => ?_
      obtain ⟨hinv, hguar⟩ := Inv.releasePayout hi hl
      exact ⟨hinv, hguar, trivial⟩
    refine .bind (Ensures.andFinally (Ensures.mono
      (sendAndResolve_ensures hsign w lane) fun s _ hl => hl w lane rfl)
      (fun _ => hrelease) fun _ => hrelease) fun _ => ?_
    exact .pure fun _ _ _ => trivial

theorem fireQueued_ensures (ids : List String) : (protocol sign isPublicKey killAfterMs).Ensures t
      (fireQueued sign isPublicKey killAfterMs t ids) (fun _ => True) (fun _ _ => True)
      fun _ _ => True := by
  induction ids with
  | nil => exact .pure fun _ _ _ => trivial
  | cons i ids ih =>
    refine (firePathZero_ensures hsign).bind fun _ => ?_
    refine .bind ((calm sign isPublicKey killAfterMs).step (Framed.const True)
      fun s hi _ => ⟨hi, .refl s⟩) fun row => ?_
    split
    · exact .pure fun _ _ _ => trivial
    · exact ih

theorem resolveAlone_ensures : (protocol sign isPublicKey killAfterMs).Ensures t
      (resolveWithdrawal sign killAfterMs id false) (fun _ => True) (fun _ _ => True)
      fun _ _ => True :=
  (resolveWithdrawal_ensures hsign (K := fun _ => True) (fun _ _ _ h => h) false).mono
    fun _ _ _ => ⟨trivial, nofun⟩

/-- **One tick of the resolution loop.** -/
theorem resolvePayoutsOnce_ensures : (protocol sign isPublicKey killAfterMs).Ensures t
      (resolvePayoutsOnce sign isPublicKey killAfterMs t) (fun _ => True) (fun _ _ => True)
      fun _ _ => True := by
  have hcalm := calm sign isPublicKey killAfterMs
  refine .bind (hcalm.step (Framed.const True) fun s hi _ =>
    Inv.scratch hi s.frozen s.attemptsLocked s.queue s.clock none) fun _ => ?_
  refine .bind (hcalm.step (Framed.const True) fun s hi _ => ⟨hi, .refl s⟩) fun queued => ?_
  refine (fireQueued_ensures hsign queued).bind fun _ => ?_
  refine .bind (hcalm.step (Framed.const True) fun s hi _ => ⟨hi, .refl s⟩) fun processing => ?_
  refine .bind (Ensures.forEach fun i _ => .tryCatch
    ((resolveAlone_ensures hsign).bind fun _ => .pure fun _ _ h => h)
    fun _ => .pure fun _ _ h => h) fun _ => ?_
  refine .bind (hcalm.step (Framed.const True) fun s hi _ => ⟨hi, .refl s⟩) fun squat => ?_
  cases squat with
  | none => exact .pure fun _ _ _ => trivial
  | some => exact Ensures.throw fun _ _ _ => trivial

/-! ## §2. Every reachable configuration -/

omit hsign in
theorem inv_init (now : Nat) (lane : String) (values : String → Option String) :
    Inv sign (Store.init now lane values) := by
  have hnone : ∀ i st, ¬ HasStatus (Store.init now lane values).ledger i st := by
    intro i st hs
    obtain ⟨w, hw, -⟩ := hs
    cases hw
  have hrec : ∀ i sig, ¬ (Store.init now lane values).Recorded i sig := by
    intro i sig hr
    obtain ⟨a, ha, -⟩ := hr
    cases ha
  refine ⟨⟨?_, ?_, nodup_nil⟩, Ledger.Settled.empty, ?_, ?_, ?_, ?_, ?_, ?_, ?_, ?_, ?_, ?_, ?_⟩
  · intro a v i j k _ _ _ hi hne
    exact absurd hi hne
  · exact fun l hl => by cases hl
  · exact fun a ha => by cases ha
  · exact fun i tx hp => absurd hp.2 (hrec _ _)
  · exact fun i tx tx' hp => absurd hp.2 (hrec _ _)
  · exact fun i i' tx tx' hp => absurd hp.2 (hrec _ _)
  · exact fun p hp => by cases hp
  · exact fun l hl => by cases hl
  · exact fun i tx hs => absurd hs (hnone _ _)
  · exact fun i hs => absurd hs (hnone _ _)
  · exact fun i hi => by cases hi
  · exact fun i t ho => by cases ho
  · exact fun p hp => by cases hp

omit hsign in
theorem Inv.crash {s : Store} (h : Inv sign s) (now : Nat) (lane : String) :
    Inv sign { s with
      clock := now, lane := lane, reservedNonces := [], payoutsInFlight := [],
      squatThisTick := none } :=
  ⟨h.chain, h.ledger, h.attempts, h.payoutClaimed, h.onePayout, h.oneUse, h.sent, h.landed,
    h.failed, h.completed, nofun, h.owned, h.consumed⟩

theorem verified : Verified (protocol sign isPublicKey killAfterMs) where
  init s hs := by
    obtain ⟨now, lane, values, rfl⟩ := hs
    exact ⟨inv_init now lane values, fun _ => trivial⟩
  env s s' hi he := ⟨(Inv.env hi he).1, fun _ _ => trivial⟩
  crash s s' hi hc := by
    obtain ⟨now, lane, rfl⟩ := hc
    exact ⟨Inv.crash hi now lane, fun _ _ => trivial⟩
  fresh _ _ _ _ _ _ _ _ := trivial
  entry t p hp := by
    rcases hp with ⟨id, rfl⟩ | ⟨id, rfl⟩ | rfl
    · exact ⟨Stable.true, (firePathZero_ensures hsign).detach⟩
    · exact ⟨Stable.true, (resolveAlone_ensures hsign).detach⟩
    · exact ⟨Stable.true, (resolvePayoutsOnce_ensures hsign).detach⟩

theorem reachable_inv {c : Config Store Req Resp}
    (hreach : (world sign isPublicKey killAfterMs).Reachable c) : Inv sign c.store :=
  Protocol.sound (verified hsign) hreach

theorem failed_stays {c c' : Config Store Req Resp}
    (hreach : (world sign isPublicKey killAfterMs).Reachable c)
    (hlater : Relation.ReflTransGen (world sign isPublicKey killAfterMs).Step c c')
    (hf : HasStatus c.store.ledger id .failed) : HasStatus c'.store.ledger id .failed := by
  refine Protocol.sound_later (verified hsign)
    (R := fun s s' => HasStatus s.ledger id .failed → HasStatus s'.ledger id .failed)
    (fun _ h => h) (fun _ _ _ h₁ h₂ h => h₂ (h₁ h)) ?_ ?_ ?_ hreach hlater hf
  · exact fun t s s' _ hg => hg.failed id
  · exact fun s s' hi he => (Inv.env hi he).2.failed id
  · intro s s' _ hc h
    obtain ⟨now, lane, rfl⟩ := hc
    exact h

end

/-! ## §3. Settled by the chain -/

/-- The landings without error of payouts that were sent for a withdrawal. -/
def Store.paidLandings (s : Store) (id : String) : List Landing :=
  s.chain.landed.filter fun l =>
    l.ok && decide (l.tx.kind = .payout) && s.sent.contains (id, l.tx)

variable {s : Store}

theorem Inv.paysOut_of_sent (h : Inv sign s) {tx : Tx} (hs : (id, tx) ∈ s.sent)
    (hk : tx.kind = .payout) : s.PaysOut sign id tx :=
  ⟨hk, h.sent _ hs⟩

theorem Inv.sent_of_landed (h : Inv sign s) {tx : Tx} (hp : s.PaysOut sign id tx)
    (hl : LandedOk s.chain tx) : (id, tx) ∈ s.sent := by
  obtain ⟨l, hlm, rfl, -⟩ := hl
  obtain ⟨i, hi⟩ := h.landed l hlm
  have hsame : i = id := h.oneUse i id l.tx l.tx (h.paysOut_of_sent hi hp.1) hp rfl rfl
  rw [← hsame]
  exact hi

theorem Inv.paidLandings_le (h : Inv sign s) (id : String) : (s.paidLandings id).length ≤ 1 := by
  have hsame : ∀ l ∈ s.paidLandings id, ∀ l' ∈ s.paidLandings id, l = l' := by
    intro l hl l' hl'
    obtain ⟨hlm, hsel⟩ := mem_filter.mp hl
    obtain ⟨hlm', hsel'⟩ := mem_filter.mp hl'
    simp only [Bool.and_eq_true, decide_eq_true_eq, contains_iff_mem] at hsel hsel'
    have htx : l.tx = l'.tx := h.onePayout id l.tx l'.tx
      (h.paysOut_of_sent hsel.2 hsel.1.2) (h.paysOut_of_sent hsel'.2 hsel'.1.2)
    exact h.chain.landed_unique hlm hlm' (by rw [htx]) (by rw [htx])
  have hnd : (s.paidLandings id).Nodup := (List.Nodup.of_map _ h.chain.once).filter _
  match hl : s.paidLandings id with
  | [] => exact Nat.zero_le 1
  | [_] => exact Nat.le_refl 1
  | l :: l' :: rest =>
    rw [hl] at hsame hnd
    have heq := hsame l mem_cons_self l' (mem_cons_of_mem _ mem_cons_self)
    rw [nodup_cons] at hnd
    exact absurd (heq ▸ mem_cons_self) hnd.1

theorem Inv.failed_of_refund (h : Inv sign s) {w : Withdrawal} (hw : w ∈ s.ledger.withdrawals)
    (href : 0 < Ledger.refunds s.ledger.books.transactions w.withdrawalId) :
    HasStatus s.ledger w.withdrawalId .failed := by
  have hacc := (h.ledger.accounted w hw).2
  cases hst : w.status with
  | pending | processing | completed =>
    rw [hst] at hacc
    omega
  | failed => exact ⟨w, hw, rfl, hst⟩
  | cancelled =>
    rw [hst] at hacc
    exact hacc.elim

/-- **A payout is settled by what the chain did.**  In every configuration any interleaving of
    fires, resolution ticks, kills, operator fails, blocks and process deaths leads to: of a
    refunded withdrawal no payout has landed ok, now or later; a completed withdrawal has a
    payout that landed ok; at most one payout landing ever pays a withdrawal; and `consumed`
    was answered only for nonces that really moved on. -/
theorem payouts_settled_by_chain (hsign : Injective sign) {c : Config Store Req Resp}
    (hreach : (world sign isPublicKey killAfterMs).Reachable c) :
    (∀ w ∈ c.store.ledger.withdrawals,
      0 < Ledger.refunds c.store.ledger.books.transactions w.withdrawalId →
      ∀ c', Relation.ReflTransGen (world sign isPublicKey killAfterMs).Step c c' →
        ∀ tx, (w.withdrawalId, tx) ∈ c'.store.sent → tx.kind = .payout →
          ¬ LandedOk c'.store.chain tx) ∧
    (∀ w ∈ c.store.ledger.withdrawals, w.status = .completed →
      ∃ tx, (w.withdrawalId, tx) ∈ c.store.sent ∧ tx.kind = .payout ∧
        LandedOk c.store.chain tx) ∧
    (∀ id, (c.store.paidLandings id).length ≤ 1) ∧
    ∀ p ∈ c.store.consumed, c.store.chain.Past p.1 p.2 := by
  have hinv := reachable_inv hsign hreach
  refine ⟨fun w hw href c' hlater tx hs hk hok => ?_, fun w hw hst => ?_, hinv.paidLandings_le,
    hinv.consumed⟩
  · have hinv' := reachable_inv hsign (reachable_later hreach hlater)
    have hfailed := failed_stays hsign hreach hlater (hinv.failed_of_refund hw href)
    obtain ⟨l, hl, htx, hlok⟩ := hok
    rw [(hinv'.failed _ tx hfailed (hinv'.paysOut_of_sent hs hk)).2 l hl htx] at hlok
    cases hlok
  · obtain ⟨tx, hp, hok⟩ := hinv.completed w.withdrawalId ⟨w, hw, rfl, hst⟩
    exact ⟨tx, hinv.sent_of_landed hp hok, hp.1, hok⟩

/-! ### A run -/

/-- Signatures for the run below: the transaction's fields, counted. -/
def countedSign (tx : Tx) : String :=
  let chars (x : String) : List Nat := x.toList.map Char.toNat
  String.ofList (List.replicate (Encodable.encode (decide (tx.kind = .payout), chars tx.account,
    chars tx.nonce, chars tx.destination, tx.amount)) 'x')

theorem countedSign_injective : Injective countedSign := by
  intro tx tx' h
  have hlen := congrArg (fun s : String => s.toList.length) h
  simp only [countedSign, String.toList_ofList, length_replicate] at hlen
  have hfields := Encodable.encode_injective hlen
  have hchar : Injective Char.toNat := fun _ _ hc => Char.toNat_inj.mp hc
  simp only [Prod.mk.injEq, decide_eq_decide, (map_injective_iff.mpr hchar).eq_iff,
    String.toList_inj] at hfields
  obtain ⟨hkind, hacc, hnonce, hdest, hamount⟩ := hfields
  have hsame : tx.kind = tx'.kind := by
    cases hk : tx.kind <;> cases hk' : tx'.kind <;> simp [hk, hk'] at hkind ⊢
  cases tx
  cases tx'
  simp only at hsame hacc hnonce hdest hamount
  rw [hsame, hacc, hnonce, hdest, hamount]

/-- The withdrawal of the run below. -/
def askedFor : NewWithdrawal :=
  ⟨"w1", "agent", 40, "USD", "wallet", none, 5⟩

/-- An agent deposits and asks for the withdrawal. -/
def askedLedger : Ledger :=
  let funded := (Ledger.empty.books.credit "agent" 100 .deposit none none none).2
  ⟨(funded.credit "agent" (-40) .withdrawal (some "w1") none none).2, [askedFor.record]⟩

/-- The operator fails it before it is fired. -/
def failedLedger : Ledger :=
  match askedLedger.failWithdrawalAndRefund "w1" "refused" .pending 9 with
  | .ok (_, L) => L
  | .error _ => askedLedger

/-- After that, with a resolution tick started. -/
def failedConfig : Config Store Req Resp where
  store := { Store.init 0 "lane" (fun _ => some "nonce") with ledger := failedLedger }
  thread := update (fun _ => none) 0
    (some (resolvePayoutsOnce countedSign (fun _ => true) 60 0).detach)
  next := 1

theorem failedConfig_reachable : (world countedSign (fun _ => true) 60).Reachable failedConfig := by
  have h₀ := World.Reachable.init (W := world countedSign (fun _ => true) 60)
    (Store.init 0 "lane" fun _ => some "nonce") ⟨0, "lane", _, rfl⟩
  have h₁ := h₀.step (.env _ _ (.deposit "agent" 100 (by decide)))
  have h₂ := h₁.step (.env _ _ (.request askedFor none (by decide) (by decide)
    ⟨by decide, by decide⟩))
  have h₃ := h₂.step (.env _ _ (.operatorFail "w1" "refused" 9 (some ("agent", 40)) failedLedger
    (by rfl)))
  exact h₃.step (.spawn _ _ (.inr (.inr rfl)))

theorem payouts_settled_by_chain_failed :
    0 < Ledger.refunds failedConfig.store.ledger.books.transactions "w1" ∧
    (∀ c', Relation.ReflTransGen (world countedSign (fun _ => true) 60).Step failedConfig c' →
      ∀ tx, ("w1", tx) ∈ c'.store.sent → tx.kind = .payout → ¬ LandedOk c'.store.chain tx) := by
  have hrefunded : ∃ w ∈ failedConfig.store.ledger.withdrawals, w.withdrawalId = "w1" ∧
      0 < Ledger.refunds failedConfig.store.ledger.books.transactions w.withdrawalId := by decide
  obtain ⟨w, hw, hid, href⟩ := hrefunded
  have hsettled := (payouts_settled_by_chain countedSign_injective failedConfig_reachable).1 w hw
    href
  rw [hid] at href hsettled
  exact ⟨href, hsettled⟩

/-- The payouts that were ever sent. -/
def Store.payouts (s : Store) : Set (String × Tx) := {p | p ∈ s.sent ∧ p.2.kind = .payout}

end Motebit.Payout
