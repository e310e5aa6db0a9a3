/-
  Motebit.Batch.Invariant — WHAT THE QUEUE, THE LEDGER AND THE RAIL HAVE IN COMMON.

  The safety argument of the fire loop relates four things no single table shows: a row's
  status, the withdrawal it is linked to, the ledger rows that refund it, and what the rail
  really did.  `Inv` states the relation; each lemma below says that one kind of store write
  keeps it.

  Main results: `Inv.claim`, `Inv.handOver`, `Inv.park`, `Inv.refund`, `Inv.recordOutcome`,
  `Inv.env`.
-/

import Motebit.Batch.Model

namespace Motebit.Batch

open Motebit.Lib List Function
open Motebit.Accounts

/-! ## §1. Vocabulary -/

/-- How many ledger rows that reference `ref` pay money back. -/
def Store.refundRows (s : Store) (ref : String) : Nat :=
  Ledger.refunds s.ledger.books.transactions ref

/-- The queue has a row with this id on this rail. -/
def Store.OnRail (s : Store) (id name : String) : Prop :=
  ∃ q ∈ s.queue, q.pendingId = id ∧ q.rail = name

/-- The queue has a claimed row with this id on this rail. -/
def Store.Taken (s : Store) (id name : String) : Prop :=
  ∃ q ∈ s.queue, q.pendingId = id ∧ q.rail = name ∧ q.status ≠ .pending

/-- Nothing of this payout left, and nothing of it can: it is with no rail that sends. -/
def Store.Inert (s : Store) (id : String) : Prop :=
  id ∉ s.left ∧ ∀ rail, (id, rail) ∈ s.atRail → rail.manual = true

/-- The row was handed to some rail. -/
def Store.Handed (s : Store) (id : String) : Prop := ∃ rail, (id, rail) ∈ s.handed

/-- The loop may refund the row: its one send is proven not to have left, or its rail is
    manual. -/
def Store.Refundable (registry : Registry) (s : Store) (id : String) : Prop :=
  (s.Handed id ∧ s.Inert id) ∨
  ∃ rail ∈ registry.rails, rail.manual = true ∧ s.OnRail id rail.name

/-- What the ledger and the link say about a queue row in each status. -/
def RowOk (registry : Registry) (s : Store) (q : QueueRow) : Prop :=
  0 < q.amountMicro ∧
  match q.status with
  | .pending | .firing => q.withdrawalId = none ∧ s.refundRows q.pendingId = 0
  | .fired | .unknown => q.withdrawalId ≠ none ∧ s.refundRows q.pendingId = 0
  | .refundOwed =>
      q.withdrawalId = none ∧ s.refundRows q.pendingId = 0 ∧ s.Refundable registry q.pendingId
  | .refunded =>
      q.withdrawalId = none ∧ s.refundRows q.pendingId = 1 ∧ s.Refundable registry q.pendingId

/-- What the ledger says about a recorded withdrawal; a failed one never lands. -/
def WithdrawalOk (lands : String → Bool) (s : Store) (w : Withdrawal) : Prop :=
  0 < w.amount ∧
  s.refundRows w.withdrawalId = (if w.status = .failed then 1 else 0) ∧
  (w.status = .failed → ∀ q ∈ s.queue, q.withdrawalId = some w.withdrawalId →
    lands q.pendingId = false)

section

variable (uuid : Nat → String) (registry : Registry) (lands : String → Bool)

/-- An id the run has drawn already. -/
def Drawn (s : Store) (id : String) : Prop := ∃ k < s.drawn, id = uuid k

/-- Identity and bookkeeping: ids are distinct and drawn, links and ghosts point somewhere. -/
structure Shape (s : Store) : Prop where
  queueIds : (s.queue.map QueueRow.pendingId).Nodup
  withdrawalIds : (s.ledger.withdrawals.map Withdrawal.withdrawalId).Nodup
  queueDrawn : ∀ q ∈ s.queue, Drawn uuid s q.pendingId
  withdrawalDrawn : ∀ w ∈ s.ledger.withdrawals, Drawn uuid s w.withdrawalId
  apart : ∀ q ∈ s.queue, ∀ w ∈ s.ledger.withdrawals, q.pendingId ≠ w.withdrawalId
  refs : ∀ t ∈ s.ledger.books.transactions, ∀ r, t.referenceId = some r → Drawn uuid s r
  linked : ∀ q ∈ s.queue, ∀ w, q.withdrawalId = some w →
    ∃ x ∈ s.ledger.withdrawals, x.withdrawalId = w
  links : ∀ q ∈ s.queue, ∀ q' ∈ s.queue, ∀ w, q.withdrawalId = some w →
    q'.withdrawalId = some w → q.pendingId = q'.pendingId
  owned : ∀ id t, s.owner id = some t → ∃ q ∈ s.queue, q.pendingId = id ∧ q.status ≠ .pending
  handedOnce : (s.handed.map Prod.fst).Nodup
  handedRow : ∀ h ∈ s.handed, h.2 ∈ registry.rails ∧ s.Taken h.1 h.2.name
  atRail : ∀ h ∈ s.atRail, h ∈ s.handed
  left : ∀ id ∈ s.left, ∃ rail, (id, rail) ∈ s.handed ∧ rail.manual = false
  landed : ∀ id ∈ s.landed, id ∈ s.left ∧ lands id = true

/-- **The invariant.** -/
structure Inv (s : Store) : Prop extends Shape uuid registry lands s where
  rows : ∀ q ∈ s.queue, RowOk registry s q
  withdrawals : ∀ w ∈ s.ledger.withdrawals, WithdrawalOk lands s w

end

variable {uuid : Nat → String} {registry : Registry} {lands : String → Bool} {s s' : Store}

/-! ## §2. Consequences -/

variable {name : String} {p : QueueRow → Bool} {u : QueueRow → QueueRow} {id : String}

theorem Store.Taken.onRail (h : s.Taken id name) : s.OnRail id name := by
  obtain ⟨q, hq, hid, hname, -⟩ := h
  exact ⟨q, hq, hid, hname⟩

theorem Registry.unique (registry : Registry) {r r' : Rail} (hr : r ∈ registry.rails)
    (hr' : r' ∈ registry.rails) (h : r.name = r'.name) : r = r' :=
  inj_on_of_nodup_map registry.names hr hr' h

theorem Shape.onRail_unique (h : Shape uuid registry lands s) {id name' : String}
    (h₁ : s.OnRail id name) (h₂ : s.OnRail id name') : name = name' := by
  obtain ⟨q, hq, hid, rfl⟩ := h₁
  obtain ⟨q', hq', hid', rfl⟩ := h₂
  rw [inj_on_of_nodup_map h.queueIds hq hq' (hid.trans hid'.symm)]

theorem Shape.inert (h : Shape uuid registry lands s)
    (hr : s.Refundable registry id) : s.Inert id := by
  rcases hr with ⟨-, hi⟩ | ⟨rail, hrail, hman, hon⟩
  · exact hi
  · -- every rail the row was handed to has the manual rail's name, so it is that rail
    have hsame : ∀ r, (id, r) ∈ s.handed → r = rail := by
      intro r hr
      obtain ⟨hreg, htaken⟩ := h.handedRow _ hr
      exact registry.unique hreg hrail (h.onRail_unique htaken.onRail hon)
    refine ⟨fun hleft => ?_, fun r hat => ?_⟩
    · obtain ⟨r, hr, hsends⟩ := h.left id hleft
      rw [hsame r hr, hman] at hsends
      cases hsends
    · rw [hsame r (h.atRail _ hat)]
      exact hman

theorem not_drawn_next (huuid : Injective uuid) : ¬ Drawn uuid s (uuid s.drawn) := by
  intro hdrawn
  obtain ⟨k, hk, heq⟩ := hdrawn
  have hk' := huuid heq
  omega

theorem Shape.refundRows_fresh (h : Shape uuid registry lands s)
    (huuid : Injective uuid) : s.refundRows (uuid s.drawn) = 0 := by
  unfold Store.refundRows Ledger.refunds countWhere
  rw [length_eq_zero_iff, filter_eq_nil_iff]
  intro t ht hp
  simp only [Bool.and_eq_true, beq_iff_eq] at hp
  exact not_drawn_next huuid (h.refs t ht _ hp.1)

theorem Shape.selected (h : Shape uuid registry lands s) {src : QueueStatus}
    (hpos : 0 < countWhere (fun q => q.pendingId == id && q.status == src) s.queue) :
    ∃ q ∈ s.queue, q.pendingId = id ∧ q.status = src ∧
      ∀ q' ∈ s.queue, q'.pendingId = id → q' = q := by
  obtain ⟨q, hqf⟩ := exists_mem_of_length_pos hpos
  obtain ⟨hq, hsel⟩ := mem_filter.mp hqf
  simp only [Bool.and_eq_true, beq_iff_eq] at hsel
  refine ⟨q, hq, hsel.1, hsel.2, fun q' hq' hid => ?_⟩
  exact inj_on_of_nodup_map h.queueIds hq' hq (hid.trans hsel.1.symm)

/-! ## §3. What every step leaves in place -/

/-- Rows stay, claimed rows stay claimed, what was handed stays handed, and a handed payout
    that cannot leave still cannot. -/
structure Persists (s s' : Store) : Prop where
  rows : ∀ q ∈ s.queue, ∃ q' ∈ s'.queue, q'.pendingId = q.pendingId ∧ q'.rail = q.rail ∧
    (q.status ≠ .pending → q'.status ≠ .pending)
  handed : ∀ h ∈ s.handed, h ∈ s'.handed
  inert : ∀ id, s.Handed id → s.Inert id → s'.Inert id

theorem Persists.refl (s : Store) : Persists s s where
  rows q hq := ⟨q, hq, rfl, rfl, id⟩
  handed _ h := h
  inert _ _ h := h

theorem Persists.onRail (h : Persists s s') (hon : s.OnRail id name) : s'.OnRail id name := by
  obtain ⟨q, hq, hid, hname⟩ := hon
  obtain ⟨q', hq', hid', hname', -⟩ := h.rows q hq
  exact ⟨q', hq', hid'.trans hid, hname'.trans hname⟩

theorem Persists.taken (h : Persists s s') (ht : s.Taken id name) : s'.Taken id name := by
  obtain ⟨q, hq, hid, hname, hst⟩ := ht
  obtain ⟨q', hq', hid', hname', hst'⟩ := h.rows q hq
  exact ⟨q', hq', hid'.trans hid, hname'.trans hname, hst' hst⟩

theorem Persists.isHanded (h : Persists s s') (hh : s.Handed id) : s'.Handed id := by
  obtain ⟨rail, hrail⟩ := hh
  exact ⟨rail, h.handed _ hrail⟩

theorem Persists.refundable (h : Persists s s')
    (hr : s.Refundable registry id) : s'.Refundable registry id := by
  rcases hr with ⟨hh, hi⟩ | ⟨rail, hrail, hman, hon⟩
  · exact .inl ⟨h.isHanded hh, h.inert id hh hi⟩
  · exact .inr ⟨rail, hrail, hman, h.onRail hon⟩

/-- A write of the queue that keeps ids and rails and unclaims nothing, with the rail's ghosts
    untouched. -/
theorem Persists.update {ledger : Ledger} {owner : String → Option Nat} {drawn : Nat}
    (hu : ∀ q, (u q).pendingId = q.pendingId ∧ (u q).rail = q.rail ∧ (u q).status ≠ .pending) :
    Persists s { s with
      queue := updateWhere p u s.queue, ledger := ledger, owner := owner, drawn := drawn } where
  rows q hq := by
    refine ⟨if p q then u q else q, mem_updateWhere.mpr ⟨q, hq, rfl⟩, ?_⟩
    split
    · obtain ⟨h1, h2, h3⟩ := hu q
      exact ⟨h1, h2, fun _ => h3⟩
    · exact ⟨rfl, rfl, id⟩
  handed _ hh := hh
  inert _ _ hi := hi

theorem RowOk.persist {q : QueueRow} (h : RowOk registry s q) (hp : Persists s s')
    (href : s'.refundRows q.pendingId = s.refundRows q.pendingId) : RowOk registry s' q := by
  obtain ⟨hpos, hst⟩ := h
  refine ⟨hpos, ?_⟩
  rw [href]
  cases hq : q.status <;> rw [hq] at hst <;> simp only at hst ⊢
  · exact hst
  · exact hst
  · exact hst
  · exact hst
  · exact ⟨hst.1, hst.2.1, hp.refundable hst.2.2⟩
  · exact ⟨hst.1, hst.2.1, hp.refundable hst.2.2⟩

/-- A withdrawal's account of itself survives a step that leaves its refunds and the links
    alone. -/
theorem WithdrawalOk.persist {w : Withdrawal} (h : WithdrawalOk lands s w)
    (href : s'.refundRows w.withdrawalId = s.refundRows w.withdrawalId)
    (hlinks : ∀ q' ∈ s'.queue, q'.withdrawalId = some w.withdrawalId →
      ∃ q ∈ s.queue, q.pendingId = q'.pendingId ∧ q.withdrawalId = some w.withdrawalId) :
    WithdrawalOk lands s' w := by
  obtain ⟨hpos, hcount, hfailed⟩ := h
  refine ⟨hpos, by rw [href]; exact hcount, fun hst q' hq' hlink => ?_⟩
  obtain ⟨q, hq, hid, hql⟩ := hlinks q' hq' hlink
  rw [← hid]
  exact hfailed hst q hq hql

/-! ## §4. The queue's own writes -/

theorem Shape.update (h : Shape uuid registry lands s) {books : Books}
    {owner : String → Option Nat}
    (hu : ∀ q, (u q).pendingId = q.pendingId ∧ (u q).rail = q.rail ∧ (u q).status ≠ .pending)
    (hlink : ∀ q, (u q).withdrawalId = q.withdrawalId)
    (hrefs : ∀ t ∈ books.transactions, t ∈ s.ledger.books.transactions ∨
      ∀ r, t.referenceId = some r → Drawn uuid s r)
    (howner : ∀ id t, owner id = some t → s.owner id = some t ∨
      ∃ q ∈ updateWhere p u s.queue, q.pendingId = id ∧ q.status ≠ .pending) :
    Shape uuid registry lands { s with
      queue := updateWhere p u s.queue, ledger := { s.ledger with books := books },
      owner := owner } := by
  have hper : Persists s { s with
      queue := updateWhere p u s.queue, ledger := { s.ledger with books := books },
      owner := owner } := .update hu
  have hmem : ∀ q' ∈ updateWhere p u s.queue, ∃ q ∈ s.queue, q'.pendingId = q.pendingId ∧
      q'.withdrawalId = q.withdrawalId := by
    intro q' hq'
    obtain ⟨q, hq, rfl⟩ := mem_updateWhere.mp hq'
    refine ⟨q, hq, ?_⟩
    split
    · exact ⟨(hu q).1, hlink q⟩
    · exact ⟨rfl, rfl⟩
  refine { h with
    queueIds := ?_, queueDrawn := ?_, apart := ?_, refs := ?_, linked := ?_, links := ?_,
    owned := ?_, handedRow := fun x hx => (h.handedRow x hx).imp_right hper.taken }
  · rw [map_updateWhere _ fun q => (hu q).1]
    exact h.queueIds
  · intro q' hq'
    obtain ⟨q, hq, hid, -⟩ := hmem q' hq'
    rw [hid]
    exact h.queueDrawn q hq
  · intro q' hq' w hw
    obtain ⟨q, hq, hid, -⟩ := hmem q' hq'
    rw [hid]
    exact h.apart q hq w hw
  · intro t ht r hr
    rcases hrefs t ht with hold | hnew
    · exact h.refs t hold r hr
    · exact hnew r hr
  · intro q' hq' w hw
    obtain ⟨q, hq, -, hl⟩ := hmem q' hq'
    exact h.linked q hq w (hl ▸ hw)
  · intro q₁ hq₁ q₂ hq₂ w hw₁ hw₂
    obtain ⟨r₁, hr₁, hid₁, hl₁⟩ := hmem q₁ hq₁
    obtain ⟨r₂, hr₂, hid₂, hl₂⟩ := hmem q₂ hq₂
    rw [hid₁, hid₂]
    exact h.links r₁ hr₁ r₂ hr₂ w (hl₁ ▸ hw₁) (hl₂ ▸ hw₂)
  · intro id t hown
    rcases howner id t hown with hold | hnew
    · obtain ⟨q, hq, hid, hst⟩ := h.owned id t hold
      obtain ⟨q', hq', hid', -, hst'⟩ := hper.rows q hq
      exact ⟨q', hq', hid'.trans hid, hst' hst⟩
    · exact hnew

/-- A queue write that moves no money: the moved row accounts for itself in its new status. -/
theorem Inv.moveRow (h : Inv uuid registry lands s) {owner : String → Option Nat}
    (hu : ∀ q, (u q).pendingId = q.pendingId ∧ (u q).rail = q.rail ∧ (u q).status ≠ .pending)
    (hlink : ∀ q, (u q).withdrawalId = q.withdrawalId)
    (howner : ∀ id t, owner id = some t → s.owner id = some t ∨
      ∃ q ∈ updateWhere p u s.queue, q.pendingId = id ∧ q.status ≠ .pending)
    (hrow : ∀ q ∈ s.queue, p q = true → RowOk registry s q →
      RowOk registry { s with queue := updateWhere p u s.queue, owner := owner } (u q)) :
    Inv uuid registry lands { s with queue := updateWhere p u s.queue, owner := owner } := by
  refine ⟨h.toShape.update hu hlink (fun t ht => .inl ht) howner, ?_, ?_⟩
  · intro q' hq'
    obtain ⟨q, hq, rfl⟩ := mem_updateWhere.mp hq'
    cases hp : p q with
    | true => exact hrow q hq hp (h.rows q hq)
    | false => exact (h.rows q hq).persist (.update hu) rfl
  · intro w hw
    refine (h.withdrawals w hw).persist rfl fun q' hq' hl => ?_
    obtain ⟨q, hq, rfl⟩ := mem_updateWhere.mp hq'
    refine ⟨q, hq, ?_⟩
    split at hl
    · rw [if_pos (by assumption)]
      exact ⟨(hu q).1.symm, (hlink q) ▸ hl⟩
    · rw [if_neg (by assumption)]
      exact ⟨rfl, hl⟩

/-! ## §5. What a thread may do -/

/-- The guarantee of thread `t`: rows and payouts persist, a claimed row keeps its claimer,
    and only rows `t` claimed are handed over. -/
structure Guar (t : Nat) (s s' : Store) : Prop where
  persists : Persists s s'
  owners : ∀ id u, s.owner id = some u → s'.owner id = some u
  handed : ∀ h ∈ s'.handed, h ∈ s.handed ∨ s.owner h.1 = some t

theorem Guar.refl (t : Nat) (s : Store) : Guar t s s :=
  ⟨.refl s, fun _ _ h => h, fun _ h => .inl h⟩

/-- A step that claims nothing and hands nothing over. -/
structure Quiet (s s' : Store) : Prop where
  persists : Persists s s'
  owner : s'.owner = s.owner
  handed : s'.handed = s.handed

theorem Quiet.refl (s : Store) : Quiet s s := ⟨.refl s, rfl, rfl⟩

theorem Quiet.guar (h : Quiet s s') (t : Nat) : Guar t s s' where
  persists := h.persists
  owners id u hown := by
    rw [h.owner]
    exact hown
  handed x hx := by
    rw [h.handed] at hx
    exact .inl hx

/-- The thread claimed this row for this rail and has not handed it over yet. -/
def Claimed (t : Nat) (rail : Rail) (id : String) (s : Store) : Prop :=
  s.owner id = some t ∧ ¬ s.Handed id ∧ s.Taken id rail.name

/-- **The claim**: at most one thread gets a row, and only out of `pending`. -/
theorem Inv.claim (h : Inv uuid registry lands s) {t now : Nat}
    {row : Option QueueRow} (hok : s.claim t id now = .ok (row, s')) :
    Inv uuid registry lands s' ∧ Guar t s s' ∧ s'.handed = s.handed ∧
    ∀ r, row = some r → r ∈ s'.queue ∧ r.pendingId = id ∧
      (∃ q ∈ s.queue, q.pendingId = id ∧ q.status = .pending) ∧
      ∀ rail : Rail, s.OnRail id rail.name → Claimed t rail id s' := by
  unfold Store.claim at hok
  split at hok
  · -- nothing matched
    obtain ⟨rfl, rfl⟩ := Prod.mk.inj (Except.ok.inj hok)
    exact ⟨h, .refl t s, rfl, by simp⟩
  · next s₁ hcas =>
    split at hok
    · cases hok
    obtain ⟨hcount, rfl⟩ := Prod.mk.inj hcas
    obtain ⟨hrow, rfl⟩ := Prod.mk.inj (Except.ok.inj hok)
    obtain ⟨q, hq, hid, hst, honly⟩ := h.selected (of_decide_eq_true hcount)
    -- a pending row is owned by nobody and was never handed over
    have hpend : ∀ q' ∈ s.queue, q'.pendingId = id → q'.status = .pending := by
      intro q' hq' hid'
      rw [honly q' hq' hid']
      exact hst
    have hunowned : s.owner id = none := by
      cases ho : s.owner id with
      | none => rfl
      | some u =>
        obtain ⟨q', hq', hid', hst'⟩ := h.owned id u ho
        exact absurd (hpend q' hq' hid') hst'
    have hunhanded : ¬ s.Handed id := by
      intro hh
      obtain ⟨rail, hrail⟩ := hh
      obtain ⟨-, q', hq', hid', -, hst'⟩ := h.handedRow _ hrail
      exact hst' (hpend q' hq' hid')
    set u : QueueRow → QueueRow :=
      fun q => { q with status := .firing, lastAttemptAt := some now } with hu
    set p : QueueRow → Bool := fun q => q.pendingId == id && q.status == .pending with hp
    have hmoved : u q ∈ updateWhere p u s.queue :=
      mem_updateWhere.mpr ⟨q, hq, by simp [hp, hid, hst]⟩
    have hper : Persists s { s with
        queue := updateWhere p u s.queue, owner := Function.update s.owner id (some t) } :=
      .update fun q => ⟨rfl, rfl, by simp [hu]⟩
    refine ⟨?_, ⟨hper, ?_, fun x hx => .inl hx⟩, rfl, ?_⟩
    · refine h.moveRow (p := p) (fun q => ⟨rfl, rfl, by simp [hu]⟩) (fun q => rfl) ?_ ?_
      · intro id' t' hown
        by_cases hid' : id' = id
        · subst hid'
          exact .inr ⟨u q, hmoved, hid, by simp [hu]⟩
        · left
          rw [← hown]
          exact (update_of_ne hid' _ _).symm
      · intro q' hq' hpq' hrow'
        have hst' : q'.status = .pending := by simpa [hp] using (by simpa [hp] using hpq' : _ ∧ _).2
        obtain ⟨hpos, hmid⟩ := hrow'
        rw [hst'] at hmid
        exact ⟨hpos, hmid⟩
    · intro id' v hown
      have hid' : id' ≠ id := by
        intro heq
        rw [heq, hunowned] at hown
        cases hown
      show Function.update s.owner id (some t) id' = some v
      rw [update_of_ne hid']
      exact hown
    · intro r hr
      have hfind : List.find? (fun q => q.pendingId == id) (updateWhere p u s.queue) = some r :=
        hrow.trans hr
      refine ⟨mem_of_find?_eq_some hfind, by simpa using find?_some hfind,
        ⟨q, hq, hid, hst⟩, fun rail hon => ?_⟩
      obtain ⟨q', hq', hid', hname⟩ := hon
      rw [honly q' hq' hid'] at hname
      exact ⟨update_self _ _ _, hunhanded, u q, hmoved, hid, hname, by simp [hu]⟩

theorem Inv.park (h : Inv uuid registry lands s) (reason : String)
    (now : Nat) (hr : s.Refundable registry id) :
    Inv uuid registry lands (s.casQueue id .firing fun q =>
      { q with status := .refundOwed, lastError := some reason, lastAttemptAt := some now }).2 ∧
    Quiet s (s.casQueue id .firing fun q =>
      { q with status := .refundOwed, lastError := some reason, lastAttemptAt := some now }).2 := by
  set u : QueueRow → QueueRow := fun q =>
    { q with status := .refundOwed, lastError := some reason, lastAttemptAt := some now } with hu
  have hper : Persists s (s.casQueue id .firing u).2 :=
    .update (u := u) fun q => ⟨rfl, rfl, by simp [hu]⟩
  refine ⟨?_, hper, rfl, rfl⟩
  refine h.moveRow (p := fun q => q.pendingId == id && q.status == .firing) (u := u)
    (fun q => ⟨rfl, rfl, by simp [hu]⟩) (fun q => rfl) (fun _ _ hown => .inl hown) ?_
  intro q _ hpq hrow
  simp only [Bool.and_eq_true, beq_iff_eq] at hpq
  obtain ⟨hpos, hmid⟩ := hrow
  rw [hpq.2] at hmid
  refine ⟨hpos, hmid.1, hmid.2, ?_⟩
  show (s.casQueue id .firing u).2.Refundable registry q.pendingId
  rw [hpq.1]
  exact hper.refundable hr

/-! ## §6. The refund and the outcome -/

/-- The ledger row of a credit adds one refund under its own reference and none elsewhere. -/
theorem refundRows_credit {books : Books} {m ref : String} {amount : Int} (hpos : 0 < amount)
    (desc : Option String) (r : String) :
    Ledger.refunds (books.credit m amount .withdrawal (some ref) desc none).2.transactions r
      = Ledger.refunds books.transactions r + (if r = ref then 1 else 0) := by
  rw [Books.transactions_credit, Ledger.refunds_append_row]
  by_cases h : r = ref
  · subst h
    simp [hpos]
  · have h' : ¬ (some ref = some r ∧ 0 < amount) := by
      intro hc
      exact h (Option.some.inj hc.1).symm
    simp only [h, if_false]
    rw [if_neg h']

section

variable (h : Inv uuid registry lands s)
include h

/-- **The loop's refund** happens once: out of `refund_owed`, with the credit. -/
theorem Inv.refund {now : Nat} {b : Bool} (hok : s.refundPendingWithdrawal id now = .ok (b, s')) :
    Inv uuid registry lands s' ∧ Quiet s s' := by
  unfold Store.refundPendingWithdrawal at hok
  split at hok
  · obtain ⟨-, rfl⟩ := Prod.mk.inj (Except.ok.inj hok)
    exact ⟨h, .refl s⟩
  next s₁ hcas =>
  split at hok
  · cases hok
  next row hrow =>
  split at hok
  · cases hok
  obtain ⟨hcount, rfl⟩ := Prod.mk.inj hcas
  obtain ⟨-, rfl⟩ := Prod.mk.inj (Except.ok.inj hok)
  obtain ⟨q, hq, hid, hst, honly⟩ := h.selected (of_decide_eq_true hcount)
  set u : QueueRow → QueueRow :=
    fun q => { q with status := .refunded, lastAttemptAt := some now } with hu
  set p : QueueRow → Bool := fun q => q.pendingId == id && q.status == .refundOwed with hp
  -- the row read back is the moved row, so the amount credited is positive
  have hrowq : row = u q := by
    have hmem := mem_of_find?_eq_some hrow
    have hrid : row.pendingId = id := by simpa using find?_some hrow
    obtain ⟨q', hq', rfl⟩ := mem_updateWhere.mp hmem
    have hq'id : q'.pendingId = id := by
      rw [← hrid]
      split <;> rfl
    rw [honly q' hq' hq'id]
    simp [hp, hid, hst]
  have hqok := h.rows q hq
  have hpos : 0 < row.amountMicro := by
    rw [hrowq]
    exact hqok.1
  have hmid := hqok.2
  rw [hst] at hmid
  obtain ⟨hnolink, hzero, hrefundable⟩ := hmid
  set L : Ledger := { s.ledger with
    books := (s.ledger.books.credit row.motebitId row.amountMicro .withdrawal (some id)
      (some (notSentText row)) none).2 } with hL
  have hrefs : ∀ r, Ledger.refunds L.books.transactions r
      = s.refundRows r + (if r = id then 1 else 0) := fun r => refundRows_credit hpos _ r
  have hper : Persists s { s with queue := updateWhere p u s.queue, ledger := L } :=
    .update fun q => ⟨rfl, rfl, by simp [hu]⟩
  refine ⟨⟨?_, ?_, ?_⟩, hper, rfl, rfl⟩
  · refine h.toShape.update (p := p) (fun q => ⟨rfl, rfl, by simp [hu]⟩) (fun q => rfl) ?_
      fun _ _ hown => .inl hown
    intro x hx
    have hx' : x ∈ L.books.transactions := hx
    rw [hL, Books.transactions_credit, mem_append, mem_singleton] at hx'
    rcases hx' with hx' | rfl
    · exact .inl hx'
    · right
      intro r hr
      cases hr
      rw [← hid]
      exact h.queueDrawn q hq
  · intro q' hq'
    obtain ⟨q₀, hq₀, rfl⟩ := mem_updateWhere.mp hq'
    by_cases hq₀id : q₀.pendingId = id
    · -- the refunded row
      have hq₀q := honly q₀ hq₀ hq₀id
      subst hq₀q
      have hpq : p q₀ = true := by simp [hp, hid, hst]
      rw [if_pos hpq]
      refine ⟨hqok.1, hnolink, ?_, hper.refundable hrefundable⟩
      show Ledger.refunds L.books.transactions q₀.pendingId = 1
      rw [hrefs, hzero, if_pos hid]
    · have hpq : p q₀ = false := by simp [hp, hq₀id]
      rw [if_neg (by simp [hpq])]
      refine (h.rows q₀ hq₀).persist hper ?_
      show Ledger.refunds L.books.transactions q₀.pendingId = _
      rw [hrefs, if_neg hq₀id]
      rfl
  · intro w hw
    refine (h.withdrawals w hw).persist ?_ fun q' hq' hl => ?_
    · show Ledger.refunds L.books.transactions w.withdrawalId = _
      rw [hrefs, if_neg fun heq => h.apart q hq w hw (hid.trans heq.symm)]
      rfl
    · obtain ⟨q₀, hq₀, rfl⟩ := mem_updateWhere.mp hq'
      refine ⟨q₀, hq₀, ?_⟩
      split at hl
      · rw [if_pos (by assumption)]
        exact ⟨rfl, hl⟩
      · rw [if_neg (by assumption)]
        exact ⟨rfl, hl⟩

/-- **The outcome**: out of `firing`, with a withdrawal under a fresh id. -/
theorem Inv.recordOutcome (huuid : Injective uuid)
    {row : QueueRow} {status : QueueStatus} {lastError : Option String}
    {fired : FiredRecord} {now : Nat} {failureReason : Option String} {id? : Option String}
    (hstatus : status = .fired ∨ status = .unknown) (hfired : fired.status ≠ .failed)
    (hpos : 0 < row.amountMicro)
    (hok : s.recordOutcome uuid row status lastError fired now failureReason = .ok (id?, s')) :
    Inv uuid registry lands s' ∧ Quiet s s' := by
  unfold Store.recordOutcome at hok
  dsimp only at hok
  split at hok
  · next hcount =>
    split at hok
    · cases hok
    obtain ⟨-, rfl⟩ := Prod.mk.inj (Except.ok.inj hok)
    obtain ⟨q, hq, hid, hst, honly⟩ := h.selected hcount
    set u : QueueRow → QueueRow := fun q => { q with
      status := status, lastAttemptAt := some now, lastError := lastError.or q.lastError,
      withdrawalId := some (uuid s.drawn) } with hu
    set p : QueueRow → Bool :=
      fun q => q.pendingId == row.pendingId && q.status == .firing with hp
    set w : Withdrawal := firedWithdrawal (uuid s.drawn) row fired now failureReason with hw
    have hnp : status ≠ .pending := by
      rcases hstatus with rfl | rfl <;> simp
    have hu' : ∀ q, (u q).pendingId = q.pendingId ∧ (u q).rail = q.rail ∧
        (u q).status ≠ .pending := fun q => ⟨rfl, rfl, hnp⟩
    set s' : Store := { s with
      drawn := s.drawn + 1, queue := updateWhere p u s.queue,
      ledger := { s.ledger with withdrawals := s.ledger.withdrawals ++ [w] } } with hs'
    have hper : Persists s s' := .update hu'
    have hqok := (h.rows q hq).2
    rw [hst] at hqok
    -- what is drawn stays drawn, and the new id is drawn now
    have hdr : ∀ i, Drawn uuid s i → Drawn uuid s' i := by
      intro i hi
      obtain ⟨k, hk, heq⟩ := hi
      exact ⟨k, Nat.lt_succ_of_lt hk, heq⟩
    have hnew : Drawn uuid s' (uuid s.drawn) := ⟨s.drawn, Nat.lt_succ_self _, rfl⟩
    have hmem : ∀ q' ∈ s'.queue, ∃ q₀ ∈ s.queue, q'.pendingId = q₀.pendingId ∧
        q'.amountMicro = q₀.amountMicro ∧
        ((q' = u q ∧ q₀ = q) ∨ (q' = q₀ ∧ q₀.pendingId ≠ row.pendingId)) := by
      intro q' hq'
      obtain ⟨q₀, hq₀, rfl⟩ := mem_updateWhere.mp hq'
      by_cases hq₀id : q₀.pendingId = row.pendingId
      · have hq₀q := honly q₀ hq₀ hq₀id
        subst hq₀q
        have hpq : p q₀ = true := by simp [hp, hid, hst]
        rw [if_pos hpq]
        exact ⟨q₀, hq₀, rfl, rfl, .inl ⟨rfl, rfl⟩⟩
      · have hpq : ¬ p q₀ = true := by simp [hp, hq₀id]
        rw [if_neg hpq]
        exact ⟨q₀, hq₀, rfl, rfl, .inr ⟨rfl, hq₀id⟩⟩
    have hnofresh : ∀ q₀ ∈ s.queue, q₀.withdrawalId ≠ some (uuid s.drawn) := by
      intro q₀ hq₀ hl
      obtain ⟨x, hx, hxid⟩ := h.linked q₀ hq₀ _ hl
      exact not_drawn_next huuid (hxid ▸ h.withdrawalDrawn x hx)
    refine ⟨⟨{ h.toShape with
      queueIds := ?_, withdrawalIds := ?_, queueDrawn := ?_, withdrawalDrawn := ?_, apart := ?_,
      refs := fun x hx r hr => hdr _ (h.refs x hx r hr), linked := ?_, links := ?_, owned := ?_,
      handedRow := fun x hx => (h.handedRow x hx).imp_right hper.taken }, ?_, ?_⟩,
      hper, rfl, rfl⟩
    · show (List.map QueueRow.pendingId (updateWhere p u s.queue)).Nodup
      rw [map_updateWhere _ fun q => (hu' q).1]
      exact h.queueIds
    · show ((s.ledger.withdrawals ++ [w]).map Withdrawal.withdrawalId).Nodup
      rw [map_append, nodup_append]
      refine ⟨h.withdrawalIds, by simp, ?_⟩
      intro a ha b hb
      obtain ⟨x, hx, rfl⟩ := mem_map.mp ha
      simp only [map_cons, map_nil, mem_singleton] at hb
      subst hb
      intro heq
      have hxw : x.withdrawalId = uuid s.drawn := heq
      exact not_drawn_next huuid (hxw ▸ h.withdrawalDrawn x hx)
    · intro q' hq'
      obtain ⟨q₀, hq₀, hid₀, -⟩ := hmem q' hq'
      rw [hid₀]
      exact hdr _ (h.queueDrawn q₀ hq₀)
    · intro x hx
      rcases mem_append.mp hx with hx | hx
      · exact hdr _ (h.withdrawalDrawn x hx)
      · rw [mem_singleton.mp hx]
        exact hnew
    · intro q' hq' x hx
      obtain ⟨q₀, hq₀, hid₀, -⟩ := hmem q' hq'
      rw [hid₀]
      rcases mem_append.mp hx with hx | hx
      · exact h.apart q₀ hq₀ x hx
      · rw [mem_singleton.mp hx]
        intro heq
        have heq' : q₀.pendingId = uuid s.drawn := heq
        exact not_drawn_next huuid (heq' ▸ h.queueDrawn q₀ hq₀)
    · intro q' hq' w' hl
      obtain ⟨q₀, hq₀, -, -, ⟨rfl, -⟩ | ⟨rfl, -⟩⟩ := hmem q' hq'
      · cases hl
        exact ⟨w, mem_append_right _ (by simp), rfl⟩
      · obtain ⟨x, hx, hxid⟩ := h.linked q' hq₀ w' hl
        exact ⟨x, mem_append_left _ hx, hxid⟩
    · intro q₁ hq₁ q₂ hq₂ w' hl₁ hl₂
      obtain ⟨r₁, hr₁, -, -, hc₁⟩ := hmem q₁ hq₁
      obtain ⟨r₂, hr₂, -, -, hc₂⟩ := hmem q₂ hq₂
      rcases hc₁ with ⟨rfl, -⟩ | ⟨rfl, -⟩ <;> rcases hc₂ with ⟨rfl, -⟩ | ⟨rfl, -⟩
      · rfl
      · cases hl₁
        exact absurd hl₂ (hnofresh q₂ hr₂)
      · cases hl₂
        exact absurd hl₁ (hnofresh q₁ hr₁)
      · exact h.links q₁ hr₁ q₂ hr₂ w' hl₁ hl₂
    · intro i t' hown
      obtain ⟨q₀, hq₀, hid₀, hst₀⟩ := h.owned i t' hown
      obtain ⟨q', hq', hid', -, hst'⟩ := hper.rows q₀ hq₀
      exact ⟨q', hq', hid'.trans hid₀, hst' hst₀⟩
    · intro q' hq'
      obtain ⟨q₀, hq₀, -, -, ⟨rfl, rfl⟩ | ⟨rfl, -⟩⟩ := hmem q' hq'
      · refine ⟨(h.rows q₀ hq₀).1, ?_⟩
        rcases hstatus with hs | hs
        · rw [show (u q₀).status = .fired from hs]
          exact ⟨by simp [hu], hqok.2⟩
        · rw [show (u q₀).status = .unknown from hs]
          exact ⟨by simp [hu], hqok.2⟩
      · exact (h.rows q' hq₀).persist hper rfl
    · intro x hx
      rcases mem_append.mp hx with hx | hx
      · refine (h.withdrawals x hx).persist rfl fun q' hq' hl => ?_
        obtain ⟨q₀, hq₀, -, -, ⟨rfl, rfl⟩ | ⟨rfl, -⟩⟩ := hmem q' hq'
        · -- the new link names the new withdrawal only
          have heq : uuid s.drawn = x.withdrawalId := Option.some.inj hl
          exact absurd (heq ▸ h.withdrawalDrawn x hx) (not_drawn_next huuid)
        · exact ⟨q', hq₀, rfl, hl⟩
      · rw [mem_singleton.mp hx]
        refine ⟨hpos, ?_, fun hf => absurd hf hfired⟩
        show s.refundRows (uuid s.drawn) = if fired.status = .failed then 1 else 0
        rw [if_neg hfired]
        exact h.refundRows_fresh huuid
  · obtain ⟨-, rfl⟩ := Prod.mk.inj (Except.ok.inj hok)
    exact ⟨h, .refl s⟩

/-! ## §7. The rail -/

/-- A step beside the queue and the ledger keeps what each row stands for. -/
theorem Inv.beside (hper : Persists s s') (hqueue : s'.queue = s.queue) (hledger : s'.ledger = s.ledger)
    (hshape : Shape uuid registry lands s') : Inv uuid registry lands s' := by
  have hrefunds : ∀ ref, s'.refundRows ref = s.refundRows ref := fun ref => by
    unfold Store.refundRows
    rw [hledger]
  refine ⟨hshape, fun q hq => ?_, fun w hw => ?_⟩
  · exact (h.rows q (hqueue ▸ hq)).persist hper (hrefunds _)
  · exact (h.withdrawals w (hledger ▸ hw)).persist (hrefunds _) fun q hq hl => ⟨q, hqueue ▸ hq, rfl, hl⟩

/-- **Handing over** rows this thread claimed for this rail. -/
theorem Inv.handOver (t : Nat) {rail : Rail}
    (hrail : rail ∈ registry.rails) {ids : List String} (hnd : ids.Nodup)
    (hclaimed : ∀ id ∈ ids, Claimed t rail id s) :
    Inv uuid registry lands (s.handOver rail ids) ∧ Guar t s (s.handOver rail ids) := by
  have hmem : ∀ x ∈ (s.handOver rail ids).handed, x ∈ s.handed ∨ (x.1 ∈ ids ∧ x.2 = rail) := by
    intro x hx
    rcases mem_append.mp hx with hx | hx
    · exact .inl hx
    · obtain ⟨id, hid, rfl⟩ := mem_map.mp hx
      exact .inr ⟨hid, rfl⟩
  have hper : Persists s (s.handOver rail ids) := by
    refine ⟨fun q hq => ⟨q, hq, rfl, rfl, id⟩, fun x hx => mem_append_left _ hx, ?_⟩
    intro id hh hi
    refine ⟨hi.1, fun r hr => ?_⟩
    rcases mem_append.mp hr with hr | hr
    · exact hi.2 r hr
    · -- a row handed before is not claimed now
      obtain ⟨id', hid', heq⟩ := mem_map.mp hr
      cases heq
      exact absurd hh (hclaimed id hid').2.1
  have hshape : Shape uuid registry lands (s.handOver rail ids) := by
    refine { h.toShape with handedOnce := ?_, handedRow := ?_, atRail := ?_, left := ?_ }
    · show ((s.handed ++ ids.map fun id => (id, rail)).map Prod.fst).Nodup
      rw [map_append, map_map, nodup_append]
      refine ⟨h.handedOnce, ?_, ?_⟩
      · have hid : ids.map (Prod.fst ∘ fun id => (id, rail)) = ids := by
          simp [comp_def]
        rw [hid]
        exact hnd
      · intro a ha b hb
        obtain ⟨x, hx, rfl⟩ := mem_map.mp ha
        obtain ⟨id, hid, rfl⟩ := mem_map.mp hb
        intro heq
        exact (hclaimed id hid).2.1 ⟨x.2, by
          have hx' : (x.1, x.2) ∈ s.handed := hx
          rw [heq] at hx'
          exact hx'⟩
    · intro x hx
      rcases hmem x hx with hx | ⟨hid, hr⟩
      · exact h.handedRow x hx
      · rw [hr]
        exact ⟨hrail, (hclaimed x.1 hid).2.2⟩
    · intro x hx
      rcases mem_append.mp hx with hx | hx
      · exact mem_append_left _ (h.atRail x hx)
      · exact mem_append_right _ hx
    · intro id hid
      obtain ⟨r, hr, hsends⟩ := h.left id hid
      exact ⟨r, mem_append_left _ hr, hsends⟩
  refine ⟨h.beside hper rfl rfl hshape, hper, fun _ _ hown => hown, fun x hx => ?_⟩
  rcases hmem x hx with hx | ⟨hid, -⟩
  · exact .inl hx
  · exact .inr (hclaimed x.1 hid).1

theorem Inv.offRail (gone : String → Bool) :
    Inv uuid registry lands { s with atRail := s.atRail.filter fun x => !gone x.1 } ∧
    Quiet s { s with atRail := s.atRail.filter fun x => !gone x.1 } := by
  have hper : Persists s { s with atRail := s.atRail.filter fun x => !gone x.1 } :=
    { Persists.refl s with
      inert := fun id _ hi => ⟨hi.1, fun r hr => hi.2 r (mem_of_mem_filter hr)⟩ }
  have hatRail : ∀ x ∈ s.atRail.filter fun x => !gone x.1, x ∈ s.handed := fun x hx =>
    h.atRail x (mem_of_mem_filter hx)
  exact ⟨h.beside hper rfl rfl { h.toShape with atRail := hatRail }, hper, rfl, rfl⟩

theorem Inv.memory (frozen : Bool) (firingHere : List String) (clock processStartedAt : Nat) :
    Inv uuid registry lands { s with
      frozen := frozen, firingHere := firingHere, clock := clock,
      processStartedAt := processStartedAt } ∧
    Quiet s { s with
      frozen := frozen, firingHere := firingHere, clock := clock,
      processStartedAt := processStartedAt } := by
  have hper : Persists s { s with
      frozen := frozen, firingHere := firingHere, clock := clock,
      processStartedAt := processStartedAt } :=
    { Persists.refl s with }
  exact ⟨h.beside hper rfl rfl { h.toShape with }, hper, rfl, rfl⟩

end

end Motebit.Batch
