/-
  Motebit.Federation.Delivery — A FEDERATED TASK'S MONEY IS PAID ONCE across the two relays,
  as long as no forward is failed and refunded before its requests are cleared.

  The invariant joins both sides: every request names a forward of the origin, every settlement
  of the origin's at the executor comes from a request it recorded, and a failed forward has only
  requests that were refused or are gone.

  Main results: `forward_paid_once`, `lost_answers_pay_twice`.
-/

import Mathlib.Tactic.IntervalCases
import Motebit.Federation.Origin

namespace Motebit.Federation

open Motebit.Lib Motebit.Lib.Protocol List
open Motebit.Escrow (Db Ambient AllocationMove MoveError ForwardStatus FederationSettlement
  ForwardInsert ReleaseKind moveAllocationMoney moveAllocated moveOut markForwardDelivered
  insertForward refuse_ne_ok creditStamped_ok)
open Motebit.TaskQueue (ExecutionReceipt TaskQueueEntry)

/-! ## §1. What the escrow does to the forwards -/

section

variable {signedPayee : String → Option String} {db db' : Db} {amb : Ambient}

theorem federatedForward_rows {A : String} {n : Int} {fwd : ForwardInsert}
    (h : moveAllocationMoney signedPayee db amb (.federatedForward A n fwd) = .ok db') :
    (∀ f ∈ db.federationSettlements, f.settlementId ≠ fwd.settlementId ∧
      ¬(f.taskId = fwd.taskId ∧ f.upstreamRelayId = fwd.upstreamRelayId)) ∧
    db'.federationSettlements = db.federationSettlements ++
      [⟨fwd.settlementId, fwd.taskId, fwd.upstreamRelayId, fwd.downstreamRelayId,
        fwd.grossAmount, some A, .pending⟩] := by
  obtain ⟨alloc, h⟩ := Escrow.moveAllocationMoney_allocated h (by simp)
  simp only [moveAllocated, moveOut] at h
  iterate 3
    split at h
    · exact absurd h refuse_ne_ok
  unfold insertForward at h
  split at h
  · cases h
  next hnew =>
  have hdb := Escrow.escrowGuard_ok h
  subst hdb
  refine ⟨fun f hf => ?_, rfl⟩
  simp only [any_eq_true, not_exists, not_and, Bool.or_eq_true, beq_iff_eq,
    Bool.and_eq_true, not_or] at hnew
  have hrow := hnew f hf
  exact ⟨hrow.1, fun hboth => hrow.2 hboth.1 hboth.2⟩

theorem release_rows {kind : ReleaseKind} {A party description : String} {n : Int}
    (h : moveAllocationMoney signedPayee db amb (.release kind A n party description) = .ok db') :
    db'.federationSettlements = db.federationSettlements := by
  obtain ⟨alloc, h⟩ := Escrow.moveAllocationMoney_allocated h (by simp)
  simp only [moveAllocated, moveOut] at h
  split at h
  · exact absurd h refuse_ne_ok
  rcases Escrow.toHoldPayer_ok h with ⟨-, rfl⟩ | ⟨-, h⟩
  · rfl
  · rw [creditStamped_ok h]

theorem forwardReturn_rows {A settlementId : String} {n : Int}
    (h : moveAllocationMoney signedPayee db amb (.forwardReturn A n settlementId) = .ok db') :
    db'.federationSettlements = updateWhere
      (fun f => f.settlementId == settlementId && f.status == .pending)
      (fun f => { f with status := .failed }) db.federationSettlements := by
  obtain ⟨alloc, h⟩ := Escrow.moveAllocationMoney_allocated h (by simp)
  simp only [moveAllocated] at h
  iterate 3
    split at h
    · exact absurd h refuse_ne_ok
  · cases h
    rfl

end

/-! ## §2. The joint invariant -/

abbrev forwards (o : Origin) : List FederationSettlement := o.escrow.federationSettlements

/-- A message names a forward of the origin to `peer`, for its net. -/
def Backed (S : Setup) (o : Origin) (body : SettlementBody) (peer : String) : Prop :=
  ∃ f ∈ forwards o, f.downstreamRelayId = some peer ∧ body.taskId = f.taskId ∧
    body.settlementId = f.settlementId ∧ body.originRelay = S.originId ∧
    body.grossAmount = netOf S.originRate f.grossAmount

/-- A retry row carries its own forward. -/
def RetryBacked (S : Setup) (o : Origin) (r : Retry) : Prop :=
  Backed S o r.payload r.peerRelayId ∧ r.payload.settlementId = r.settlementId

/-- The origin's forwards are its own, unique by settlement and by task, and every retry row
    carries one. -/
structure Forwarding (S : Setup) (o : Origin) : Prop where
  upstream : ∀ f ∈ forwards o, f.upstreamRelayId = S.originId ∧ f.downstreamRelayId.isSome
  ids : ((forwards o).map FederationSettlement.settlementId).Nodup
  tasks : ((forwards o).map FederationSettlement.taskId).Nodup
  retries : ∀ r ∈ o.retries, RetryBacked S o r

def Records (S : Setup) (row : FederationRow) (body : SettlementBody) : Prop :=
  row.settlementId = body.settlementId ∧ row.taskId = body.taskId ∧
    row.netAmount = netOf S.executorRate body.grossAmount

structure Inv (S : Setup) (p : Pair) : Prop where
  origin : Forwarding S p.origin
  executor : Booked p.executor
  requests : ∀ r ∈ p.requests, Backed S p.origin r.body r.recipient
  rows : ∀ row ∈ p.executor.federation, row.upstreamRelayId = S.originId →
    ∃ r ∈ p.requests, r.recipient = S.executorId ∧ r.fate = .recorded ∧ Records S row r.body
  failed : p.hasty = false → ∀ f ∈ forwards p.origin, f.status = .failed →
    S.cleared f.settlementId p = true

/-- What every step keeps: a forward stays but for its status, and a failed one stays failed; a
    request stays but for its fate; the history is not forgotten. -/
structure Onward (p p' : Pair) : Prop where
  forwards : ∀ f ∈ forwards p.origin, ∃ f' ∈ forwards p'.origin,
    ({ f' with status := f.status } : FederationSettlement) = f ∧
      (f.status = .failed → f'.status = .failed)
  requests : ∀ (n : Nat) (r : Request), p.requests[n]? = some r →
    ∃ r', p'.requests[n]? = some r' ∧ r'.recipient = r.recipient ∧ r'.body = r.body
  hasty : p'.hasty = false → p.hasty = false

theorem Onward.refl (p : Pair) : Onward p p where
  forwards f hf := ⟨f, hf, rfl, id⟩
  requests _ r hr := ⟨r, hr, rfl, rfl⟩
  hasty := id

theorem Backed.onward {S : Setup} {p p' : Pair} {body : SettlementBody} {peer : String}
    (h : Onward p p') (hb : Backed S p.origin body peer) : Backed S p'.origin body peer := by
  obtain ⟨f, hf, hdown, htask, hid, horigin, hgross⟩ := hb
  obtain ⟨f', hf', heq, -⟩ := h.forwards f hf
  refine ⟨f', hf', ?_, ?_, ?_, horigin, ?_⟩
  · rw [← hdown, ← heq]
  · rw [htask, ← heq]
  · rw [hid, ← heq]
  · rw [hgross, ← heq]

theorem RetryBacked.onward {S : Setup} {p p' : Pair} {r : Retry} (h : Onward p p')
    (hb : RetryBacked S p.origin r) : RetryBacked S p'.origin r :=
  ⟨Backed.onward h hb.1, hb.2⟩

variable {f : FederationSettlement} {o : Origin} {n : Nat} {q : FederationSettlement → Bool}
  {x : ForwardStatus}

theorem restatus_row
    {fs : List FederationSettlement} (hf : f ∈ fs) :
    ∃ f' ∈ updateWhere q (fun f => { f with status := x }) fs,
      ({ f' with status := f.status } : FederationSettlement) = f ∧
        f'.status = if q f then x else f.status := by
  refine ⟨if q f then { f with status := x } else f, mem_updateWhere.mpr ⟨f, hf, rfl⟩, ?_⟩
  cases q f <;> exact ⟨rfl, rfl⟩

/-- **Status changes of the origin's forwards**: pending ones selected by `q` become `x`, and the
    retries stay backed.  A forward becomes failed only with its requests cleared, or the history
    says so. -/
theorem Inv.restatus {S : Setup} {p : Pair} (h : Inv S p) {b : Bool}
    (hforwards : forwards o = updateWhere q (fun f => { f with status := x }) (forwards p.origin))
    (hq : ∀ f, q f = true → f.status = .pending)
    (hretries : ∀ r ∈ o.retries, RetryBacked S p.origin r) (hhasty : b = false → p.hasty = false)
    (hfail : b = false → x = .failed → ∀ f ∈ forwards p.origin, q f = true →
      S.cleared f.settlementId p = true) : Inv S { p with origin := o, hasty := b } ∧
      Onward p { p with origin := o, hasty := b } := by
  have honward : Onward p { p with origin := o, hasty := b } := by
    refine ⟨fun f hf => ?_, fun _ r hr => ⟨r, hr, rfl, rfl⟩, hhasty⟩
    obtain ⟨f', hf', heq, hstatus⟩ := restatus_row (q := q) (x := x) hf
    refine ⟨f', hforwards ▸ hf', heq, fun hfailed => ?_⟩
    rw [hstatus]
    cases hqf : q f with
    | false => exact hfailed
    | true =>
      rw [hq f hqf] at hfailed
      cases hfailed
  refine ⟨⟨⟨?_, ?_, ?_, ?_⟩, h.executor, ?_, h.rows, ?_⟩, honward⟩
  · intro f' hf'
    rw [hforwards] at hf'
    obtain ⟨f, hf, rfl⟩ := mem_updateWhere.mp hf'
    cases q f <;> exact h.origin.upstream f hf
  · rw [hforwards, map_updateWhere]
    · exact h.origin.ids
    · exact fun _ => rfl
  · rw [hforwards, map_updateWhere]
    · exact h.origin.tasks
    · exact fun _ => rfl
  · exact fun r hr => .onward honward (hretries r hr)
  · exact fun r hr => .onward honward (h.requests r hr)
  · intro hh f' hf' hfailed
    have hf'' : f' ∈ updateWhere q (fun f => { f with status := x }) (forwards p.origin) :=
      hforwards ▸ hf'
    obtain ⟨f, hf, rfl⟩ := mem_updateWhere.mp hf''
    cases hqf : q f with rw [hqf] at hfailed
    | false => exact h.failed (hhasty hh) f hf hfailed
    | true => exact hfail hh hfailed f hf hqf

/-- **Steps of the origin that leave the forwards alone**: they touch the retries at most. -/
theorem Inv.retries {S : Setup} {p : Pair} (h : Inv S p)
    (hforwards : forwards o = forwards p.origin)
    (hretries : ∀ r ∈ o.retries, RetryBacked S p.origin r) :
    Inv S { p with origin := o } ∧ Onward p { p with origin := o } := by
  refine h.restatus (q := fun _ => false) (x := .pending) (b := p.hasty) ?_ ?_ hretries id ?_
  · rw [hforwards, updateWhere_of_none fun _ _ => rfl]
  · exact fun _ hfalse => Bool.noConfusion hfalse
  · exact fun _ hx => ForwardStatus.noConfusion hx

/-- **A new forward**, with the retry row that carries it. -/
theorem Inv.forward {S : Setup} {p : Pair} (h : Inv S p) {r : Retry}
    (hforwards : forwards o = forwards p.origin ++ [f])
    (hretries : o.retries = p.origin.retries ++ [r]) (hstatus : f.status = .pending)
    (hup : f.upstreamRelayId = S.originId) (hdown : f.downstreamRelayId = some r.peerRelayId)
    (hnew : ∀ g ∈ forwards p.origin, g.settlementId ≠ f.settlementId ∧
      ¬(g.taskId = f.taskId ∧ g.upstreamRelayId = f.upstreamRelayId))
    (hpayload : r.payload.taskId = f.taskId ∧ r.payload.settlementId = f.settlementId ∧
      r.payload.originRelay = S.originId ∧
      r.payload.grossAmount = netOf S.originRate f.grossAmount)
    (hid : r.payload.settlementId = r.settlementId) :
    Inv S { p with origin := o } ∧ Onward p { p with origin := o } := by
  have honward : Onward p { p with origin := o } := by
    refine ⟨fun g hg => ⟨g, ?_, rfl, id⟩, fun _ r hr => ⟨r, hr, rfl, rfl⟩, id⟩
    show g ∈ forwards o
    rw [hforwards]
    exact mem_append_left _ hg
  refine ⟨⟨⟨?_, ?_, ?_, ?_⟩, h.executor, ?_, h.rows, ?_⟩, honward⟩
  · intro g hg
    rw [hforwards] at hg
    rcases mem_append.mp hg with hold | hlast
    · exact h.origin.upstream g hold
    · rw [mem_singleton.mp hlast, hdown]
      exact ⟨hup, rfl⟩
  · rw [hforwards, map_append, nodup_append]
    refine ⟨h.origin.ids, nodup_singleton _, fun a ha b hb => ?_⟩
    obtain ⟨g, hg, rfl⟩ := mem_map.mp ha
    rw [map_singleton, mem_singleton] at hb
    rw [hb]
    exact (hnew g hg).1
  · rw [hforwards, map_append, nodup_append]
    refine ⟨h.origin.tasks, nodup_singleton _, fun a ha b hb => ?_⟩
    obtain ⟨g, hg, rfl⟩ := mem_map.mp ha
    rw [map_singleton, mem_singleton] at hb
    rw [hb]
    intro htask
    exact (hnew g hg).2 ⟨htask, ((h.origin.upstream g hg).1).trans hup.symm⟩
  · intro r' hr'
    rw [hretries] at hr'
    rcases mem_append.mp hr' with hold | hlast
    · exact .onward honward (h.origin.retries r' hold)
    · rw [mem_singleton.mp hlast]
      refine ⟨⟨f, ?_, hdown, hpayload⟩, hid⟩
      rw [hforwards]
      exact mem_append_right _ (mem_singleton.mpr rfl)
  · exact fun r' hr' => .onward honward (h.requests r' hr')
  · intro hh g hg hfailed
    have hg' : g ∈ forwards p.origin ++ [f] := hforwards ▸ hg
    rcases mem_append.mp hg' with hold | hlast
    · exact h.failed hh g hold hfailed
    · rw [mem_singleton.mp hlast, hstatus] at hfailed
      cases hfailed

/-- **A send**: claimed for a forward that is not failed. -/
theorem Inv.send {S : Setup} {p : Pair} (h : Inv S p) {recipient : String} {body : SettlementBody}
    (hbacked : Backed S p.origin body recipient)
    (hlive : ∀ f ∈ forwards p.origin, f.settlementId = body.settlementId → f.status ≠ .failed) :
    Inv S { p with requests := p.requests ++ [⟨recipient, body, .travelling⟩] } ∧
      Onward p { p with requests := p.requests ++ [⟨recipient, body, .travelling⟩] } := by
  refine ⟨⟨h.origin, h.executor, ?_, ?_, ?_⟩, ⟨fun f hf => ⟨f, hf, rfl, id⟩, ?_, id⟩⟩
  · exact forall_mem_append.mpr ⟨h.requests, forall_mem_singleton.mpr hbacked⟩
  · intro row hrow hup
    obtain ⟨r, hr, hrest⟩ := h.rows row hrow hup
    exact ⟨r, mem_append_left _ hr, hrest⟩
  · intro hh f hf hfailed
    have hold := h.failed hh f hf hfailed
    unfold Setup.cleared at hold ⊢
    rw [all_append, hold, Bool.true_and]
    have hne : body.settlementId ≠ f.settlementId := fun heq => hlive f hf heq.symm hfailed
    simp [Setup.carries, hne]
  · intro n r hr
    refine ⟨r, ?_, rfl, rfl⟩
    have hlt := (List.getElem?_eq_some_iff.mp hr).1
    show (p.requests ++ [_])[n]? = some r
    rw [getElem?_append_left hlt]
    exact hr

/-- A request's fate may move on, but not from recorded, refused or gone. -/
def MovesOn (r r' : Request) : Prop :=
  r'.recipient = r.recipient ∧ r'.body = r.body ∧
    (r.fate ≠ .travelling → r.fate ≠ .taken → r'.fate = r.fate)

/-- **Fates move on.** -/
theorem Inv.fates {S : Setup} {p : Pair} (h : Inv S p) {rs : List Request}
    (g : Nat → Request → Request) (hrs : ∀ n, rs[n]? = p.requests[n]?.map (g n))
    (hg : ∀ (n : Nat) (r : Request), p.requests[n]? = some r → MovesOn r (g n r)) :
    Inv S { p with requests := rs } ∧ Onward p { p with requests := rs } := by
  have hback : ∀ r' ∈ rs, ∃ r ∈ p.requests, MovesOn r r' := by
    intro r' hr'
    obtain ⟨n, hn⟩ := mem_iff_getElem?.mp hr'
    rw [hrs, Option.map_eq_some_iff] at hn
    obtain ⟨r, hr, rfl⟩ := hn
    exact ⟨r, mem_of_getElem? hr, hg n r hr⟩
  have hforth : ∀ (n : Nat) (r : Request), p.requests[n]? = some r →
      ∃ r', rs[n]? = some r' ∧ MovesOn r r' := by
    intro n r hr
    refine ⟨g n r, ?_, hg n r hr⟩
    rw [hrs, hr]
    rfl
  refine ⟨⟨h.origin, h.executor, ?_, ?_, ?_⟩, ⟨fun f hf => ⟨f, hf, rfl, id⟩, ?_, id⟩⟩
  · intro r' hr'
    obtain ⟨r, hr, hrecipient, hbody, -⟩ := hback r' hr'
    rw [hrecipient, hbody]
    exact h.requests r hr
  · intro row hrow hup
    obtain ⟨r, hr, hto, hfate, hrec⟩ := h.rows row hrow hup
    obtain ⟨n, hn⟩ := mem_iff_getElem?.mp hr
    obtain ⟨r', hr', hrecipient, hbody, hkeep⟩ := hforth n r hn
    refine ⟨r', mem_of_getElem? hr', hrecipient.trans hto, ?_, hbody ▸ hrec⟩
    rw [hkeep (by rw [hfate]; decide) (by rw [hfate]; decide), hfate]
  · intro hh f hf hfailed
    have hold := h.failed hh f hf hfailed
    unfold Setup.cleared at hold ⊢
    rw [all_eq_true] at hold ⊢
    intro r' hr'
    obtain ⟨r, hr, hrecipient, hbody, hkeep⟩ := hback r' hr'
    have hr₀ := hold r hr
    unfold Setup.carries at hr₀ ⊢
    rw [hrecipient, hbody]
    simp only [Bool.or_eq_true, decide_eq_true_eq] at hr₀ ⊢
    rcases hr₀ with (hother | hrefused) | hgone
    · exact .inl (.inl hother)
    · exact .inl (.inr (by rw [hkeep (by rw [hrefused]; decide) (by rw [hrefused]; decide), hrefused]))
    · exact .inr (by rw [hkeep (by rw [hgone]; decide) (by rw [hgone]; decide), hgone])
  · intro n r hr
    obtain ⟨r', hr', hrecipient, hbody, -⟩ := hforth n r hr
    exact ⟨r', hr', hrecipient, hbody⟩

theorem Inv.setFate {S : Setup} {p : Pair} (h : Inv S p) {fate : Fate}
    (hopen : ∀ r, p.requests[n]? = some r → r.fate = .travelling ∨ r.fate = .taken) :
    Inv S (setFate n fate p) ∧ Onward p (setFate n fate p) := by
  refine h.fates (fun m r => if n = m then { r with fate := fate } else r) (fun m => ?_) ?_
  · exact getElem?_modify _ _ _ _
  · intro m r hr
    split
    · next heq =>
      subst heq
      refine ⟨rfl, rfl, fun htravelling htaken => ?_⟩
      rcases hopen r hr with hf | hf
      · exact absurd hf htravelling
      · exact absurd hf htaken
    · exact ⟨rfl, rfl, fun _ _ => rfl⟩

/-- **Steps of the executor that add no settlement of the origin's.** -/
theorem Inv.executors {S : Setup} {p : Pair} (h : Inv S p) {e : Executor} (hbooked : Booked e)
    (hrows : ∀ row ∈ e.federation, row.upstreamRelayId = S.originId → row ∈ p.executor.federation ∨
      ∃ r ∈ p.requests, r.recipient = S.executorId ∧ r.fate = .recorded ∧ Records S row r.body) :
    Inv S { p with executor := e } ∧ Onward p { p with executor := e } := by
  refine ⟨⟨h.origin, hbooked, h.requests, fun row hrow hup => ?_, h.failed⟩,
    ⟨fun f hf => ⟨f, hf, rfl, id⟩, fun _ r hr => ⟨r, hr, rfl, rfl⟩, id⟩⟩
  rcases hrows row hrow hup with hold | hnew
  · exact h.rows row hold hup
  · exact hnew

/-! ## §3. The origin's turns -/

variable {S : Setup} {p p' : Pair} {settlementId : String}

theorem beginForwardSend_live (hfwd : Forwarding S o)
    (h : beginForwardSend settlementId o = .ok true) :
    ∀ f ∈ forwards o, f.settlementId = settlementId → f.status ≠ .failed := by
  intro f hf hid
  unfold beginForwardSend at h
  split at h
  · cases h
  split at h
  · next g hg =>
    have hgmem := mem_of_find?_eq_some hg
    have hgid := find?_some hg
    simp only [Bool.decide_and, Bool.and_eq_true, decide_eq_true_eq] at hgid
    -- the row found is the row of that id
    have heq : g = f := inj_on_of_nodup_map hfwd.ids hgmem hf (hgid.1.trans hid.symm)
    subst heq
    simp only [Except.ok.injEq, Bool.and_eq_true, decide_eq_true_eq] at h
    exact h.2
  · next hnone =>
    have habsent := find?_eq_none.mp hnone f hf
    simp only [Bool.decide_and, Bool.and_eq_true, decide_eq_true_eq, not_and] at habsent
    exact absurd (hfwd.upstream f hf).2 (habsent hid)

theorem claimAndSend_onward {recipient : String} {body : SettlementBody} {n : Option Nat}
    (h : Inv S p) (hbacked : Backed S p.origin body recipient)
    (hsend : claimAndSend recipient body p = .ok (n, p')) : Inv S p' ∧ Onward p p' := by
  unfold claimAndSend at hsend
  split at hsend
  · cases hsend
  · cases hsend
    exact ⟨h, Onward.refl p⟩
  · next hlive =>
    cases hsend
    exact h.send hbacked (beginForwardSend_live h.origin hlive)

theorem updateRetries_backed {q : Retry → Bool} {f : Retry → Retry} (h : Inv S p)
    (hf : ∀ r, (f r).payload = r.payload ∧ (f r).peerRelayId = r.peerRelayId ∧
      (f r).settlementId = r.settlementId) :
    ∀ r ∈ updateWhere q f p.origin.retries, RetryBacked S p.origin r := by
  intro r hr
  obtain ⟨r₀, hr₀, rfl⟩ := mem_updateWhere.mp hr
  have hold := h.origin.retries r₀ hr₀
  cases q r₀ with
  | false => exact hold
  | true =>
    obtain ⟨hpayload, hpeer, hid⟩ := hf r₀
    unfold RetryBacked
    simp only [if_true]
    rw [hpayload, hpeer, hid]
    exact hold

theorem acknowledge_onward {endRetry : List Retry → List Retry}
    (h : Inv S p) (hend : ∀ r ∈ endRetry p.origin.retries, RetryBacked S p.origin r) :
    Inv S { p with origin := acknowledge settlementId endRetry p.origin } ∧
      Onward p { p with origin := acknowledge settlementId endRetry p.origin } := by
  refine h.restatus (q := fun f => f.settlementId == settlementId && f.status == .pending)
    (x := .delivered) (b := p.hasty) rfl ?_ hend id ?_
  · intro f hf
    simp only [Bool.and_eq_true, beq_iff_eq] at hf
    exact hf.2
  · exact fun _ hx => ForwardStatus.noConfusion hx

theorem refundHeld_rows {taskId allocationId : String} {returned : Bool} {o' : Origin}
    {outcome : RefundOutcome} (h : refundHeld S taskId allocationId returned o = .ok (outcome, o')) :
    forwards o' = forwards o ∧ o'.retries = o.retries := by
  unfold refundHeld at h
  dsimp only at h
  split at h
  · cases h
    exact ⟨rfl, rfl⟩
  split at h
  · cases h
    exact ⟨rfl, rfl⟩
  split at h
  · cases h
  · next hmove =>
    cases h
    exact ⟨release_rows hmove, rfl⟩

theorem refundExhaustedForward_rows {settlementId taskId : String} {o' : Origin}
    {outcome : RefundOutcome}
    (h : refundExhaustedForward S settlementId taskId o = .ok (outcome, o')) :
    (forwards o' = forwards o ∨ forwards o' = updateWhere
      (fun f => f.settlementId == settlementId && f.status == .pending)
      (fun f => { f with status := .failed }) (forwards o)) ∧ o'.retries = o.retries := by
  unfold refundExhaustedForward at h
  split at h
  · cases h
    exact ⟨.inl rfl, rfl⟩
  split at h
  · split at h
    · split at h
      · cases h
      · next hmove =>
        obtain ⟨hforwards, hretries⟩ := refundHeld_rows h
        exact ⟨.inr (hforwards.trans (forwardReturn_rows hmove)), hretries⟩
    · obtain ⟨hforwards, hretries⟩ := refundHeld_rows h
      exact ⟨.inl hforwards, hretries⟩
  · obtain ⟨hforwards, hretries⟩ := refundHeld_rows h
    exact ⟨.inl hforwards, hretries⟩

theorem onRetryExhausted_rows (retry : Retry) (o : Origin) :
    (forwards (onRetryExhausted S retry o) = forwards o ∨
      forwards (onRetryExhausted S retry o) = updateWhere
        (fun f => f.settlementId == retry.settlementId && f.status == .pending)
        (fun f => { f with status := .failed }) (forwards o)) ∧
    (onRetryExhausted S retry o).retries = o.retries := by
  unfold onRetryExhausted
  split
  · next hrefund => exact refundExhaustedForward_rows hrefund
  · exact ⟨.inl rfl, rfl⟩

theorem forwardOf_eq (hfwd : Forwarding S o) (hf : f ∈ forwards o) :
    forwardOf o f.settlementId = some f := by
  obtain ⟨g, hg⟩ : ∃ g, forwardOf o f.settlementId = some g := by
    rw [← Option.isSome_iff_exists]
    unfold forwardOf
    rw [find?_isSome]
    refine ⟨f, hf, ?_⟩
    simpa using (hfwd.upstream f hf).2
  have hgid := find?_some hg
  simp only [Bool.decide_and, Bool.and_eq_true, decide_eq_true_eq] at hgid
  rw [hg, inj_on_of_nodup_map hfwd.ids (mem_of_find?_eq_some hg) hf hgid.1]

/-- **Exhaustion.**  A forward that fails with an open request is noted in the history. -/
theorem exhaust_onward {retry : Retry} {mark : Retry → Retry} (h : Inv S p)
    (hmark : ∀ r, (mark r).payload = r.payload ∧ (mark r).peerRelayId = r.peerRelayId ∧
      (mark r).settlementId = r.settlementId) :
    Inv S (exhaust S retry mark p) ∧ Onward p (exhaust S retry mark p) := by
  obtain ⟨hforwards, hretries⟩ := onRetryExhausted_rows (S := S) retry
    (updateRetry retry.retryId mark p.origin)
  have hbacked : ∀ r ∈ (onRetryExhausted S retry
      (updateRetry retry.retryId mark p.origin)).retries, RetryBacked S p.origin r := by
    rw [hretries]
    exact updateRetries_backed h hmark
  have hhasty : ∀ x, (p.hasty || x) = false → p.hasty = false := by
    intro x hx
    exact (Bool.or_eq_false_iff.mp hx).1
  rcases hforwards with hsame | hfail
  · refine h.restatus (q := fun _ => false) (x := .pending) ?_ ?_ hbacked (hhasty _) ?_
    · rw [updateWhere_of_none fun _ _ => rfl]
      exact hsame
    · exact fun _ hfalse => Bool.noConfusion hfalse
    · exact fun _ hx => ForwardStatus.noConfusion hx
  · refine h.restatus (q := fun f => f.settlementId == retry.settlementId && f.status == .pending)
      (x := .failed) hfail ?_ hbacked (hhasty _) ?_
    · intro f hf
      simp only [Bool.and_eq_true, beq_iff_eq] at hf
      exact hf.2
    · intro hb _ f hf hq
      simp only [Bool.and_eq_true, beq_iff_eq] at hq
      obtain ⟨hid, hpending⟩ := hq
      -- the forward was pending and is failed now, so the history looked at its requests
      have hbefore : forwardOf p.origin retry.settlementId = some f := by
        rw [← hid]
        exact forwardOf_eq h.origin hf
      have hafter : forwardOf (onRetryExhausted S retry
          (updateRetry retry.retryId mark p.origin)) retry.settlementId =
            some { f with status := .failed } := by
        unfold forwardOf at hbefore ⊢
        change (forwards _).find? _ = _
        rw [hfail, find?_updateWhere]
        · show ((forwards p.origin).find? _).map _ = _
          rw [hbefore]
          simp [hid, hpending]
        · exact fun _ => rfl
      have hfails : failsForward retry.settlementId p.origin (onRetryExhausted S retry
          (updateRetry retry.retryId mark p.origin)) = true := by
        unfold failsForward
        rw [hbefore, hafter]
        simp [hpending]
      rw [hfails, Bool.true_and, Bool.or_eq_false_iff, Bool.not_eq_false'] at hb
      rw [hid]
      exact hb.2

theorem attemptFailed_onward {delay : Nat → Nat} {retry : Retry} {e : OriginFault} (h : Inv S p) :
    Inv S (attemptFailed S delay retry e p).2 ∧ Onward p (attemptFailed S delay retry e p).2 := by
  unfold attemptFailed
  dsimp only
  split
  · exact ⟨h, Onward.refl p⟩
  split
  · split
    · exact ⟨h, Onward.refl p⟩
    · exact exhaust_onward h fun _ => ⟨rfl, rfl, rfl⟩
  · exact h.retries rfl (updateRetries_backed h fun _ => ⟨rfl, rfl, rfl⟩)

theorem claimRetry_onward {retry : Retry} {claimed : Claimed} (h : Inv S p)
    (hclaim : claimRetry S retry p = .ok (claimed, p')) : Inv S p' ∧ Onward p p' := by
  unfold claimRetry at hclaim
  split at hclaim
  · cases hclaim
  · cases hclaim
    exact h.retries rfl (updateRetries_backed h fun _ => ⟨rfl, rfl, rfl⟩)
  · split at hclaim
    · cases hclaim
      exact ⟨h, Onward.refl p⟩
    · cases hclaim
      exact exhaust_onward h fun _ => ⟨rfl, rfl, rfl⟩

theorem recordForward_onward {args : ForwardArgs} {allocationId settlementId retryId : String}
    (h : Inv S p) (hrec : recordForward S args allocationId settlementId retryId p.origin = .ok o) :
    Inv S { p with origin := o } ∧ Onward p { p with origin := o } ∧
      Backed S o (settlementBody S args settlementId) args.peerRelayId := by
  unfold recordForward at hrec
  split at hrec
  · cases hrec
  next escrow hmove =>
  cases hrec
  obtain ⟨hnew, hrows⟩ := federatedForward_rows hmove
  obtain ⟨hinv, honward⟩ := h.forward (o := { p.origin with
      escrow := escrow
      retries := p.origin.retries ++
        [firstRetry S args settlementId retryId p.origin.ambient.now] })
    hrows rfl rfl rfl rfl hnew ⟨rfl, rfl, rfl, rfl⟩ rfl
  refine ⟨hinv, honward, ?_⟩
  have hlast : firstRetry S args settlementId retryId p.origin.ambient.now ∈ p.origin.retries ++
      [firstRetry S args settlementId retryId p.origin.ambient.now] :=
    mem_append_right _ (mem_singleton.mpr rfl)
  exact (hinv.origin.retries _ hlast).1

/-! ## §4. The executor's turns -/

theorem takeRequest_onward (h : Inv S p) :
    Inv S (takeRequest S n p).2 ∧ Onward p (takeRequest S n p).2 := by
  unfold takeRequest
  split
  · next r hr =>
    split
    · next hfate =>
      refine h.setFate fun r' hr' => ?_
      rw [hr] at hr'
      cases hr'
      exact .inl hfate.1
    · exact ⟨h, Onward.refl p⟩
  · exact ⟨h, Onward.refl p⟩

theorem handling_taken (h : handling n p = true) {r : Request} (hr : p.requests[n]? = some r) :
    r.fate = .taken := by
  unfold handling at h
  rw [hr] at h
  simpa using h

/-- Request `n` is `r`, but for its fate, and is for the executor. -/
def IsRequest (S : Setup) (n : Nat) (body : SettlementBody) (p : Pair) : Prop :=
  ∃ r, p.requests[n]? = some r ∧ r.recipient = S.executorId ∧ r.body = body

theorem IsRequest.onward {body : SettlementBody} (h : Onward p p') (hr : IsRequest S n body p) :
    IsRequest S n body p' := by
  obtain ⟨r, hn, hto, hbody⟩ := hr
  obtain ⟨r', hn', hto', hbody'⟩ := h.requests n r hn
  exact ⟨r', hn', hto'.trans hto, hbody'.trans hbody⟩

/-- **Recording a request**: the row it may write is the forward's, and the request is recorded. -/
theorem record_onward {body : SettlementBody} {payee : Payee} {e : Executor} {amounts : Int × Int}
    (h : Inv S p) (hreq : IsRequest S n body p) (hhand : handling n p = true)
    (hrec : recordSettlement S.executorRate body.verified payee p.executor = .ok (amounts, e)) :
    Inv S (setFate n .recorded { p with executor := e }) ∧
      Onward p (setFate n .recorded { p with executor := e }) := by
  obtain ⟨hfate, honward⟩ := h.setFate (n := n) fun r hr => .inr (handling_taken hhand hr)
  have hrecorded : ∃ r ∈ (setFate n .recorded p).requests, r.recipient = S.executorId ∧
      r.fate = .recorded ∧ r.body = body := by
    obtain ⟨r, hn, hto, hbody⟩ := hreq
    refine ⟨{ r with fate := .recorded }, mem_of_getElem? (i := n) ?_, hto, rfl, hbody⟩
    show (p.requests.modify n _)[n]? = _
    rw [getElem?_modify, hn]
    simp
  have hboth : Inv S { setFate n .recorded p with executor := e } ∧
      Onward (setFate n .recorded p) { setFate n .recorded p with executor := e } := by
    rcases recordSettlement_ok hrec with rfl | ⟨new, hinbound⟩
    · exact hfate.executors h.executor fun row hrow _ => .inl hrow
    rcases recordInbound_ok hinbound with ⟨-, rfl⟩ | ⟨-, hid, hkey, -, rfl⟩
    · exact hfate.executors h.executor fun row hrow _ => .inl hrow
    · refine hfate.executors (h.executor.record hid hkey) fun row hrow hup => ?_
      rcases mem_append.mp hrow with hold | hnew
      · exact .inl hold
      · obtain ⟨r, hr, hto, hrf, hbody⟩ := hrecorded
        refine .inr ⟨r, hr, hto, hrf, ?_⟩
        rw [mem_singleton.mp hnew, hbody]
        exact ⟨rfl, rfl, rfl⟩
  refine ⟨hboth.1, ⟨fun f hf => ⟨f, hf, rfl, id⟩, honward.requests, id⟩⟩

/-! ## §5. Safety -/

theorem beside_onward (h : Inv S p) (hb : Beside S p p') : Inv S p' ∧ Onward p p' := by
  cases hb with
  | origin o hforwards hretries =>
    refine h.retries hforwards ?_
    rw [hretries]
    exact h.origin.retries
  | executor e hsame =>
    refine h.executors (h.executor.same hsame) fun row hrow _ => .inl ?_
    rwa [hsame.federation] at hrow
  | peer row new e hpeer hrow =>
    rcases recordInbound_ok hrow with ⟨-, rfl⟩ | ⟨-, hid, hkey, -, rfl⟩
    · exact ⟨h, Onward.refl p⟩
    · refine h.executors (h.executor.record hid hkey) fun row' hrow' hup => .inl ?_
      rcases mem_append.mp hrow' with hold | hnew
      · exact hold
      · rw [mem_singleton.mp hnew] at hup
        exact absurd hup hpeer
  | lose n htravelling =>
    refine h.setFate fun r hr => .inl ?_
    rw [hr] at htravelling
    simpa using htravelling
  | die =>
    refine h.fates (fun _ r => if r.fate = .taken then { r with fate := .gone } else r)
      (fun _ => getElem?_map) ?_
    intro _ r _
    split
    · next htaken => exact ⟨rfl, rfl, fun _ hne => absurd htaken hne⟩
    · exact ⟨rfl, rfl, fun _ _ => rfl⟩

/-- The protocol: every thread moves the pair onward. -/
def delivery (S : Setup) : Protocol (pair S) where
  Inv := Inv S
  Guar _ := Onward
  Fresh _ _ := True
  refl _ := .refl

/-- An assertion no step breaks. -/
def Lasting (L : Pair → Prop) : Prop := ∀ p p', Onward p p' → L p → L p'

theorem Lasting.stable {L : Pair → Prop} (hL : Lasting L) (t : Nat) : (delivery S).Stable t L := by
  intro p p' hi _ hr hl
  rcases hr with ⟨u, -, hg⟩ | he
  · exact hL p p' hg hl
  · exact hL p p' (beside_onward hi he).2 hl

theorem Lasting.true : Lasting fun _ => True := fun _ _ _ _ => trivial

theorem Lasting.backed (S : Setup) (body : SettlementBody) (peer : String) :
    Lasting fun p => Backed S p.origin body peer := fun _ _ h hb => .onward h hb

theorem Lasting.retry (S : Setup) (r : Retry) : Lasting fun p => RetryBacked S p.origin r :=
  fun _ _ h hb => .onward h hb

theorem Lasting.imp {L : Pair → Prop} (c : Prop) (h : Lasting L) : Lasting fun p => c → L p :=
  fun p p' honward hl hc => h p p' honward (hl hc)

theorem Lasting.all {γ : Type} {L : γ → Pair → Prop} (h : ∀ x, Lasting (L x)) :
    Lasting fun p => ∀ x, L x p := fun p p' honward hl x => h x p p' honward (hl x)

theorem Lasting.request (S : Setup) (n : Nat) (body : SettlementBody) :
    Lasting (IsRequest S n body) := fun _ _ h hr => IsRequest.onward h hr

section

variable {ε α : Type} {t : Nat} {L : Pair → Prop}

theorem keeps_txn (hL : Lasting L) {f : Pair → Except ε (α × Pair)}
    (h : ∀ p a p', Inv S p → L p → f p = .ok (a, p') → Inv S p' ∧ Onward p p') :
    (delivery S).Ensures t (Task.txn f) L (fun _ => L) fun _ => L := by
  refine .txn (fun _ => hL.stable t) (fun _ => hL.stable t) ?_ ?_
  · intro p a p' hi hl hf
    obtain ⟨hinv, honward⟩ := h p a p' hi hl hf
    exact ⟨hinv, honward, hL p p' honward hl⟩
  · exact fun _ _ _ hl _ => hl

theorem keeps_act (hL : Lasting L) {f : Pair → α × Pair}
    (h : ∀ p, Inv S p → L p → Inv S (f p).2 ∧ Onward p (f p).2) :
    (delivery S).Ensures t (Task.act f) L (fun _ => L) fun _ : ε => L := by
  refine .act (fun _ => hL.stable t) fun p hi hl => ?_
  obtain ⟨hinv, honward⟩ := h p hi hl
  exact ⟨hinv, honward, hL p _ honward hl⟩

theorem keeps_ask (hL : Lasting L) (w : PairWait) :
    (delivery S).Ensures t (Task.ask w) L (fun _ => L) fun _ : ε => L := by
  refine .ask (fun _ => hL.stable t) fun p a p' hi hl ha => ?_
  have heq : p' = p := by
    cases w with
    | sign => exact ha
    | post => exact ha.1
    | verify => exact ha
  subst heq
  exact ⟨hi, Onward.refl p', hl⟩

theorem keeps_read (hL : Lasting L) {β : Type} (f : Origin → β × Origin)
    (h : ∀ o, forwards (f o).2 = forwards o ∧ (f o).2.retries = o.retries) :
    (delivery S).Ensures t (onOrigin f) L (fun _ => L) fun _ => L := by
  refine keeps_act hL fun p hi _ => ?_
  obtain ⟨hforwards, hretries⟩ := h p.origin
  refine hi.retries hforwards ?_
  rw [hretries]
  exact hi.origin.retries

end

variable {t : Nat} {L : Pair → Prop}

theorem signFederationRequest_keeps (hL : Lasting L) (recipient : String) :
    (delivery S).Ensures t (signFederationRequest recipient) L (fun _ => L) fun _ => L := by
  refine (keeps_read hL _ fun _ => ⟨rfl, rfl⟩).bind fun peer => ?_
  cases peer with
  | none => exact .throw fun _ _ hl => hl
  | some _ =>
    refine (keeps_ask hL .sign).bind fun answer => ?_
    cases answer with
    | some _ => exact .throw fun _ _ hl => hl
    | none => exact Ensures.pure fun _ _ hl => hl

theorem sendForward_keeps (args : ForwardArgs) (settlementId retryId : String) :
    (delivery S).Ensures t (sendForward S args settlementId retryId)
      (fun p => Backed S p.origin (settlementBody S args settlementId) args.peerRelayId)
      (fun _ p => Backed S p.origin (settlementBody S args settlementId) args.peerRelayId)
      fun _ p => Backed S p.origin (settlementBody S args settlementId) args.peerRelayId := by
  have hL := Lasting.backed S (settlementBody S args settlementId) args.peerRelayId
  refine (signFederationRequest_keeps hL args.peerRelayId).bind fun _ => ?_
  refine (keeps_txn hL fun p n p' hi hl hf => claimAndSend_onward hi hl hf).bind fun n => ?_
  cases n with
  | none => exact .pure fun _ _ hl => hl
  | some n =>
    refine (keeps_ask hL (.post n)).bind fun answer => ?_
    split
    · exact .throw fun _ _ hl => hl
    · refine .bind (keeps_act hL fun p hi _ => ?_) fun _ =>
        Ensures.pure fun _ _ hl => hl
      refine acknowledge_onward hi fun r hr => ?_
      exact hi.origin.retries r (mem_of_mem_filter hr)

theorem forwardOriginSettlement_keeps (args : ForwardArgs) :
    (delivery S).Ensures t (forwardOriginSettlement S args) (fun _ => True) (fun _ _ => True)
      fun _ _ => True := by
  refine (keeps_read Lasting.true _ fun _ => ⟨rfl, rfl⟩).bind fun ids => ?_
  obtain ⟨settlementId, retryId⟩ := ids
  refine (keeps_read Lasting.true _ fun _ => ⟨rfl, rfl⟩).bind fun found => ?_
  cases found with
  | none => exact .pure fun _ _ _ => trivial
  | some =>
    refine (keeps_ask Lasting.true .sign).bind fun answer => ?_
    cases answer with
    | some _ => exact .throw fun _ _ _ => trivial
    | none =>
      refine (keeps_read Lasting.true _ fun _ => ⟨rfl, rfl⟩).bind fun peerInfo => ?_
      -- the transaction leaves the forward on record, which is what a later send names
      have hL := Lasting.backed S (settlementBody S args settlementId) args.peerRelayId
      refine .bind (Q := fun recorded p => recorded = true →
        Backed S p.origin (settlementBody S args settlementId) args.peerRelayId) ?_ fun recorded => ?_
      · refine Ensures.txn (fun recorded => ?_) (fun _ => Lasting.true.stable t) ?_
          fun _ _ _ _ _ => trivial
        · exact (hL.imp (recorded = true)).stable t
        · intro p recorded p' hi _ hf
          split at hf
          · next o hrec =>
            cases hf
            obtain ⟨hinv, honward, hbacked⟩ := recordForward_onward hi hrec
            exact ⟨hinv, honward, fun _ => hbacked⟩
          · cases hf
            exact ⟨hi, Onward.refl p, fun hfalse => Bool.noConfusion hfalse⟩
          · cases hf
      · cases recorded with
        | false => exact .pure fun _ _ _ => trivial
        | true =>
          cases peerInfo with
          | none => exact .pure fun _ _ _ => trivial
          | some _ =>
            refine .mono ?_ fun p _ hb => hb rfl
            have hsend : (delivery S).Ensures t (sendForward S args settlementId retryId)
                (fun p => Backed S p.origin (settlementBody S args settlementId) args.peerRelayId)
                (fun _ _ => True) fun _ _ => True :=
              (sendForward_keeps args settlementId retryId).weaken (fun _ _ _ _ => trivial)
                fun _ _ _ _ => trivial
            exact hsend.catching fun _ => Ensures.pure fun _ _ _ => trivial

theorem resend_keeps (retry : Retry) :
    (delivery S).Ensures t (resend retry) (fun p => RetryBacked S p.origin retry)
      (fun _ p => RetryBacked S p.origin retry) fun _ p => RetryBacked S p.origin retry := by
  have hL := Lasting.retry S retry
  refine (signFederationRequest_keeps hL retry.peerRelayId).bind fun _ => ?_
  refine (keeps_txn hL fun p n p' hi hl hf => claimAndSend_onward hi hl.1 hf).bind fun n => ?_
  cases n with
  | none => exact .pure fun _ _ hl => hl
  | some n =>
    refine (keeps_ask hL (.post n)).bind fun answer => ?_
    split
    · exact Ensures.throw fun _ _ hl => hl
    · refine keeps_act hL fun p hi _ => ?_
      exact acknowledge_onward hi (updateRetries_backed hi fun _ => ⟨rfl, rfl, rfl⟩)

theorem processRetry_keeps (delay : Nat → Nat) (retry : Retry) :
    (delivery S).Ensures t (processRetry S delay retry) (fun p => RetryBacked S p.origin retry)
      (fun _ _ => True) fun _ _ => True := by
  have hL := Lasting.retry S retry
  refine .catching (E := fun _ (p : Pair) => RetryBacked S p.origin retry) ?_ fun e => ?_
  · refine (keeps_txn hL fun p c p' hi _ hf => claimRetry_onward hi hf).bind fun claimed => ?_
    cases claimed with
    | notSent | peerGone => exact .pure fun _ _ _ => trivial
    | sending =>
      refine (resend_keeps retry).bind fun _ => ?_
      exact .pure fun _ _ _ => trivial
  · refine .mono ?_ fun _ _ _ => trivial
    exact keeps_act Lasting.true fun p hi _ => attemptFailed_onward hi

theorem processAll_keeps (delay : Nat → Nat) (retries : List Retry) :
    (delivery S).Ensures t (processAll S delay retries)
      (fun p => ∀ r ∈ retries, RetryBacked S p.origin r) (fun _ _ => True) fun _ _ => True := by
  induction retries with
  | nil => exact .pure fun _ _ _ => trivial
  | cons retry rest ih =>
    have hrest : Lasting fun p => ∀ r ∈ rest, RetryBacked S p.origin r :=
      fun _ _ h hb r hr => .onward h (hb r hr)
    refine .bind
      (Q := fun _ (p : Pair) => True ∧ ∀ r ∈ rest, RetryBacked S p.origin r) ?_ fun stop => ?_
    · refine .mono (L := fun p => RetryBacked S p.origin retry ∧
        ∀ r ∈ rest, RetryBacked S p.origin r) ?_ fun p _ hb =>
        ⟨hb retry mem_cons_self, fun r hr => hb r (mem_cons_of_mem _ hr)⟩
      exact .weaken (Ensures.frame (fun p p' _ _ h hb => hrest p p' h hb)
        (hrest.stable t) (processRetry_keeps delay retry)) (fun _ _ _ h => h)
        fun _ _ _ _ => trivial
    · cases stop with
      | true => exact .pure fun _ _ _ => trivial
      | false => exact ih.mono fun _ _ hb => hb.2

theorem processSettlementRetries_keeps (delay : Nat → Nat) :
    (delivery S).Ensures t (processSettlementRetries S delay) (fun _ => True) (fun _ _ => True)
      fun _ _ => True := by
  refine .bind (Q := fun retries p => ∀ r ∈ retries, RetryBacked S p.origin r) ?_
    fun retries => processAll_keeps delay retries
  refine Ensures.act (fun retries => ?_) fun p hi _ => ?_
  · exact (Lasting.all fun r => (Lasting.retry S r).imp (r ∈ retries)).stable t
  · exact ⟨hi, Onward.refl p, fun r hr => hi.origin.retries r (mem_of_mem_filter hr)⟩

theorem settlementForward_keeps (n : Nat) (r : Request) :
    (delivery S).Ensures t (settlementForward S n r) (IsRequest S n r.body)
      (fun _ => IsRequest S n r.body) fun _ => IsRequest S n r.body := by
  have hL := Lasting.request S n r.body
  refine (keeps_ask hL (.verify n)).bind fun answer => ?_
  cases answer with
  | refused | limited => exact .throw fun _ _ hl => hl
  | verified =>
    refine .bind (Q := fun _ => IsRequest S n r.body) ?_ fun _ =>
      keeps_act hL fun p hi _ => ⟨{ hi with },
        ⟨fun f hf => ⟨f, hf, rfl, id⟩, fun _ r hr => ⟨r, hr, rfl, rfl⟩, id⟩⟩
    refine .bind (Q := fun _ => IsRequest S n r.body)
      (keeps_txn hL fun p payee p' hi _ hf => ?_) fun payee => ?_
    · split at hf
      · split at hf
        · next b e hres =>
          cases hf
          have hsame := resolvePayee_same hres
          refine hi.executors (hi.executor.same hsame) fun row hrow _ => .inl ?_
          rwa [hsame.federation] at hrow
        · cases hf
      · cases hf
    refine .bind (Q := fun _ => IsRequest S n r.body) ?_ fun _ => ?_
    · unfold signRecord
      refine (keeps_ask hL .sign).bind fun answer => ?_
      cases answer with
      | some _ => exact .throw fun _ _ hl => hl
      | none => exact .pure fun _ _ hl => hl
    · refine keeps_txn hL fun p amounts p' hi hl hf => ?_
      split at hf
      · next hhand =>
        split at hf
        · next b e hrec =>
          cases hf
          exact record_onward hi hl hhand hrec
        · cases hf
      · cases hf

theorem handleRequest_keeps (n : Nat) :
    (delivery S).Ensures t (handleRequest S n) (fun _ => True) (fun _ _ => True) fun _ _ => True := by
  refine .bind (Q := fun found p => ∀ r, found = some r → IsRequest S n r.body p) ?_ fun found => ?_
  · refine .act (fun found => ?_) fun p hi _ => ?_
    · exact (Lasting.all fun r => (Lasting.request S n r.body).imp (found = some r)).stable t
    · obtain ⟨hinv, honward⟩ := takeRequest_onward (n := n) hi
      refine ⟨hinv, honward, fun r hr => ?_⟩
      unfold takeRequest at hr
      split at hr
      · next r' hr' =>
        split at hr
        · next hfate =>
          cases hr
          exact IsRequest.onward honward ⟨r, hr', hfate.2, rfl⟩
        · cases hr
      · cases hr
  · cases found with
    | none => exact .pure fun _ _ _ => trivial
    | some r =>
      refine Ensures.mono ?_ fun p _ hb => hb r rfl
      have hroute : (delivery S).Ensures t (settlementForward S n r) (IsRequest S n r.body)
          (fun _ _ => True) fun _ _ => True :=
        (settlementForward_keeps n r).weaken (fun _ _ _ _ => trivial) fun _ _ _ _ => trivial
      refine hroute.catching fun _ => ?_
      refine keeps_act Lasting.true fun p hi _ => ?_
      show Inv S (if handling n p then setFate n .refused p else p) ∧
        Onward p (if handling n p then setFate n .refused p else p)
      split
      · next hhand => exact hi.setFate fun r hr => .inr (handling_taken hhand hr)
      · exact ⟨hi, Onward.refl p⟩

theorem delivery_verified (S : Setup) : Protocol.Verified (delivery S) where
  init p hp := by
    refine ⟨⟨⟨?_, ?_, ?_, ?_⟩, ⟨?_, ?_, ?_, ?_⟩, ?_, ?_, ?_⟩, fun _ => trivial⟩
    all_goals simp [forwards, hp.forwards, hp.retries, hp.federation, hp.credits, hp.requests]
  env p p' hi he := ⟨(beside_onward hi he).1, fun _ _ => trivial⟩
  crash p p' hi hc := by
    subst hc
    exact ⟨hi, fun _ _ => trivial⟩
  fresh _ _ _ _ _ _ _ _ := trivial
  entry t q hq := by
    refine ⟨Lasting.true.stable t, ?_⟩
    cases hq with
    | forward args => exact (forwardOriginSettlement_keeps args).detach
    | retries delay => exact (processSettlementRetries_keeps delay).detach
    | request n => exact (handleRequest_keeps n).detach

/-! ## §6. Paid once -/

theorem Onward.trans {p₁ p₂ p₃ : Pair} (h : Onward p₁ p₂) (h' : Onward p₂ p₃) : Onward p₁ p₃ where
  forwards f hf := by
    obtain ⟨g, hg, hgf, hgs⟩ := h.forwards f hf
    obtain ⟨k, hk, hkg, hks⟩ := h'.forwards g hg
    refine ⟨k, hk, ?_, fun hfailed => hks (hgs hfailed)⟩
    calc ({ k with status := f.status } : FederationSettlement)
        = { ({ k with status := g.status } : FederationSettlement) with status := f.status } := rfl
      _ = f := by rw [hkg, hgf]
  requests n r hr := by
    obtain ⟨r₂, hr₂, hto₂, hbody₂⟩ := h.requests n r hr
    obtain ⟨r₃, hr₃, hto₃, hbody₃⟩ := h'.requests n r₂ hr₂
    exact ⟨r₃, hr₃, hto₃.trans hto₂, hbody₃.trans hbody₂⟩
  hasty hh := h.hasty (h'.hasty hh)

/-- The executor's settlement of the origin's forward of `taskId`. -/
def SettledFor (S : Setup) (p : Pair) (taskId : String) (row : FederationRow) : Prop :=
  row ∈ p.executor.federation ∧ row.upstreamRelayId = S.originId ∧ row.taskId = taskId

structure PaidOnce (S : Setup) (p : Pair) : Prop where
  /-- One settlement for a task. -/
  one : ∀ taskId row row', SettledFor S p taskId row → SettledFor S p taskId row' → row = row'
  /-- Its worker is credited at most once. -/
  once : ∀ taskId row, SettledFor S p taskId row →
    (p.executor.credits.map (·.referenceId)).count row.settlementId ≤ 1
  /-- The credit is the net of what the origin forwarded for the task. -/
  net : ∀ taskId row, SettledFor S p taskId row → ∀ c ∈ p.executor.credits,
    c.referenceId = row.settlementId → row.agentId = some c.motebitId ∧
      ∃ f ∈ forwards p.origin, f.settlementId = row.settlementId ∧ f.taskId = taskId ∧
        f.downstreamRelayId = some S.executorId ∧
        c.amount = netOf S.executorRate (netOf S.originRate f.grossAmount)
  /-- A failed forward was not settled. -/
  exclusive : ∀ f ∈ forwards p.origin, f.status = .failed → ∀ row, ¬SettledFor S p f.taskId row

theorem Inv.paidOnce (h : Inv S p) (hhasty : p.hasty = false) : PaidOnce S p where
  one taskId row row' hrow hrow' :=
    h.executor.keys row hrow.1 row' hrow'.1 (hrow.2.2.trans hrow'.2.2.symm)
      (hrow.2.1.trans hrow'.2.1.symm)
  once _ row _ := nodup_iff_count_le_one.mp h.executor.once row.settlementId
  net taskId row hrow c hc href := by
    obtain ⟨row', hrow', href', hagent, hamount⟩ := h.executor.credits c hc
    have heq : row' = row :=
      inj_on_of_nodup_map h.executor.ids hrow' hrow.1 (href'.symm.trans href)
    subst heq
    obtain ⟨r, hr, hto, -, hid, htask, hnet⟩ := h.rows row' hrow.1 hrow.2.1
    obtain ⟨f, hf, hdown, hbtask, hbid, -, hgross⟩ := h.requests r hr
    refine ⟨hagent, f, hf, ?_, ?_, ?_, ?_⟩
    · rw [← hbid, ← hid]
    · rw [← hbtask, ← htask, hrow.2.2]
    · rw [hdown, hto]
    · rw [hamount, hnet, hgross]
  exclusive f hf hfailed row hrow := by
    obtain ⟨r, hr, hto, hfate, -, htask, -⟩ := h.rows row hrow.1 hrow.2.1
    obtain ⟨g, hg, -, hbtask, hbid, -⟩ := h.requests r hr
    -- the request's forward is the one of that task
    have heq : g = f := by
      refine inj_on_of_nodup_map h.origin.tasks hg hf ?_
      rw [← hbtask, ← htask, hrow.2.2]
    subst heq
    have hcleared := h.failed hhasty g hf hfailed
    have hr' := all_eq_true.mp hcleared r hr
    simp [Setup.carries, hto, hbid, hfate] at hr'

/-- **A federated task's money is paid once**, in every run in which a forward is turned failed
    only when each of its requests was refused or is gone. -/
theorem forward_paid_once (S : Setup) {c c' : Config Pair PairWait PairHeard}
    (hreach : (pair S).Reachable c) (hlater : Relation.ReflTransGen (pair S).Step c c')
    (hhasty : c'.store.hasty = false) :
    PaidOnce S c'.store ∧ ∀ f ∈ forwards c.store.origin, f.status = .failed →
      ∀ row, ¬SettledFor S c'.store f.taskId row := by
  have hinv := Protocol.sound (delivery_verified S) (Protocol.reachable_later hreach hlater)
  have honward : Onward c.store c'.store :=
    Protocol.sound_later (delivery_verified S) Onward.refl (fun _ _ _ => .trans)
      (fun _ _ _ _ h => h) (fun _ _ hi he => (beside_onward hi he).2)
      (fun p p' _ hc => by subst hc; exact .refl p') hreach hlater
  have hpaid := Inv.paidOnce hinv hhasty
  refine ⟨hpaid, fun f hf hfailed row hrow => ?_⟩
  obtain ⟨f', hf', heq, hstill⟩ := honward.forwards f hf
  refine hpaid.exclusive f' hf' (hstill hfailed) row ?_
  rwa [← heq] at hrow

/-! ## §7. Eight lost answers

The forward is sent and the executor credits the worker; its answer is lost, and so is the answer
to each of the eight retries. -/

def sampleSetup : Setup :=
  ⟨"A", "B", 0, 0, fun n => if n = 0 then "settlement" else "retry", fun _ => none⟩

/-- The delegator funded the task's allocation with 10. -/
def sampleEscrow : Db :=
  { Escrow.Db.init with
    books := ⟨fun m => if m = "delegator" then some 0 else none,
      [⟨"delegator", .deposit, 10, 10, none, none, none⟩,
        ⟨"delegator", .allocationHold, -10, 0, some "alloc", none, some ⟨"alloc", .hold⟩⟩]⟩
    allocations := [⟨"alloc", "task", "worker", 10, none⟩] }

def sampleOrigin : Origin where
  escrow := sampleEscrow
  ambient := ⟨false, 0, []⟩
  allocationStates _ := ⟨.locked, false⟩
  unsettledClaims _ := false
  peers _ := some "https://b"
  retries := []
  minted := 0

def sampleReceipt : ExecutionReceipt :=
  ⟨"worker", "task", none, none, .completed, "hash", "", "signature"⟩

/-- The worker's answer, claimed for its receipt. -/
def sampleEntry : TaskQueueEntry where
  task := ⟨"worker", .completed, none, [], 0⟩
  expiresAt := 100
  originRelay := some "A"
  pinnedExecutor := some "worker"
  receipt := some sampleReceipt
  settling := some "signature"
  settled := some true

def sampleExecutor : Executor where
  now := 0
  frozen := false
  queue := (∅ : Keyed String TaskQueueEntry).insert "task" sampleEntry
  submitters _ := ""
  answers _ := none
  relaySettlements := []
  federation := []
  credits := []
  routes := []
  taskRoutesEpoch := none
  issued := ["task"]
  allocations := []
  idempotencyTasks := []
  receipts := []
  proofClaims _ := none

def sampleArgs : ForwardArgs := ⟨"task", "B", 10, "hash"⟩

def sampleBody : SettlementBody := settlementBody sampleSetup sampleArgs "settlement"

def quiet : Pair := ⟨sampleOrigin, sampleExecutor, [], [], false⟩

/-- The forward as the origin records it. -/
def sampleForward : FederationSettlement :=
  ⟨"settlement", "task", "A", some "B", 10, some "alloc", .pending⟩

def originAfter (k : Nat) : Origin :=
  { sampleOrigin with
    escrow := { sampleEscrow with federationSettlements := [sampleForward] }
    ambient := ⟨false, 5000 * (k + 1), []⟩
    retries := [{ firstRetry sampleSetup sampleArgs "settlement" "retry" 0 with
      attempts := k
      nextRetryAt := 5000 * (k + 1)
      lastError := if k = 0 then none else some "timeout" }]
    minted := 2 }

def sent : Pair :=
  ⟨{ originAfter 0 with ambient := ⟨false, 0, []⟩ }, sampleExecutor, [⟨"B", sampleBody, .travelling⟩], [], false⟩

theorem sent_walk : ∃ q, Walk (pair sampleSetup)
    (forwardOriginSettlement sampleSetup sampleArgs).detach quiet q sent :=
  ⟨_, .atomic <| .atomic <| .await (x := none) rfl <| .atomic <| .atomic <| .atomic <|
    .await (x := none) rfl <| .atomic <| .refl⟩

/-- What the executor wrote. -/
def sampleRow : FederationRow :=
  inboundRow 0 sampleBody.verified ⟨some "worker", some "signature"⟩

def credited : Pair :=
  { sent with
    executor := { sampleExecutor with
      federation := [sampleRow]
      credits := creditRows sampleRow (some "worker") }
    requests := [⟨"B", sampleBody, .recorded⟩] }

theorem credited_walk : ∃ q, Walk (pair sampleSetup) (handleRequest sampleSetup 0).detach sent q
    credited :=
  ⟨_, .atomic <| .await (x := VerifyAnswer.verified) rfl <| .atomic <| .await (x := none) rfl <|
    .atomic <| .refl⟩

/-- After `k` retries without an answer, `rs` being the requests so far. -/
def unanswered (k : Nat) (rs : List Request) : Pair :=
  { credited with origin := originAfter k, requests := rs }

theorem unanswered_walk {k : Nat} (hk : k < 7) (rs : List Request) :
    ∃ q, Walk (pair sampleSetup) (processSettlementRetries sampleSetup fun _ => 5000).detach
      (unanswered k rs) q (unanswered (k + 1) (rs ++ [⟨"B", sampleBody, .travelling⟩])) := by
  interval_cases k
  all_goals exact ⟨_, .atomic <| .atomic <| .atomic <| .await (x := none) rfl <| .atomic <|
    .await (x := PostAnswer.failed "timeout") ⟨rfl, nofun⟩ <| .atomic <|
    .env (.origin _ (originAfter _) rfl rfl rfl) .refl⟩

theorem unanswered_reachable (k : Nat) (hk : k ≤ 7) : ∃ c rs, (pair sampleSetup).Reachable c ∧
    c.store = unanswered k rs := by
  induction k with
  | zero =>
    have hinit : (pair sampleSetup).Reachable ⟨quiet, fun _ => none, 0⟩ :=
      .init _ ⟨rfl, rfl, rfl, rfl, rfl, rfl, rfl⟩
    obtain ⟨q, hsent⟩ := sent_walk
    obtain ⟨c₁, hreach₁, hstore₁, -⟩ := hsent.beside hinit (.forward sampleArgs)
    obtain ⟨q', hcredited⟩ := credited_walk
    rw [← hstore₁] at hcredited
    obtain ⟨c₂, hreach₂, hstore₂, -⟩ := hcredited.beside hreach₁ (.request 0)
    refine ⟨_, credited.requests, hreach₂.step (.env c₂ _
      (.origin c₂.store (originAfter 0) ?_ ?_ ?_)), ?_⟩
    · rw [hstore₂]; rfl
    · rw [hstore₂]; rfl
    · rw [hstore₂]; rfl
    · show { c₂.store with origin := originAfter 0 } = _
      rw [hstore₂]
      rfl
  | succ k ih =>
    obtain ⟨c, rs, hreach, hstore⟩ := ih (by omega)
    obtain ⟨q, hwalk⟩ := unanswered_walk (by omega : k < 7) rs
    rw [← hstore] at hwalk
    obtain ⟨c', hreach', hstore', -⟩ := hwalk.beside hreach (.retries fun _ => 5000)
    exact ⟨c', _, hreach', hstore'⟩

theorem exhausted_walk (rs : List Request) :
    ∃ q s, Walk (pair sampleSetup) (processSettlementRetries sampleSetup fun _ => 5000).detach
      (unanswered 7 rs) q s ∧
      forwards s.origin = [{ sampleForward with status := .failed }] ∧
      s.origin.escrow.books.balance "delegator" = 10 ∧ s.executor = credited.executor :=
  ⟨_, _, .atomic <| .atomic <| .atomic <| .await (x := none) rfl <| .atomic <|
    .await (x := PostAnswer.failed "timeout") ⟨rfl, nofun⟩ <| .atomic <| .refl,
    rfl, rfl, rfl⟩

/-- **Lost answers pay twice**: the executor credited the worker, its answers were lost, and the
    exhausted forward was failed and refunded. -/
theorem lost_answers_pay_twice :
    ∃ c, (pair sampleSetup).Reachable c ∧ ∃ f ∈ forwards c.store.origin, f.status = .failed ∧
      c.store.origin.escrow.books.balance "delegator" = 10 ∧
      (∃ row, SettledFor sampleSetup c.store f.taskId row) ∧
      ∃ credit ∈ c.store.executor.credits, credit.referenceId = f.settlementId ∧
        credit.motebitId = "worker" ∧ credit.amount = 10 := by
  obtain ⟨c, rs, hreach, hstore⟩ := unanswered_reachable 7 (Nat.le_refl 7)
  obtain ⟨q, s, hwalk, hforwards, hbalance, hexecutor⟩ := exhausted_walk rs
  rw [← hstore] at hwalk
  obtain ⟨c', hreach', hstore', -⟩ := hwalk.beside hreach (.retries fun _ => 5000)
  refine ⟨c', hreach', { sampleForward with status := .failed }, ?_, rfl, ?_, ?_, ?_⟩
  · rw [hstore', hforwards]
    exact mem_singleton.mpr rfl
  · rw [hstore']
    exact hbalance
  · refine ⟨sampleRow, ?_, rfl, rfl⟩
    rw [hstore', hexecutor]
    exact mem_singleton.mpr rfl
  · refine ⟨⟨"worker", 10, "settlement", "Federated settlement for task task"⟩, ?_, rfl, rfl, rfl⟩
    rw [hstore', hexecutor]
    decide +kernel

/-- One answered send. -/
theorem forward_paid_once_credited :
    ∃ c, (pair sampleSetup).Reachable c ∧
      (∃ row, SettledFor sampleSetup c.store "task" row) ∧ c.store.executor.credits ≠ [] ∧
      PaidOnce sampleSetup c.store := by
  obtain ⟨c, rs, hreach, hstore⟩ := unanswered_reachable 0 (Nat.zero_le 7)
  refine ⟨c, hreach, ⟨sampleRow, ?_, rfl, rfl⟩, ?_, (forward_paid_once sampleSetup hreach .refl ?_).1⟩
  · rw [hstore]
    exact mem_singleton.mpr rfl
  · rw [hstore]
    show credited.executor.credits ≠ []
    decide +kernel
  · rw [hstore]
    rfl

end Motebit.Federation
