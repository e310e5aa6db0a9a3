/-
  Motebit.Federation.Inbound — THE EXECUTOR'S BOOKS: what recording an inbound settlement may do.

  Main results: `recordInbound_ok`, `recordSettlement_ok`, `resolvePayee_same`,
  `Booked.record`.
-/

import Motebit.Federation.Executor

namespace Motebit.Federation

open Motebit.Lib List

/-! ## §1. The turns -/

/-- Everything of the executor but its federated settlements and their credits. -/
structure SameSettlements (e e' : Executor) : Prop where
  federation : e'.federation = e.federation
  credits : e'.credits = e.credits

variable {row : FederationRow} {worker : Option String} {s s' : Executor}

theorem recordInbound_ok
    {new : Bool} (h : recordInboundFederatedSettlement row worker s = .ok (new, s')) :
    (new = false ∧ s' = s) ∨
    (new = true ∧ (∀ r ∈ s.federation, r.settlementId ≠ row.settlementId) ∧
      (∀ r ∈ s.federation, ¬(r.taskId = row.taskId ∧ r.upstreamRelayId = row.upstreamRelayId)) ∧
      (∃ t, TaskQueue.insertSettlement .relayFederationSettlements (Executor.settlementRow row)
        s.tasks = .ok t) ∧
      s' = { s with
        federation := s.federation ++ [row]
        credits := s.credits ++ creditRows row worker }) := by
  unfold recordInboundFederatedSettlement at h
  split at h
  · cases h
  split at h
  · cases h
  split at h
  · cases h
    exact .inl ⟨rfl, rfl⟩
  next hkey =>
  split at h
  · cases h
  split at h
  · cases h
  next t hguard =>
  split at h
  · cases h
    exact .inl ⟨rfl, rfl⟩
  next hid =>
  cases h
  refine .inr ⟨rfl, fun r hr => ?_, fun r hr => ?_, ⟨t, hguard⟩, rfl⟩
  · simp only [any_eq_true, not_exists, not_and, decide_eq_true_eq] at hid
    exact hid r hr
  · simp only [any_eq_true, not_exists, not_and, decide_eq_true_eq] at hkey
    exact fun hboth => hkey r hr hboth.1 hboth.2

variable {e e' : Executor}

theorem recordSettlement_ok {rate : ℚ} {m : VerifiedSettlement} {payee : Payee}
    {amounts : Int × Int} (h : recordSettlement rate m payee e = .ok (amounts, e')) :
    e' = e ∨ ∃ new, recordInboundFederatedSettlement (inboundRow rate m payee)
      (inboundRow rate m payee).agentId e = .ok (new, e') := by
  unfold recordSettlement at h
  split at h
  · cases h
    exact .inl rfl
  split at h
  · cases h
  · next new e'' hrec =>
    cases h
    exact .inr ⟨new, hrec⟩

/-! ## §2. The books -/

/-- The executor's federated settlements are unique by id and by (task, upstream), and each
    credit pays the worker of its settlement its net, once. -/
structure Booked (e : Executor) : Prop where
  ids : (e.federation.map FederationRow.settlementId).Nodup
  keys : ∀ r ∈ e.federation, ∀ r' ∈ e.federation,
    r.taskId = r'.taskId → r.upstreamRelayId = r'.upstreamRelayId → r = r'
  once : (e.credits.map SettlementCredit.referenceId).Nodup
  credits : ∀ c ∈ e.credits, ∃ r ∈ e.federation, c.referenceId = r.settlementId ∧
    r.agentId = some c.motebitId ∧ c.amount = r.netAmount

theorem mem_creditRows {c : SettlementCredit} (h : c ∈ creditRows row worker) :
    c.referenceId = row.settlementId ∧ worker = some c.motebitId ∧ c.amount = row.netAmount := by
  unfold creditRows at h
  split at h
  · cases h
  split at h
  · rw [mem_singleton] at h
    subst h
    exact ⟨rfl, rfl, rfl⟩
  · cases h

theorem creditRows_nodup (row : FederationRow) (worker : Option String) :
    ((creditRows row worker).map SettlementCredit.referenceId).Nodup := by
  unfold creditRows
  split
  · exact nodup_nil
  · split
    · exact nodup_singleton _
    · exact nodup_nil

theorem Booked.same (h : Booked e) (hsame : SameSettlements e e') : Booked e' where
  ids := by rw [hsame.federation]; exact h.ids
  keys := by rw [hsame.federation]; exact h.keys
  once := by rw [hsame.credits]; exact h.once
  credits := by rw [hsame.federation, hsame.credits]; exact h.credits

theorem Booked.record {e : Executor} (h : Booked e)
    (hid : ∀ r ∈ e.federation, r.settlementId ≠ row.settlementId) (hkey : ∀ r ∈ e.federation,
      ¬(r.taskId = row.taskId ∧ r.upstreamRelayId = row.upstreamRelayId)) :
    Booked { e with
      federation := e.federation ++ [row]
      credits := e.credits ++ creditRows row row.agentId } where
  ids := by
    show ((e.federation ++ [row]).map _).Nodup
    rw [map_append, nodup_append]
    refine ⟨h.ids, nodup_singleton _, fun x hx y hy => ?_⟩
    obtain ⟨r, hr, rfl⟩ := mem_map.mp hx
    rw [map_singleton, mem_singleton] at hy
    rw [hy]
    exact hid r hr
  keys r hr r' hr' htask hup := by
    rcases mem_append.mp hr with hold | hnew <;> rcases mem_append.mp hr' with hold' | hnew'
    · exact h.keys r hold r' hold' htask hup
    · rw [mem_singleton.mp hnew'] at htask hup
      exact absurd ⟨htask, hup⟩ (hkey r hold)
    · rw [mem_singleton.mp hnew] at htask hup
      exact absurd ⟨htask.symm, hup.symm⟩ (hkey r' hold')
    · rw [mem_singleton.mp hnew, mem_singleton.mp hnew']
  once := by
    show ((e.credits ++ creditRows row row.agentId).map _).Nodup
    rw [map_append, nodup_append]
    refine ⟨h.once, creditRows_nodup row row.agentId, fun x hx y hy => ?_⟩
    obtain ⟨c, hc, rfl⟩ := mem_map.mp hx
    obtain ⟨c', hc', rfl⟩ := mem_map.mp hy
    obtain ⟨r, hr, href, -⟩ := h.credits c hc
    rw [href, (mem_creditRows hc').1]
    exact hid r hr
  credits c hc := by
    rcases mem_append.mp hc with hold | hnew
    · obtain ⟨r, hr, hrest⟩ := h.credits c hold
      exact ⟨r, mem_append_left _ hr, hrest⟩
    · obtain ⟨href, hworker, hamount⟩ := mem_creditRows hnew
      exact ⟨row, mem_append_right _ (mem_singleton.mpr rfl), href, hworker, hamount⟩

theorem resolvePayee_same {taskId : String} {payee : Payee}
    (h : resolvePayee taskId s = .ok (payee, s')) : SameSettlements s s' := by
  unfold resolvePayee at h
  split at h
  · cases h
    exact ⟨rfl, rfl⟩
  split at h
  · split at h
    · cases h
    · cases h
      exact ⟨rfl, rfl⟩
  · cases h
    exact ⟨rfl, rfl⟩

end Motebit.Federation
