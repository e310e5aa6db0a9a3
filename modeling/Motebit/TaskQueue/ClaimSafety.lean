/-
  Motebit.TaskQueue.ClaimSafety — AT MOST ONE EXECUTION PER TASK.

  A grant moves an entry from Pending to Claimed, and only the forward that holds the grant and
  sent nothing moves it back.  So a pending entry has no outstanding grant, a claimed one has
  exactly one, and nothing else is ever granted.

  Main results: `Inv`, `Inv.step`, `one_execution`.
-/

import Motebit.TaskQueue.ClaimInvariant

namespace Motebit.TaskQueue.Claim

open Motebit.Lib List

/-! ## §1. The invariant -/

structure Inv (s : State) : Prop where
  known : ∀ id, (s.claims.store.get id).isSome → id ∈ s.claims.store.issued
  lease : ∀ id e, s.claims.store.get id = some e → LeaseOk e
  pending : ∀ id e, s.claims.store.get id = some e → e.task.status = .pending →
    outstanding s.log id = []
  claimed : ∀ id e, s.claims.store.get id = some e → e.task.status = .claimed →
    ∃ n, outstanding s.log id = [n]
  one : ∀ id, (outstanding s.log id).length ≤ 1
  unissued : ∀ id, id ∉ s.claims.store.issued → given s.log id = []
  forwards : ∀ f ∈ s.forwards, f.grant ∈ outstanding s.log f.taskId
  fresh : ∀ id, (∀ n ∈ given s.log id, n < s.next) ∧ ∀ n ∈ freed s.log id, n < s.next
  nodup : ∀ id, (given s.log id).Nodup
  ordered : ∀ g pre, .granted g :: pre <:+ s.log →
    ∀ n ∈ given pre g.taskId, n ∈ freed pre g.taskId
  clean : ∀ g, .granted g ∈ s.log → g.entry.receipt = none ∧ g.entry.expiredUnclaimed = none

theorem inv_init (leaseMs now : Nat) (epoch : Option Nat) :
    Inv (relayClaims leaseMs now epoch).init where
  known id h := by cases h
  lease id e h := by cases h
  pending id e h := by cases h
  claimed id e h := by cases h
  one id := Nat.zero_le 1
  unissued id _ := rfl
  forwards f h := by cases h
  fresh id := ⟨nofun, nofun⟩
  nodup id := nodup_nil
  ordered g pre h := by cases suffix_nil.mp h
  clean g h := by cases h

/-! ## §2. Steps -/

variable {s : State} {claims : TaskClaims} {e : TaskQueueEntry} {r r' : TaskClaims}
  {forwards : List Forward}

/-- Nothing granted, nothing released; the forwards in flight are still among the outstanding. -/
theorem Inv.quiet (hi : Inv s) (hq : Quiet s.claims.store claims.store)
    (hf : ∀ f ∈ forwards, f.grant ∈ outstanding s.log f.taskId) :
    Inv { s with claims := claims, forwards := forwards } where
  __ := hi
  known id h := by
    obtain ⟨e', he'⟩ := Option.isSome_iff_exists.mp h
    obtain ⟨e, he, -⟩ := hq.entries id e' he'
    rw [show claims.store.issued = _ from hq.issued]
    exact hi.known id (by rw [he]; rfl)
  lease id e' he' := by
    obtain ⟨e, he, hqe⟩ := hq.entries id e' he'
    exact hqe.lease (hi.lease id e he)
  pending id e' he' hs := by
    obtain ⟨e, he, hqe⟩ := hq.entries id e' he'
    rcases hqe.status with heq | hterm
    · exact hi.pending id e he (heq.symm.trans hs)
    · rw [hs] at hterm
      cases hterm
  claimed id e' he' hs := by
    obtain ⟨e, he, hqe⟩ := hq.entries id e' he'
    rcases hqe.status with heq | hterm
    · exact hi.claimed id e he (heq.symm.trans hs)
    · rw [hs] at hterm
      cases hterm
  unissued id h := hi.unissued id fun hold => h (by
    show id ∈ claims.store.issued
    rw [hq.issued]
    exact hold)
  forwards := hf

variable {store : Store}

theorem Inv.withStore (hi : Inv s) (hq : Quiet s.claims.store store) : Inv (s.withStore store) := by
  have hq' : Quiet s.claims.store ({ s.claims with store := store } : TaskClaims).store := hq
  exact hi.quiet hq' hi.forwards

theorem Inv.attempt {α : Type} {f : Store → Except QueueFault (α × Store)} (hi : Inv s)
    (hq : ∀ a store, f s.claims.store = .ok (a, store) → Quiet s.claims.store store) :
    Inv (s.attempt f) := by
  unfold State.attempt
  split
  · rename_i a store h
    exact hi.withStore (hq a store h)
  · exact hi

variable {presenter : TaskGrantPresenter}

/-- What the invariant says of one task. -/
structure At (s : State) (id : String) : Prop where
  known : (s.claims.store.get id).isSome → id ∈ s.claims.store.issued
  lease : ∀ e, s.claims.store.get id = some e → LeaseOk e
  pending : ∀ e, s.claims.store.get id = some e → e.task.status = .pending →
    outstanding s.log id = []
  claimed : ∀ e, s.claims.store.get id = some e → e.task.status = .claimed →
    ∃ n, outstanding s.log id = [n]
  one : (outstanding s.log id).length ≤ 1
  unissued : id ∉ s.claims.store.issued → given s.log id = []
  fresh : (∀ n ∈ given s.log id, n < s.next) ∧ ∀ n ∈ freed s.log id, n < s.next
  nodup : (given s.log id).Nodup

/-- **A step of one task**: every other task has its entry and its events. -/
theorem Inv.step_at {s' : State} (hi : Inv s) (taskId : String) (hself : At s' taskId)
    (hget : ∀ id, id ≠ taskId → s'.claims.store.get id = s.claims.store.get id)
    (hissued : ∀ id, id ≠ taskId → (id ∈ s'.claims.store.issued ↔ id ∈ s.claims.store.issued))
    (hlog : ∀ id, id ≠ taskId → given s'.log id = given s.log id ∧ freed s'.log id = freed s.log id)
    (hnext : s.next ≤ s'.next)
    (hforwards : ∀ f ∈ s'.forwards, f.grant ∈ outstanding s'.log f.taskId)
    (hordered : ∀ g pre, .granted g :: pre <:+ s'.log →
      ∀ n ∈ given pre g.taskId, n ∈ freed pre g.taskId)
    (hclean : ∀ g, .granted g ∈ s'.log → g.entry.receipt = none ∧ g.entry.expiredUnclaimed = none) :
    Inv s' := by
  have hat : ∀ id, At s' id := by
    intro id
    by_cases heq : id = taskId
    · rw [heq]
      exact hself
    obtain ⟨hg, hf⟩ := hlog id heq
    constructor <;> simp only [outstanding, hg, hf, hget id heq, hissued id heq]
    · exact hi.known id
    · exact hi.lease id
    · exact hi.pending id
    · exact hi.claimed id
    · exact hi.one id
    · exact hi.unissued id
    · have hfresh := hi.fresh id
      exact ⟨fun n hn => (hfresh.1 n hn).trans_le hnext, fun n hn => (hfresh.2 n hn).trans_le hnext⟩
    · exact hi.nodup id
  exact ⟨fun id => (hat id).known, fun id => (hat id).lease, fun id => (hat id).pending,
    fun id => (hat id).claimed, fun id => (hat id).one, fun id => (hat id).unissued, hforwards,
    fun id => (hat id).fresh, fun id => (hat id).nodup, hordered, hclean⟩

/-- **A grant** on a task with none outstanding. -/
theorem Inv.grant {taskId : String} {entry entry' : TaskQueueEntry}
    (hi : Inv s) (hfree : outstanding s.log taskId = [])
    (hclean : entry.receipt = none ∧ entry.expiredUnclaimed = none)
    (hself : claims.store.get taskId = some entry') (hstatus : entry'.task.status = .claimed)
    (hlease : LeaseOk entry')
    (hother : ∀ id, id ≠ taskId → claims.store.get id = s.claims.store.get id)
    (hissued : taskId ∈ claims.store.issued ∧
      ∀ id, id ≠ taskId → (id ∈ claims.store.issued ↔ id ∈ s.claims.store.issued)) :
    Inv (s.granted taskId presenter entry claims) := by
  have hfresh := hi.fresh taskId
  have hnew : outstanding (s.granted taskId presenter entry claims).log taskId = [s.next] :=
    outstanding_granted_self hfree fun hmem => Nat.lt_irrefl _ (hfresh.2 s.next hmem)
  have hgiven : ∀ id, given (s.granted taskId presenter entry claims).log id =
      if taskId = id then s.next :: given s.log id else given s.log id :=
    fun id => given_granted _ s.log id
  refine hi.step_at taskId ⟨fun _ => hissued.1, ?_, ?_, fun _ _ _ => ⟨_, hnew⟩, ?_,
      fun h => absurd hissued.1 h, ?_, ?_⟩ hother hissued.2
    (fun id hne => ⟨(hgiven id).trans (if_neg hne.symm), rfl⟩) (Nat.le_succ s.next) ?_ ?_ ?_
  · intro e he
    cases hself.symm.trans he
    exact hlease
  · intro e he hs
    cases hself.symm.trans he
    rw [hstatus] at hs
    cases hs
  · rw [hnew]
    exact Nat.le_refl 1
  · rw [hgiven, if_pos rfl]
    refine ⟨fun n hn => ?_, fun n hn => Nat.lt_succ_of_lt (hfresh.2 n hn)⟩
    rcases mem_cons.mp hn with rfl | hn
    · exact Nat.lt_succ_self _
    · exact Nat.lt_succ_of_lt (hfresh.1 n hn)
  · rw [hgiven, if_pos rfl]
    exact nodup_cons.mpr ⟨fun hmem => Nat.lt_irrefl _ (hfresh.1 s.next hmem), hi.nodup taskId⟩
  · intro f hf
    have hmem := hi.forwards f hf
    by_cases heq : f.taskId = taskId
    · rw [heq, hfree] at hmem
      cases hmem
    · rw [State.granted, outstanding_granted_ne heq]
      exact hmem
  · -- every earlier grant on the task was released: none is outstanding
    intro g pre hsuffix n hn
    rcases suffix_cons_iff.mp hsuffix with heq | hsuffix'
    · cases heq
      by_contra hnot
      have hmem : n ∈ outstanding s.log taskId :=
        mem_filter.mpr ⟨hn, by simpa using hnot⟩
      rw [hfree] at hmem
      cases hmem
    · exact hi.ordered g pre hsuffix' n hn
  · intro g hg
    rcases mem_cons.mp hg with heq | hold'
    · cases heq
      exact hclean
    · exact hi.clean g hold'

/-- **A release** of the forward that holds the grant. -/
theorem Inv.release {f : Forward} (hi : Inv s) (hf : f ∈ s.forwards)
    (hget : s.claims.store.get f.taskId = some e) (hclaimed : e.task.status = .claimed)
    (hstore : claims.store = s.claims.store.put f.taskId (releaseEntry e)) : Inv { s with
      claims := claims
      forwards := s.forwards.filter (·.grant ≠ f.grant)
      log := .released f.grant f.taskId :: s.log } := by
  -- the forward's grant is the one outstanding
  have hout : outstanding s.log f.taskId = [f.grant] := by
    obtain ⟨n, hn⟩ := hi.claimed f.taskId e hget hclaimed
    have hmem := hi.forwards f hf
    rw [hn] at hmem ⊢
    rw [mem_singleton.mp hmem]
  have hself : claims.store.get f.taskId = some (releaseEntry e) := by
    rw [hstore, Store.get_put_self]
  have hissued : claims.store.issued = s.claims.store.issued := by rw [hstore]; rfl
  have hnew : outstanding (.released f.grant f.taskId :: s.log) f.taskId = [] :=
    outstanding_released_self hout
  have hfresh := hi.fresh f.taskId
  refine hi.step_at f.taskId ⟨fun _ => ?_, ?_, fun _ _ _ => hnew, ?_, ?_, fun h => ?_,
      ⟨hfresh.1, ?_⟩, hi.nodup f.taskId⟩
    (fun id hne => by rw [hstore, Store.get_put_ne _ _ hne]) (fun id _ => by rw [hissued])
    (fun id hne => ⟨rfl, (freed_released ..).trans (if_neg hne.symm)⟩) (Nat.le_refl s.next) ?_ ?_ ?_
  · show f.taskId ∈ claims.store.issued
    rw [hissued]
    exact hi.known f.taskId (by rw [hget]; rfl)
  · intro e' he'
    cases hself.symm.trans he'
    exact .of_none rfl
  · intro e' he' hs
    cases hself.symm.trans he'
    cases hs
  · exact hnew ▸ Nat.zero_le 1
  · exact hi.unissued f.taskId (hissued ▸ h)
  · intro n hn
    rw [freed_released, if_pos rfl] at hn
    rcases mem_cons.mp hn with rfl | hn
    · exact hfresh.1 _ (mem_of_mem_filter (hi.forwards f hf))
    · exact hfresh.2 n hn
  · intro f' hf'
    obtain ⟨hmem, hne⟩ := mem_filter.mp hf'
    have hne' : f'.grant ≠ f.grant := by simpa using hne
    have hgrant := hi.forwards f' hmem
    by_cases heq : f'.taskId = f.taskId
    · rw [heq, hout] at hgrant
      exact absurd (mem_singleton.mp hgrant) hne'
    · exact (outstanding_released_ne heq).symm ▸ hgrant
  · intro g pre hsuffix
    rcases suffix_cons_iff.mp hsuffix with heq | hsuffix'
    · cases heq
    · exact hi.ordered g pre hsuffix'
  · intro g hg
    rcases mem_cons.mp hg with heq | hold'
    · cases heq
    · exact hi.clean g hold'

variable {entry : TaskQueueEntry}

theorem Inv.enqueue {taskId : String} (hi : Inv s)
    (hnew : taskId ∉ s.claims.store.issued) (hlease : entry.claimLease = none)
    (hstatus : entry.task.status = .pending) :
    Inv (s.withStore { s.claims.store.put taskId entry with
      issued := taskId :: s.claims.store.issued }) := by
  have hself : ({ s.claims.store.put taskId entry with
      issued := taskId :: s.claims.store.issued } : Store).get taskId = some entry :=
    Store.get_put_self _ _ _
  have hnone : outstanding s.log taskId = [] := by
    unfold outstanding
    rw [hi.unissued taskId hnew]
    rfl
  refine hi.step_at taskId ⟨fun _ => mem_cons_self, ?_, fun _ _ _ => hnone, ?_,
      hi.one taskId, fun h => absurd mem_cons_self h, hi.fresh taskId, hi.nodup taskId⟩
    (fun id hne => Store.get_put_ne _ _ hne)
    (fun id hne => ⟨fun h => (mem_cons.mp h).resolve_left hne, mem_cons_of_mem _⟩)
    (fun id _ => ⟨rfl, rfl⟩) (Nat.le_refl s.next) hi.forwards hi.ordered hi.clean
  · intro e he
    cases hself.symm.trans he
    exact .of_none hlease
  · intro e he hs
    cases hself.symm.trans he
    rw [hstatus] at hs
    cases hs

/-! ## §3. Operations that grant or release -/

theorem Inv.set_new {taskId : String} (hi : Inv s)
    (hnew : taskId ∉ s.claims.store.issued) (h : set taskId entry s.claims.store = .ok store) :
    store = { s.claims.store.put taskId entry with issued := taskId :: s.claims.store.issued } := by
  rcases set_ok h with ⟨-, -, -, -, heq⟩ | ⟨stored, hstored, -⟩
  · exact heq
  · exact absurd (hi.known taskId (by rw [hstored]; rfl)) hnew

variable {lease : TaskClaimLease}

theorem answerOf_grantEntry {by_ : String} (h : e.task.status = .pending) :
    answerOf (grantEntry by_ lease e) = answerOf e := by
  simp [answerOf, grantEntry, h, AgentTaskStatus.terminal]

theorem answerOf_releaseEntry (h : e.task.status = .claimed) :
    answerOf (releaseEntry e) = answerOf e := by
  simp [answerOf, releaseEntry, h, AgentTaskStatus.terminal]

variable {peer : ClaimingPeer} {leaseMs now : Nat}

/-- **A claim granted**: the entry was pending, unanswered and not expired. -/
theorem claim_granted {taskId motebitId : String} {lease : Bool} {ms : Option Nat}
    (h : claim leaseMs taskId motebitId peer lease now r = (.granted ms, r')) :
    ∃ e x, r.store.get taskId = some e ∧ e.task.status = .pending ∧ e.receipt = none ∧
      e.expiredUnclaimed = none ∧
      r'.store = r.store.put taskId (grantEntry peer.deviceId (bodyLease peer x) e) := by
  unfold claim at h
  split at h
  · cases h
  next e hget =>
  split at h
  · cases h
  split at h
  · cases h
  split at h
  · cases h
  next hfree =>
  rw [not_or, not_not, not_not] at hfree
  obtain ⟨hstatus, hreceipt⟩ := hfree
  split at h
  · cases h
  next hexp =>
  split at h
  · cases h
  refine ⟨e, if lease then some (now + leaseMs) else none, hget, hstatus, hreceipt,
    not_not.mp hexp, ?_⟩
  dsimp only at h
  rw [write_of_read hget (answerOf_grantEntry hstatus) rfl] at h
  cases lease with
  | true | false => cases h; rfl

theorem claim_rejected {taskId motebitId : String} {lease : Bool} {reason : String}
    (h : claim leaseMs taskId motebitId peer lease now r = (.rejected reason, r')) : r' = r := by
  unfold claim at h
  iterate 6
    split at h
    · cases h; rfl
  split at h <;> cases h

variable {taskId workerId : String}

theorem grantForward_granted (h : grantForward taskId workerId r = (true, r')) :
    ∃ e, r.store.get taskId = some e ∧ e.task.status = .pending ∧ e.receipt = none ∧
      e.expiredUnclaimed = none ∧
      r'.store = r.store.put taskId
        (grantEntry ("mcp:" ++ workerId) (forwardLease workerId) e) := by
  unfold grantForward at h
  split at h
  · cases h
  next e hget =>
  split at h
  · cases h
  next hfree =>
  rw [not_or, not_or, not_not, not_not, not_not] at hfree
  obtain ⟨hstatus, hreceipt, hexpired⟩ := hfree
  split at h
  · cases h
  refine ⟨e, hget, hstatus, hreceipt, hexpired, ?_⟩
  rw [write_of_read hget (answerOf_grantEntry hstatus) rfl] at h
  cases h
  rfl

theorem grantForward_refused (h : grantForward taskId workerId r = (false, r')) : r' = r := by
  unfold grantForward at h
  iterate 3
    split at h
    · cases h; rfl
  · cases h

/-- **A forward that ended**: its grant released, or nothing granted or released. -/
theorem forwardEnded_cases (taskId : String) (called : Bool) (now : Nat) (r : TaskClaims) :
    (∃ e r', forwardEnded taskId called now r = (some (releaseEntry e), r') ∧ called = false ∧
      r.store.get taskId = some e ∧ e.task.status = .claimed ∧
      r'.store = r.store.put taskId (releaseEntry e)) ∨
    ∃ r', forwardEnded taskId called now r = (none, r') ∧ Quiet r.store r'.store := by
  unfold forwardEnded
  split
  · exact .inr ⟨r, rfl, .refl _⟩
  · rename_i e hget
    split
    · exact .inr ⟨r, rfl, .refl _⟩
    · rename_i lease hlease
      split
      · exact .inr ⟨r, rfl, .refl _⟩
      · rename_i hheld
        simp only [not_or, ne_eq, not_not] at hheld
        obtain ⟨-, hstatus, hpresenter⟩ := hheld
        split
        · rename_i hunsent
          refine .inl ⟨e, _, rfl, hunsent, hget, hstatus, ?_⟩
          exact write_of_read hget (answerOf_releaseEntry hstatus) rfl
        · split
          · refine .inr ⟨_, rfl, quiet_write hget rfl rfl ⟨.inl rfl, fun hl => ?_⟩⟩
            have hnone := hl.forward lease hlease hpresenter
            refine .of_lease rfl (fun u x _ hx => ?_) fun _ => hnone
            rw [show lease.expiresAt = some x from hx] at hnone
            cases hnone
          · exact .inr ⟨r, rfl, .refl _⟩

/-! ## §4. Every action -/

theorem Inv.grant_put {taskId by_ : String} (hi : Inv s) (hget : s.claims.store.get taskId = some e)
    (hstatus : e.task.status = .pending) (hreceipt : e.receipt = none)
    (hexpired : e.expiredUnclaimed = none) (hunmarked : lease.undeterminedAt = none)
    (hforward : lease.presenter = some .mcpForward → lease.expiresAt = none)
    (hstore : claims.store = s.claims.store.put taskId (grantEntry by_ lease e)) :
    Inv (s.grantedOn taskId presenter claims) := by
  have hself : claims.store.get taskId = some (grantEntry by_ lease e) := by
    rw [hstore, Store.get_put_self]
  unfold State.grantedOn
  rw [hget]
  refine hi.grant (hi.pending taskId e hget hstatus) ⟨hreceipt, hexpired⟩ hself rfl
    (.of_lease rfl ?_ hforward) ?_ ⟨?_, ?_⟩
  · intro u x hu
    rw [hunmarked] at hu
    cases hu
  · intro id hne
    rw [hstore, Store.get_put_ne _ _ hne]
  · rw [hstore]
    exact hi.known taskId (by rw [hget]; rfl)
  · intro id _
    rw [hstore]
    exact Iff.rfl

theorem Inv.enqueueGranted {taskId : String} {submitter : Option String}
    (hi : Inv s) (hnew : taskId ∉ s.claims.store.issued)
    (hreceipt : entry.receipt = none) (hexpired : entry.expiredUnclaimed = none)
    (h : set taskId (grantToSubmitter entry submitter) s.claims.store = .ok store) :
    Inv (s.granted taskId .submitter entry { s.claims with store := store }) := by
  have hstore := hi.set_new hnew h
  have hfree : outstanding s.log taskId = [] := by
    unfold outstanding
    rw [hi.unissued taskId hnew]
    rfl
  have hself : ({ s.claims with store := store } : TaskClaims).store.get taskId =
      some (grantToSubmitter entry submitter) := by
    rw [hstore]
    exact Store.get_put_self _ _ _
  refine hi.grant hfree ⟨hreceipt, hexpired⟩ hself rfl (.of_lease rfl ?_ ?_) ?_ ⟨?_, ?_⟩
  · nofun
  · nofun
  · intro id hne
    show store.get id = _
    rw [hstore]
    exact Store.get_put_ne _ _ hne
  · show taskId ∈ store.issued
    rw [hstore]
    exact mem_cons_self
  · intro id hne
    show id ∈ store.issued ↔ _
    rw [hstore]
    exact ⟨fun h => (mem_cons.mp h).resolve_left hne, mem_cons_of_mem _⟩

theorem Inv.setForwards (hi : Inv s) (h : ∀ f ∈ forwards, f.grant ∈ outstanding s.log f.taskId) :
    Inv { s with forwards := forwards } :=
  hi.quiet (Quiet.refl _) h

theorem Inv.grantForward (leaseMs : Nat) (hi : Inv s) :
    Inv (apply leaseMs s (.grantForward taskId workerId)) := by
  unfold apply
  dsimp only
  split
  · rename_i claims hgrant
    obtain ⟨e, hget, hstatus, hreceipt, hexpired, hstore⟩ := grantForward_granted hgrant
    have hinv : Inv (s.grantedOn taskId .mcpForward claims) :=
      hi.grant_put hget hstatus hreceipt hexpired rfl (fun _ => rfl) hstore
    have hout : outstanding (s.grantedOn taskId .mcpForward claims).log taskId = [s.next] := by
      unfold State.grantedOn
      rw [hget]
      exact outstanding_granted_self (hi.pending taskId e hget hstatus) fun hmem =>
        Nat.lt_irrefl _ ((hi.fresh taskId).2 s.next hmem)
    have hforwards : (s.grantedOn taskId .mcpForward claims).forwards = s.forwards := by
      unfold State.grantedOn
      rw [hget]
      rfl
    refine hinv.setForwards fun f hf => ?_
    rcases mem_cons.mp hf with rfl | hold
    · rw [hout]
      exact mem_singleton_self _
    · exact hinv.forwards f (hforwards ▸ hold)
  · rename_i claims hrefused
    rw [grantForward_refused hrefused]
    exact hi

theorem Inv.forwardEnded {f : Forward} {now : Nat} (leaseMs : Nat) (hi : Inv s)
    (hf : f ∈ s.forwards) : Inv (apply leaseMs s (.forwardEnded f now)) := by
  unfold apply
  dsimp only
  rcases forwardEnded_cases f.taskId f.called now s.claims with
    ⟨e, claims, hended, -, hget, hstatus, hstore⟩ | ⟨claims, hended, hq⟩
  · rw [hended]
    exact hi.release hf hget hstatus hstore
  · rw [hended]
    exact hi.quiet hq fun f' hf' => hi.forwards f' (mem_of_mem_filter hf')

/-- **Every action keeps the invariant.** -/
theorem Inv.step {leaseMs : Nat} {s : State} {a : Act} (hi : Inv s) (hen : enabled s a) :
    Inv (apply leaseMs s a) := by
  cases a with
  | enqueue taskId entry =>
    obtain ⟨hnew, hstatus, -, hlease, -⟩ := hen
    unfold apply State.attempt
    dsimp only
    cases hset : set taskId entry s.claims.store with
    | error => exact hi
    | ok =>
      rw [hi.set_new hnew hset]
      exact hi.enqueue hnew hlease hstatus
  | enqueueGranted taskId entry submitter =>
    obtain ⟨hnew, -, hreceipt, -, hexpired⟩ := hen
    unfold apply
    dsimp only
    cases hset : set taskId (grantToSubmitter entry submitter) s.claims.store with
    | error => exact hi
    | ok => exact hi.enqueueGranted hnew hreceipt hexpired hset
  | claim taskId motebitId peer lease now =>
    unfold apply
    dsimp only
    split
    · rename_i ms claims hgrant
      obtain ⟨e, x, hget, hstatus, hreceipt, hexpired, hstore⟩ := claim_granted hgrant
      refine hi.grant_put hget hstatus hreceipt hexpired rfl (fun hp => ?_) hstore
      cases hp
    · rename_i reason claims hrejected
      rw [claim_rejected hrejected]
      exact hi
  | renew taskId motebitId deviceId now =>
    exact hi.quiet (renew_quiet leaseMs taskId motebitId deviceId now s.claims) hi.forwards
  | grantForward => exact hi.grantForward leaseMs
  | call grant =>
    refine hi.setForwards fun f hf => ?_
    obtain ⟨f₀, hf₀, rfl⟩ := mem_map.mp hf
    have hmem := hi.forwards f₀ hf₀
    split
    · exact hmem
    · exact hmem
  | forwardEnded => exact hi.forwardEnded leaseMs hen
  | expire now => exact hi.quiet (expire_quiet now s.claims) hi.forwards
  | sweep now => exact hi.quiet (sweep_quiet now s.claims) hi.forwards
  | answer =>
    exact hi.attempt fun _ _ h => answerWrite_quiet h
  | claimStored => exact hi.attempt fun _ _ h => claimStoredAnswer_quiet h
  | settle table row =>
    have hq : ∀ (u : Unit) store,
        (insertSettlement table row s.claims.store).map ((), ·) = .ok (u, store) →
          Quiet s.claims.store store := by
      intro _ store h
      obtain ⟨s₁, hins, h⟩ := Throws.bind_eq_ok.mp h
      cases h
      exact insertSettlement_quiet hins
    exact hi.attempt (f := fun store => (insertSettlement table row store).map ((), ·)) hq
  | markSettled => exact hi.attempt fun _ _ h => markTaskSettled_quiet h
  | cleanup => exact hi.withStore (.of_get rfl fun _ _ he => get_of_cleanup he)
  | evict => exact hi.withStore (.of_get rfl fun _ _ he => get_of_evict he)
  | tick => exact hi.withStore (.of_get rfl fun _ _ he => he)
  | restart =>
    refine hi.quiet (.refl _) fun f hf => ?_
    cases hf

/-! ## §5. The law -/

/-- **At most one execution per task.** -/
structure ClaimLaw (s : State) : Prop where
  /-- Grants given minus forwards released unsent. -/
  one : ∀ taskId, (given s.log taskId).length ≤ (freed s.log taskId).length + 1
  /-- When a grant is given, every earlier grant on its task was released unsent. -/
  ordered : ∀ g pre, .granted g :: pre <:+ s.log →
    ∀ n ∈ given pre g.taskId, n ∈ freed pre g.taskId
  /-- A grant is never given on an answered or visibly expired entry. -/
  clean : ∀ g, .granted g ∈ s.log → g.entry.receipt = none ∧ g.entry.expiredUnclaimed = none
  /-- A task marked undetermined had no live lease when it was marked. -/
  undetermined : ∀ taskId e lease u, s.claims.store.get taskId = some e →
    e.claimLease = some lease → lease.undeterminedAt = some u →
      ∀ x, lease.expiresAt = some x → x ≤ u

theorem one_execution {leaseMs now : Nat} {epoch : Option Nat} {s : State}
    (h : (relayClaims leaseMs now epoch).Reachable s) : ClaimLaw s := by
  have hi : Inv s := h.invariant Inv (inv_init leaseMs now epoch) fun _ _ hi hen => hi.step hen
  refine ⟨fun taskId => ?_, hi.ordered, hi.clean, fun taskId e lease u he hlease hu x hx => ?_⟩
  · have hle := length_given_le (hi.nodup taskId)
    have hone := hi.one taskId
    omega
  · exact (hi.lease taskId e he).lapsed lease u x hlease hu hx

/-- A forward takes the grant, its wake fails before `tools/call`, and a body claims the
    task. -/
def releasedRun : List Act :=
  [.enqueue "task" { task := ⟨"worker", .pending, none, [], 0⟩, expiresAt := 100 },
    .grantForward "task" "worker",
    .forwardEnded ⟨0, "task", false⟩ 10,
    .claim "task" "worker" ⟨"device", true, none, none, none⟩ true 20]

theorem one_execution_released :
    ∃ s, (relayClaims 30000 0 none).Reachable s ∧ given s.log "task" = [1, 0] ∧
      freed s.log "task" = [0] ∧ ClaimLaw s := by
  have hreach : (relayClaims 30000 0 none).Reachable
      ((relayClaims 30000 0 none).run (relayClaims 30000 0 none).init releasedRun) := by
    refine System.reachableFrom_run _ _ _ ⟨?_, trivial, ?_, trivial, trivial⟩
    · exact ⟨by decide, rfl, rfl, rfl, rfl⟩
    · exact mem_cons_self
  exact ⟨_, hreach, rfl, rfl, one_execution hreach⟩

end Motebit.TaskQueue.Claim
