/-
  Motebit.TaskQueue.ClaimInvariant — what the claim registry's operations do to entries, and
  what its log says.

  Main results: `write_of_read`, `Quiet`, `outstanding_granted_self`,
  `outstanding_released_self`.
-/

import Motebit.TaskQueue.Claim

namespace Motebit.TaskQueue.Claim

open Motebit.Lib List

/-! ## §1. Operations that neither grant nor release -/

/-- The undetermined mark was made when no lease was live; a forward's grant has no lease. -/
structure LeaseOk (e : TaskQueueEntry) : Prop where
  lapsed : ∀ lease u x, e.claimLease = some lease → lease.undeterminedAt = some u →
    lease.expiresAt = some x → x ≤ u
  forward : ∀ lease, e.claimLease = some lease → lease.presenter = some .mcpForward →
    lease.expiresAt = none

variable {e : TaskQueueEntry} {s s' : Store} {v : AnswerVerdict} {door : AnswerDoor}
  {log : List Event}

theorem LeaseOk.of_none (h : e.claimLease = none) : LeaseOk e where
  lapsed lease u x hl := by rw [h] at hl; cases hl
  forward lease hl := by rw [h] at hl; cases hl

variable {lease : TaskClaimLease}

theorem LeaseOk.of_lease (h : e.claimLease = some lease)
    (hlapsed : ∀ u x, lease.undeterminedAt = some u → lease.expiresAt = some x → x ≤ u)
    (hforward : lease.presenter = some .mcpForward → lease.expiresAt = none) : LeaseOk e where
  lapsed lease' u x hl := by
    rw [h] at hl
    cases hl
    exact hlapsed u x
  forward lease' hl := by
    rw [h] at hl
    cases hl
    exact hforward

/-- The status stays or becomes terminal, and the lease stays sound. -/
structure EntryQuiet (e e' : TaskQueueEntry) : Prop where
  status : e'.task.status = e.task.status ∨ e'.task.status.terminal = true
  lease : LeaseOk e → LeaseOk e'

theorem EntryQuiet.refl (e : TaskQueueEntry) : EntryQuiet e e := ⟨.inl rfl, fun h => h⟩

variable {e' : TaskQueueEntry}

theorem EntryQuiet.of_eq (hs : e'.task.status = e.task.status ∨ e'.task.status.terminal = true)
    (hl : e'.claimLease = e.claimLease) : EntryQuiet e e' where
  status := hs
  lease h := ⟨fun lease u x h₁ => h.lapsed lease u x (hl ▸ h₁),
    fun lease h₁ => h.forward lease (hl ▸ h₁)⟩

/-- What an operation that neither grants nor releases does to the entries. -/
structure Quiet (s s' : Store) : Prop where
  issued : s'.issued = s.issued
  entries : ∀ id e', s'.get id = some e' → ∃ e, s.get id = some e ∧ EntryQuiet e e'

theorem Quiet.refl (s : Store) : Quiet s s := ⟨rfl, fun _ e he => ⟨e, he, .refl e⟩⟩

theorem Quiet.trans {s₁ s₂ s₃ : Store} (h : Quiet s₁ s₂) (h' : Quiet s₂ s₃) : Quiet s₁ s₃ where
  issued := h'.issued.trans h.issued
  entries id e₃ he₃ := by
    obtain ⟨e₂, he₂, hq₂⟩ := h'.entries id e₃ he₃
    obtain ⟨e₁, he₁, hq₁⟩ := h.entries id e₂ he₂
    refine ⟨e₁, he₁, ?_, fun hl => hq₂.lease (hq₁.lease hl)⟩
    rcases hq₂.status with heq | hterm
    · rw [heq]
      exact hq₁.status
    · exact .inr hterm

variable {taskId : String}

theorem Quiet.put (he : s.get taskId = some e)
    (hq : EntryQuiet e e') : Quiet s (s.put taskId e') where
  issued := rfl
  entries id e₁ he₁ := by
    by_cases heq : id = taskId
    · subst heq
      rw [s.get_put_self] at he₁
      cases he₁
      exact ⟨e, he, hq⟩
    · rw [s.get_put_ne e' heq] at he₁
      exact ⟨e₁, he₁, .refl e₁⟩

theorem Quiet.of_get (hi : s'.issued = s.issued)
    (h : ∀ id e, s'.get id = some e → s.get id = some e) : Quiet s s' :=
  ⟨hi, fun id e he => ⟨e, h id e he, .refl e⟩⟩

variable {stored entry : TaskQueueEntry}

/-- **A write of an entry read in the same turn is accepted**, when it leaves the answer alone. -/
theorem write_of_read (h : s.get taskId = some stored) (hans : answerOf entry = answerOf stored)
    (hver : entry.answerVersion = stored.answerVersion) :
    write taskId entry s = s.put taskId entry := by
  have hans' := hans
  simp only [answerOf, Prod.mk.injEq] at hans'
  obtain ⟨hr, -, hset, -⟩ := hans'
  have hat : entry.atVersion stored.answerVersion = entry := by
    rw [← hver]
    rfl
  have hguard : answerUpdateGuard stored entry = false := by
    unfold answerUpdateGuard
    simp [hver, hans]
  have hfrozen : settledFrozenGuard (settlementRowsFor s taskId) stored entry = false := by
    unfold settledFrozenGuard
    simp [hr, hset]
  have hok : set taskId entry s = .ok (s.put taskId entry) := by
    simp [set, h, hver, hans, writeRow, hat, hguard, hfrozen, Except.map]
  unfold write
  rw [hok]

theorem quiet_write (h : s.get taskId = some stored) (hans : answerOf entry = answerOf stored)
    (hver : entry.answerVersion = stored.answerVersion) (hq : EntryQuiet stored entry) :
    Quiet s (write taskId entry s) := by
  rw [write_of_read h hans hver]
  exact .put h hq

theorem markEntry_quiet {now : Nat} {reason : TaskUndeterminedReason}
    (hlapsed : ∀ x, lease.expiresAt = some x → x ≤ now)
    (hforward : LeaseOk e → lease.presenter = some .mcpForward → lease.expiresAt = none) :
    EntryQuiet e (markEntry lease now reason e) where
  status := .inl rfl
  lease hl := by
    refine .of_lease rfl (fun u x hu hx => ?_) (hforward hl)
    cases hu
    exact hlapsed x hx

theorem renew_quiet (leaseMs : Nat) (taskId motebitId deviceId : String) (now : Nat)
    (r : TaskClaims) : Quiet r.store (renew leaseMs taskId motebitId deviceId now r).2.store := by
  unfold renew
  split
  · exact .refl _
  · rename_i entry hget
    split
    · exact .refl _
    · rename_i lease hlease
      split
      · exact .refl _
      · rename_i hheld
        have hexp : lease.expiresAt ≠ none := fun hnone => hheld (.inr (.inr (.inl hnone)))
        refine quiet_write hget rfl rfl ⟨.inl rfl, fun hl => .of_lease rfl ?_ ?_⟩
        · nofun
        · -- a forward's grant has no lease to renew
          intro hp
          exact absurd (hl.forward lease hlease hp) hexp

theorem expireOne_quiet (now : Nat) (s : Store) (taskId : String) :
    Quiet s (expireOne now s taskId) := by
  unfold expireOne
  split
  · exact .refl s
  · rename_i entry hget
    split
    · exact .refl s
    · split
      · split
        · exact .refl s
        · exact quiet_write hget rfl rfl (.of_eq (.inl rfl) rfl)
      · split
        · exact .refl s
        · split
          · refine quiet_write hget rfl rfl (markEntry_quiet ?_ fun _ hp => rfl)
            nofun
          · rename_i lease hlease
            split
            · exact .refl s
            · split
              · rename_i hnone
                refine quiet_write hget rfl rfl (markEntry_quiet ?_ fun _ _ => hnone)
                intro x hx
                rw [hnone] at hx
                cases hx
              · rename_i x hx
                split
                · exact .refl s
                · rename_i hlive
                  refine quiet_write hget rfl rfl
                    (markEntry_quiet ?_ fun hl => hl.forward lease hlease)
                  intro x' hx'
                  rw [hx] at hx'
                  cases hx'
                  omega

theorem expire_quiet (now : Nat) (r : TaskClaims) : Quiet r.store (expire now r).store := by
  have hfold : ∀ (ids : List String) (s : Store), Quiet s (ids.foldl (expireOne now) s) := by
    intro ids
    induction ids with
    | nil => exact .refl
    | cons id ids ih => exact fun s => (expireOne_quiet now s id).trans (ih _)
  exact hfold _ r.store

theorem sweepOne_quiet (now : Nat) (r : TaskClaims) (taskId : String) :
    Quiet r.store (sweepOne now r taskId).store := by
  unfold sweepOne
  split
  · exact .refl _
  · rename_i entry hget
    split
    · exact .refl _
    · rename_i lease hlease
      split
      · exact .refl _
      · rename_i x hx
        split
        · exact .refl _
        · split
          · exact .refl _
          · rename_i hlive
            refine quiet_write hget rfl rfl (markEntry_quiet ?_ fun hl => hl.forward lease hlease)
            intro x' hx'
            rw [hx] at hx'
            cases hx'
            omega

theorem sweep_quiet (now : Nat) (r : TaskClaims) : Quiet r.store (sweep now r).store := by
  have hfold : ∀ (ids : List String) (r : TaskClaims),
      Quiet r.store (ids.foldl (sweepOne now) r).store := by
    intro ids
    induction ids with
    | nil => exact fun r => .refl r.store
    | cons id ids ih => exact fun r => (sweepOne_quiet now r id).trans (ih _)
  exact hfold _ r

/-! ## §2. Answer writes -/

theorem get_archiveWritten (taskId : String) (new : TaskQueueEntry) (now : Nat) (s : Store)
    (id : String) : (archiveWritten taskId new now s).get id = s.get id := by
  unfold archiveWritten archiveAnswer
  split
  · rfl
  · split
    · split <;> rfl
    · rfl

theorem issued_archiveWritten (taskId : String) (new : TaskQueueEntry) (now : Nat) (s : Store) :
    (archiveWritten taskId new now s).issued = s.issued := by
  unfold archiveWritten archiveAnswer
  split
  · rfl
  · split
    · split <;> rfl
    · rfl

variable {r : Option TaskQueueEntry}

theorem quiet_writeAnswer {v : Nat} {f : TaskQueueEntry → TaskQueueEntry}
    (h : writeAnswer taskId v f s = .ok (r, s'))
    (hf : ∀ e, ((f e).task.status = e.task.status ∨ (f e).task.status.terminal = true) ∧
      (f e).claimLease = e.claimLease) : Quiet s s' := by
  rcases writeAnswer_ok h with ⟨-, rfl⟩ | ⟨cur, hcur, -, -, rfl⟩
  · exact .refl _
  · have hput : Quiet s (s.put taskId ((f cur).atVersion (v + 1))) :=
      .put hcur (.of_eq (hf cur).1 (hf cur).2)
    refine hput.trans (.of_get (issued_archiveWritten ..) fun id e he => ?_)
    rwa [get_archiveWritten] at he

theorem takeAnswer_keeps (receipt : ExecutionReceipt) (door : AnswerDoor) (until_ : Nat)
    (e : TaskQueueEntry) :
    ((takeAnswer receipt door until_ e).task.status = e.task.status ∨
        (takeAnswer receipt door until_ e).task.status.terminal = true) ∧
      (takeAnswer receipt door until_ e).claimLease = e.claimLease :=
  ⟨.inr (terminal_statusOf receipt), rfl⟩

variable {receipt : ExecutionReceipt} {retainMs : Nat} {cur : TaskQueueEntry}

theorem adoptAnswer_quiet {taskId key : String}
    (h : adoptAnswer taskId receipt door retainMs key cur s = .ok (v, s')) : Quiet s s' := by
  unfold adoptAnswer at h
  split at h
  · obtain ⟨⟨written, s₁⟩, hw, h⟩ := Throws.bind_eq_ok.mp h
    have hq := quiet_writeAnswer hw fun e => takeAnswer_keeps receipt door (s.now + retainMs) e
    cases written with
    | none | some => cases h; exact hq
  · cases h
    exact .refl s

theorem applyRule_quiet {taskId key : String}
    (h : applyRule taskId receipt door retainMs key cur s = .ok (v, s')) : Quiet s s' := by
  unfold applyRule at h
  split at h
  · cases h
    exact .refl s
  · split at h
    · obtain ⟨r, hw, h⟩ := Throws.bind_eq_ok.mp h
      cases h
      exact quiet_writeAnswer hw fun e => ⟨.inl rfl, rfl⟩
    · cases h
      exact .refl s
  · obtain ⟨⟨written, s₁⟩, hw, h⟩ := Throws.bind_eq_ok.mp h
    have hq := quiet_writeAnswer hw (takeAnswer_keeps receipt door (s.now + retainMs))
    cases written with
    | none | some => cases h; exact hq

theorem answerWrite_quiet {taskId key : String} {presenter : Option AnswerPresenter}
    (h : answerWrite taskId receipt door retainMs presenter key s = .ok (v, s')) : Quiet s s' := by
  unfold answerWrite at h
  split at h
  · cases h
    exact .refl s
  split at h
  · cases h
    exact .refl s
  split at h
  · exact adoptAnswer_quiet h
  · exact applyRule_quiet h

theorem markTaskSettled_quiet {taskId sig : String} {u : Unit}
    (h : markTaskSettled taskId sig s = .ok (u, s')) : Quiet s s' := by
  rcases markTaskSettled_ok h with rfl | ⟨cur, r, -, -, hw⟩
  · exact .refl s'
  · exact quiet_writeAnswer hw fun e => ⟨.inl rfl, rfl⟩

theorem claimStoredAnswer_quiet
    (h : claimStoredAnswer taskId door s = .ok (r, s')) : Quiet s s' := by
  rcases claimStoredAnswer_ok h with ⟨rfl, -⟩ | ⟨cur, stored, r, -, -, -, hw, -⟩
  · exact .refl s'
  · exact quiet_writeAnswer hw fun e => ⟨.inl rfl, rfl⟩

theorem insertSettlement_quiet {table : SettlementTable} {row : SettlementRow}
    (h : insertSettlement table row s = .ok s') : Quiet s s' := by
  unfold insertSettlement at h
  split at h
  · cases h
  split at h
  · cases h
  · cases table with
    | relaySettlements | relayFederationSettlements => cases h; exact .of_get rfl fun _ _ he => he

/-! ## §3. The log -/

/-- Grants on `taskId` that were not released. -/
def outstanding (log : List Event) (taskId : String) : List Nat :=
  (given log taskId).filter (· ∉ freed log taskId)

theorem given_granted (g : Grant) (log : List Event) (taskId : String) :
    given (.granted g :: log) taskId =
      if g.taskId = taskId then g.id :: given log taskId else given log taskId := by
  unfold given
  by_cases h : g.taskId = taskId <;> simp [h]

@[simp] theorem given_released (id : Nat) (task : String) (log : List Event) (taskId : String) :
    given (.released id task :: log) taskId = given log taskId := rfl

@[simp] theorem freed_granted (g : Grant) (log : List Event) (taskId : String) :
    freed (.granted g :: log) taskId = freed log taskId := rfl

theorem freed_released (id : Nat) (task : String) (log : List Event) (taskId : String) :
    freed (.released id task :: log) taskId =
      if task = taskId then id :: freed log taskId else freed log taskId := by
  unfold freed
  by_cases h : task = taskId <;> simp [h]

theorem outstanding_granted_self {g : Grant} (hfree : outstanding log g.taskId = [])
    (hfresh : g.id ∉ freed log g.taskId) : outstanding (.granted g :: log) g.taskId = [g.id] := by
  unfold outstanding at hfree ⊢
  rw [given_granted, if_pos rfl, freed_granted, filter_cons, hfree]
  simp [hfresh]

theorem outstanding_granted_ne {g : Grant} (h : taskId ≠ g.taskId) :
    outstanding (.granted g :: log) taskId = outstanding log taskId := by
  unfold outstanding
  rw [given_granted, if_neg fun heq => h heq.symm, freed_granted]

theorem outstanding_released_self {id : Nat} (h : outstanding log taskId = [id]) :
    outstanding (.released id taskId :: log) taskId = [] := by
  have hmem : ∀ x ∈ given log taskId, x ∉ freed log taskId → x = id := by
    intro x hx hnot
    have hout : x ∈ outstanding log taskId := mem_filter.mpr ⟨hx, by simpa using hnot⟩
    rw [h] at hout
    exact mem_singleton.mp hout
  unfold outstanding
  rw [given_released, freed_released, if_pos rfl, filter_eq_nil_iff]
  intro x hx hout
  rw [decide_eq_true_eq, mem_cons, not_or] at hout
  exact hout.1 (hmem x hx hout.2)

theorem outstanding_released_ne {id : Nat} {task taskId : String} (h : taskId ≠ task) :
    outstanding (.released id task :: log) taskId = outstanding log taskId := by
  unfold outstanding
  rw [given_released, freed_released, if_neg fun heq => h heq.symm]

theorem length_given_le (h : (given log taskId).Nodup) :
    (given log taskId).length ≤ (freed log taskId).length + (outstanding log taskId).length := by
  have hsplit := length_eq_length_filter_add (l := given log taskId)
    fun x => decide (x ∈ freed log taskId)
  have hfreed : ((given log taskId).filter fun x => decide (x ∈ freed log taskId)).length ≤
      (freed log taskId).length := by
    refine (subperm_of_subset (h.filter _) fun x hx => ?_).length_le
    exact of_decide_eq_true (mem_filter.mp hx).2
  have hrest : ((given log taskId).filter fun x => !decide (x ∈ freed log taskId)) =
      outstanding log taskId := by
    unfold outstanding
    simp
  rw [hrest] at hsplit
  omega

end Motebit.TaskQueue.Claim
