/-
  Motebit.Idempotency.Invariant — THE LAW of idempotency keys, and the invariant behind it.

  A bound row can leave the table only by ageing out, and a request can bind only a row at
  least as young as its own claim.  So while a request's claim is younger than the TTL, the
  task it admitted is named by the row of its key, and no second claim of that age can bind.

  `completeIdempotency` selects the row by its key alone, so what the row answers is the
  admitted task's own response only while completions find the row of their own task.

  Main results: `RowMove`, `Moves`, `Inv`.
-/

import Motebit.Idempotency.Model

namespace Motebit.Idempotency

open Motebit.Lib List Function

/-! ## §1. The law -/

/-- The claim the task was admitted under is not older than the TTL. -/
def Admission.Young (a : Admission) (s : Store) : Prop :=
  s.now ≤ a.claimedAt + IDEMPOTENCY_TTL_MS

/-- The completion found no row, an unbound one, or the row of its own task. -/
def Completion.Own (c : Completion) : Prop := ∀ task, c.found = some task → task = c.taskId

/-- What a check answers when it names `task` or replays a response recorded for it. -/
def Names (s : Store) (task : String) (answer : IdempotencyCheckResult) : Prop :=
  answer = .conflict (some task) ∨
    ∃ o ∈ s.outcomes, o.taskId = task ∧ answer = .replay o.status o.body

/-- **One key admits at most one task and one payment proof funds at most one task.** -/
structure KeyLaw (s : Store) : Prop where
  once : ∀ a ∈ s.admissions, ∀ b ∈ s.admissions, a.scope = b.scope → a.Young s → b.Young s →
    a = b
  answers : ∀ a ∈ s.admissions, a.Young s → Names s a.taskId (checkIdempotency a.scope s).1
  released : ∀ scope, (releaseIdempotency scope s).keys scope ≠ s.keys scope →
    ∀ a ∈ s.admissions, a.scope = scope → ¬a.Young s
  proofs : ∀ p ∈ s.bindings, ∀ q ∈ s.bindings, p.1 = q.1 → p.2 = q.2

/-! ## §2. What a step does to a row -/

/-- The ways a step changes one row. -/
inductive RowMove (now : Nat) : Option IdempotencyRecord → Option IdempotencyRecord → Prop
  | same (r : Option IdempotencyRecord) : RowMove now r r
  | claimed : RowMove now none (some ⟨.processing, none, none, now, none, none⟩)
  | released (row : IdempotencyRecord) (h : row.taskId = none) : RowMove now (some row) none
  | expired (row : IdempotencyRecord) (h : row.createdAt + IDEMPOTENCY_TTL_MS < now) :
      RowMove now (some row) none
  | bound (row : IdempotencyRecord) (task : String) (hs : row.status = .processing)
      (h : row.taskId = none) : RowMove now (some row) (some { row with taskId := some task })
  | responded (row : IdempotencyRecord) (status : Nat) (body : String) :
      RowMove now (some row) (some (row.respond now status body))

variable {r : Option IdempotencyRecord} {task : String} {s s' : Store} {scope : Scope}
  {a : Admission} {p : Prepared} {row : IdempotencyRecord}

theorem RowMove.bound_kept {now : Nat} (h : RowMove now (some row) r)
    (ht : row.taskId = some task) (hyoung : now ≤ row.createdAt + IDEMPOTENCY_TTL_MS) :
    ∃ row', r = some row' ∧ row'.taskId = some task ∧ row'.createdAt = row.createdAt := by
  cases h with
  | same => exact ⟨row, rfl, ht, rfl⟩
  | released _ hn => rw [ht] at hn; cases hn
  | expired => omega
  | bound _ _ _ hn => rw [ht] at hn; cases hn
  | responded _ _ _ => exact ⟨_, rfl, ht, rfl⟩

theorem RowMove.created {now : Nat} {row' : IdempotencyRecord} (h : RowMove now r (some row')) :
    (∃ row, r = some row ∧ row.createdAt = row'.createdAt) ∨ row'.createdAt = now := by
  cases h with
  | same => exact .inl ⟨row', rfl, rfl⟩
  | claimed => exact .inr rfl
  | bound row => exact .inl ⟨row, rfl, rfl⟩
  | responded row => exact .inl ⟨row, rfl, rfl⟩

/-- What every step of every request, and the background, does to the store. -/
structure Moves (s s' : Store) : Prop where
  now : s.now ≤ s'.now
  rows : ∀ scope, RowMove s.now (s.keys scope) (s'.keys scope)
  admissions : ∀ a ∈ s.admissions, a ∈ s'.admissions

theorem Moves.refl (s : Store) : Moves s s := ⟨Nat.le_refl _, fun _ => .same _, fun _ ha => ha⟩

theorem Moves.of_row (hnow : s'.now = s.now) (hkeys : s'.keys = Function.update s.keys scope r)
    (hmove : RowMove s.now (s.keys scope) r) (hadm : ∀ a ∈ s.admissions, a ∈ s'.admissions) :
    Moves s s' where
  now := Nat.le_of_eq hnow.symm
  rows other := by
    rw [hkeys]
    by_cases heq : other = scope
    · subst heq
      rw [update_self]
      exact hmove
    · rw [update_of_ne heq]
      exact .same _
  admissions := hadm

/-! ## §3. The invariant -/

structure Inv (s : Store) : Prop where
  /-- The row of a young claim's key names the task it admitted. -/
  held : ∀ a ∈ s.admissions, a.Young s →
    ∃ row, s.keys a.scope = some row ∧ row.taskId = some a.taskId ∧ a.claimedAt ≤ row.createdAt
  once : ∀ a ∈ s.admissions, ∀ b ∈ s.admissions, a.scope = b.scope → a.Young s → b.Young s →
    a = b
  funded : ∀ p ∈ s.bindings, ∃ claim, s.proofs p.1 = some claim ∧ claim.taskId = p.2
  timely : ∀ c ∈ s.completions, c.completedAt ≤ c.claimedAt + IDEMPOTENCY_TTL_MS → c.Own
  answered : (∀ c ∈ s.completions, c.Own) → ∀ a ∈ s.admissions, a.Young s →
    ∀ row, s.keys a.scope = some row → row.status = .completed →
      ∃ o ∈ s.outcomes, o.taskId = a.taskId ∧ row.responseStatus = some o.status ∧
        row.responseBody = some o.body

theorem inv_empty (now : Nat) : Inv (Store.empty now) where
  held a ha := by cases ha
  once a ha := by cases ha
  funded p hp := by cases hp
  timely c hc := by cases hc
  answered _ a ha := by cases ha

theorem Moves.young (h : Moves s s') (ha : a.Young s') : a.Young s := by
  unfold Admission.Young at ha ⊢
  have hnow := h.now
  omega

theorem Moves.held (h : Moves s s') (hi : Inv s) (ha : a ∈ s.admissions) (hy : a.Young s') :
    ∃ row, s'.keys a.scope = some row ∧ row.taskId = some a.taskId ∧
      a.claimedAt ≤ row.createdAt := by
  have hys := h.young hy
  obtain ⟨row, hrow, htask, hage⟩ := hi.held a ha hys
  have hmove := h.rows a.scope
  rw [hrow] at hmove
  unfold Admission.Young at hys
  obtain ⟨row', hrow', htask', hcreated⟩ := hmove.bound_kept htask (by omega)
  exact ⟨row', hrow', htask', by omega⟩

/-- A completed row a step leaves behind was there before with the same response, unless the
    step wrote a response. -/
def Quiet (r r' : Option IdempotencyRecord) : Prop :=
  ∀ row', r' = some row' → row'.status = .completed →
    ∃ row, r = some row ∧ row.status = .completed ∧
      row.responseStatus = row'.responseStatus ∧ row.responseBody = row'.responseBody

theorem Quiet.refl (r : Option IdempotencyRecord) : Quiet r r :=
  fun row' hr hs => ⟨row', hr, hs, rfl, rfl⟩

theorem Quiet.update {keys : Scope → Option IdempotencyRecord} (h : Quiet (keys scope) r)
    (other : Scope) : Quiet (keys other) (Function.update keys scope r other) := by
  by_cases heq : other = scope
  · subst heq
    rw [update_self]
    exact h
  · rw [update_of_ne heq]
    exact .refl _

/-- **A step that admits nothing, binds no proof and writes no response** keeps the
    invariant. -/
theorem Inv.quiet (hi : Inv s) (hm : Moves s s') (hadm : s'.admissions = s.admissions)
    (hbind : s'.bindings = s.bindings) (hproofs : s'.proofs = s.proofs)
    (hcomp : s'.completions = s.completions) (hout : s'.outcomes = s.outcomes)
    (hq : ∀ scope, Quiet (s.keys scope) (s'.keys scope)) : Inv s' where
  held a ha hy := hm.held hi (hadm ▸ ha) hy
  once a ha b hb heq hya hyb :=
    hi.once a (hadm ▸ ha) b (hadm ▸ hb) heq (hm.young hya) (hm.young hyb)
  funded p hp := by
    rw [hproofs]
    exact hi.funded p (hbind ▸ hp)
  timely c hc := hi.timely c (hcomp ▸ hc)
  answered hown a ha hy row hrow hs := by
    obtain ⟨old, hold, hsold, hst, hbody⟩ := hq a.scope row hrow hs
    rw [hcomp] at hown
    rw [hout, ← hst, ← hbody]
    exact hi.answered hown a (hadm ▸ ha) (hm.young hy) old hold hsold

/-! ## §4. Statements -/

theorem check_moves (scope : Scope) (s : Store) : Moves s (checkIdempotency scope s).2 := by
  unfold checkIdempotency
  split
  · rename_i hnone
    exact .of_row rfl rfl (hnone ▸ .claimed) fun _ ha => ha
  · split <;> exact .refl s

theorem check_inv (scope : Scope) (hi : Inv s) : Inv (checkIdempotency scope s).2 := by
  have hm := check_moves scope s
  unfold checkIdempotency at hm ⊢
  split
  · rename_i hnone
    rw [hnone] at hm
    refine hi.quiet hm rfl rfl rfl rfl rfl fun other => .update ?_ other
    -- the new row is processing
    intro row' hr hs
    cases hr
    cases hs
  · split <;> exact hi

theorem check_proceed (h : (checkIdempotency scope s).1 = .proceed) :
    ∃ row, (checkIdempotency scope s).2.keys scope = some row ∧ row.createdAt = s.now := by
  unfold checkIdempotency at h ⊢
  split at h
  · exact ⟨_, update_self .., rfl⟩
  · split at h <;> cases h

theorem release_moves (scope : Scope) (s : Store) : Moves s (releaseIdempotency scope s) := by
  unfold releaseIdempotency
  split
  · exact .refl s
  · rename_i row hrow
    split
    · rename_i hfree
      exact .of_row rfl rfl (hrow ▸ .released row hfree.2) fun _ ha => ha
    · exact .refl s

theorem release_inv (scope : Scope) (hi : Inv s) : Inv (releaseIdempotency scope s) := by
  have hm := release_moves scope s
  unfold releaseIdempotency at hm ⊢
  split
  · exact hi
  · rename_i row hrow
    rw [hrow] at hm
    dsimp only at hm
    split
    · rename_i hfree
      rw [if_pos hfree] at hm
      refine hi.quiet hm rfl rfl rfl rfl rfl fun other => .update ?_ other
      nofun
    · exact hi

theorem release_deletes (h : (releaseIdempotency scope s).keys scope ≠ s.keys scope) :
    ∃ row, s.keys scope = some row ∧ row.taskId = none := by
  unfold releaseIdempotency at h
  split at h
  · exact absurd rfl h
  next row hrow =>
  split at h
  · rename_i hfree
    exact ⟨row, hrow, hfree.2⟩
  · exact absurd rfl h

theorem background_moves (h : Background s s') : Moves s s' := by
  cases h with
  | tick now hle => exact ⟨hle, fun _ => .same _, fun _ ha => ha⟩
  | cleanup =>
    refine ⟨Nat.le_refl _, fun scope => ?_, fun _ ha => ha⟩
    show RowMove s.now (s.keys scope) ((s.keys scope).filter _)
    cases hrow : s.keys scope with
    | none => exact .same none
    | some row =>
      by_cases hage : s.now ≤ row.createdAt + IDEMPOTENCY_TTL_MS
      · rw [Option.filter_some, if_pos (by simpa using hage)]
        exact .same _
      · rw [Option.filter_some, if_neg (by simpa using hage)]
        exact .expired row (by omega)

theorem background_inv (hi : Inv s) (h : Background s s') : Inv s' := by
  have hm := background_moves h
  cases h with
  | tick => exact hi.quiet hm rfl rfl rfl rfl rfl fun scope => .refl _
  | cleanup =>
    refine hi.quiet hm rfl rfl rfl rfl rfl fun scope row' hr hs => ?_
    have hkept : (s.keys scope).filter _ = some row' := hr
    obtain ⟨hrow, -⟩ := Option.filter_eq_some_iff.mp hkept
    exact ⟨row', hrow, hs, rfl, rfl⟩

/-! ## §5. Admissions -/

theorem bindClaim_ok (h : bindIdempotencyClaimToTask scope task s = .ok s') :
    ∃ row, s.keys scope = some row ∧ row.status = .processing ∧ row.taskId = none ∧
      s' = s.setKey scope (some { row with taskId := some task }) := by
  unfold bindIdempotencyClaimToTask at h
  split at h
  · cases h
  next row hrow =>
  split at h
  · rename_i hfree
    cases h
    exact ⟨row, hrow, hfree.1, hfree.2, rfl⟩
  · cases h

/-- Every recorded binding has its claim row, and no claim row is lost. -/
structure Funds (s s' : Store) : Prop where
  kept : ∀ txHash claim, s.proofs txHash = some claim → s'.proofs txHash = some claim
  bound : ∀ p ∈ s'.bindings, p ∈ s.bindings ∨
    ∃ claim, s'.proofs p.1 = some claim ∧ claim.taskId = p.2

theorem Funds.refl (s : Store) : Funds s s := ⟨fun _ _ h => h, fun _ hp => .inl hp⟩

theorem Funds.funded (h : Funds s s') (hi : Inv s) :
    ∀ p ∈ s'.bindings, ∃ claim, s'.proofs p.1 = some claim ∧ claim.taskId = p.2 := by
  intro p hp
  rcases h.bound p hp with hold | hnew
  · obtain ⟨claim, hclaim, htask⟩ := hi.funded p hold
    exact ⟨claim, h.kept p.1 claim hclaim, htask⟩
  · exact hnew

variable {txHash submitter : String} {verified : Bool}

theorem bindP2pProofToTask_bound
    (h : bindP2pProofToTask txHash task submitter verified s = (.bound, s')) :
    (∃ claim, s'.proofs txHash = some claim ∧ claim.taskId = task) ∧
      (∀ other claim, s.proofs other = some claim → s'.proofs other = some claim) ∧
      s' = { s with proofs := s'.proofs } := by
  unfold bindP2pProofToTask findP2pProofClaim at h
  split at h
  · rename_i hnone
    cases h
    refine ⟨⟨_, update_self .., rfl⟩, fun other claim hclaim => ?_, rfl⟩
    have hne : other ≠ txHash := by
      intro heq
      rw [heq, hnone] at hclaim
      cases hclaim
    show Function.update s.proofs txHash _ other = _
    rw [update_of_ne hne]
    exact hclaim
  · rename_i existing hsome
    split at h
    · rename_i htask
      cases h
      exact ⟨⟨existing, hsome, htask⟩, fun _ _ hc => hc, rfl⟩
    · cases h

theorem funds_of_bound {s₁ : Store}
    (h : bindP2pProofToTask txHash task submitter verified s = (.bound, s₁))
    (hproofs : s'.proofs = s₁.proofs) (hbind : s'.bindings = (txHash, task) :: s₁.bindings) :
    Funds s s' := by
  obtain ⟨hclaim, hkept, hs₁⟩ := bindP2pProofToTask_bound h
  refine ⟨?_, fun p hp => ?_⟩
  · rw [hproofs]
    exact hkept
  · rw [hbind] at hp
    rcases mem_cons.mp hp with rfl | hold
    · rw [hproofs]
      exact .inr hclaim
    · rw [hs₁] at hold
      exact .inl hold

theorem bindProof_ok (h : bindProof p s = .ok s') :
    s' = { s with proofs := s'.proofs, bindings := s'.bindings } ∧ Funds s s' := by
  unfold bindProof at h
  split at h
  · cases h
    exact ⟨rfl, Funds.refl s⟩
  next txHash _ =>
  split at h
  · rename_i s₁ hbound
    cases h
    refine ⟨?_, funds_of_bound hbound rfl rfl⟩
    have hs₁ := (bindP2pProofToTask_bound hbound).2.2
    rw [hs₁]
  · cases h

variable {t claimedAt : Nat}

/-- **The admission transaction**, taken apart: the row was an unbound processing one, and
    the new admission stands at the head of the history. -/
theorem admission_ok (h : admission t scope claimedAt p s = .ok (task, s')) :
    ∃ row, s.keys scope = some row ∧ row.status = .processing ∧ row.taskId = none ∧
      s'.keys = Function.update s.keys scope (some { row with taskId := some task }) ∧
      s'.admissions = ⟨t, scope, claimedAt, task⟩ :: s.admissions ∧ Funds s s' ∧
      s'.now = s.now ∧ s'.outcomes = s.outcomes ∧ s'.completions = s.completions := by
  unfold admission at h
  split at h
  · cases h
  · obtain ⟨s₁, hclaim, h⟩ := Throws.bind_eq_ok.mp h
    cases hproof : bindProof p s₁ with rw [hproof] at h
    | error => cases h
    | ok =>
      cases h
      obtain ⟨row, hrow, hs, htask, rfl⟩ := bindClaim_ok hclaim
      obtain ⟨hs₂, hfunds⟩ := bindProof_ok hproof
      rw [hs₂] at hfunds ⊢
      exact ⟨row, hrow, hs, htask, rfl, rfl, ⟨hfunds.kept, hfunds.bound⟩, rfl, rfl, rfl⟩

theorem admission_moves (h : admission t scope claimedAt p s = .ok (task, s')) : Moves s s' := by
  obtain ⟨row, hrow, hs, htask, hkeys, hadm, -, hnow, -⟩ := admission_ok h
  refine .of_row hnow hkeys (hrow ▸ .bound row task hs htask) fun a ha => ?_
  rw [hadm]
  exact mem_cons_of_mem _ ha

/-- **Admission keeps the invariant** when every row of the key is at least as young as the
    request's claim. -/
theorem admission_inv (hi : Inv s) (h : admission t scope claimedAt p s = .ok (task, s'))
    (hage : ∀ row, s.keys scope = some row → claimedAt ≤ row.createdAt) : Inv s' := by
  have hm := admission_moves h
  obtain ⟨row, hrow, hs, htask, hkeys, hadm, hfunds, hnow, hout, hcomp⟩ := admission_ok h
  -- the row was unbound, so no young claim of this key has admitted anything
  have hnone : ∀ a ∈ s.admissions, a.scope = scope → ¬a.Young s' := by
    intro a ha heq hy
    obtain ⟨row', hrow', htask', -⟩ := hi.held a ha (hm.young hy)
    rw [heq, hrow] at hrow'
    cases hrow'
    rw [htask] at htask'
    cases htask'
  refine ⟨?_, ?_, hfunds.funded hi, ?_, ?_⟩
  · intro a ha hy
    rw [hadm] at ha
    rcases mem_cons.mp ha with rfl | hold
    · refine ⟨{ row with taskId := some task }, ?_, rfl, hage row hrow⟩
      rw [hkeys]
      exact update_self ..
    · exact hm.held hi hold hy
  · intro a ha b hb heq hya hyb
    rw [hadm] at ha hb
    rcases mem_cons.mp ha with rfl | ha' <;> rcases mem_cons.mp hb with rfl | hb'
    · rfl
    · exact absurd hyb (hnone b hb' heq.symm)
    · exact absurd hya (hnone a ha' heq)
    · exact hi.once a ha' b hb' heq (hm.young hya) (hm.young hyb)
  · rw [hcomp]
    exact hi.timely
  · intro hown a ha hy row' hrow' hdone
    rw [hkeys] at hrow'
    rw [hadm] at ha
    by_cases heq : a.scope = scope
    · -- the row just bound is still processing
      rw [heq, update_self] at hrow'
      cases hrow'
      rw [show row.status = .completed from hdone] at hs
      cases hs
    · rw [update_of_ne heq] at hrow'
      rcases mem_cons.mp ha with rfl | hold
      · exact absurd rfl heq
      · rw [hcomp] at hown
        rw [hout]
        exact hi.answered hown a hold (hm.young hy) row' hrow' hdone

theorem receiveForward_inv (hi : Inv s)
    (h : receiveForward task txHash submitter s = .ok ((), s')) : Inv s' ∧ Moves s s' := by
  unfold receiveForward at h
  split at h
  · rename_i s₁ hbound
    cases h
    have hfunds : Funds s { s₁ with
        queue := task :: s₁.queue, bindings := (txHash, task) :: s₁.bindings } :=
      funds_of_bound hbound rfl rfl
    have hs₁ := (bindP2pProofToTask_bound hbound).2.2
    rw [hs₁] at hfunds ⊢
    refine ⟨{ hi with funded := hfunds.funded hi }, ?_⟩
    exact ⟨Nat.le_refl _, fun _ => .same _, fun _ ha => ha⟩
  · cases h

/-! ## §6. Responses -/

/-- **A response written over a row.**  If the row is bound to no task but `task`, what it
    now answers was recorded for `task`. -/
theorem Inv.respond {status : Nat} {body : String} (hi : Inv s)
    (hm : Moves s s') (hrow : s.keys scope = some row)
    (hkeys : s'.keys = Function.update s.keys scope (some (row.respond s.now status body)))
    (hadm : s'.admissions = s.admissions) (hbind : s'.bindings = s.bindings)
    (hproofs : s'.proofs = s.proofs) (hout : s'.outcomes = ⟨task, status, body⟩ :: s.outcomes)
    (htimely : ∀ c ∈ s'.completions, c.completedAt ≤ c.claimedAt + IDEMPOTENCY_TTL_MS → c.Own)
    (hcomp : ∀ c ∈ s.completions, c ∈ s'.completions)
    (hown : (∀ c ∈ s'.completions, c.Own) → ∀ other, row.taskId = some other → other = task) :
    Inv s' where
  held a ha hy := hm.held hi (hadm ▸ ha) hy
  once a ha b hb heq hya hyb :=
    hi.once a (hadm ▸ ha) b (hadm ▸ hb) heq (hm.young hya) (hm.young hyb)
  funded p hp := by
    rw [hproofs]
    exact hi.funded p (hbind ▸ hp)
  timely := htimely
  answered hall a ha hy row' hrow' hdone := by
    rw [hadm] at ha
    rw [hkeys] at hrow'
    rw [hout]
    by_cases heq : a.scope = scope
    · rw [heq, update_self] at hrow'
      cases hrow'
      obtain ⟨held, hheld, htask, -⟩ := hi.held a ha (hm.young hy)
      rw [heq, hrow] at hheld
      cases hheld
      refine ⟨⟨task, status, body⟩, mem_cons_self, ?_, rfl, rfl⟩
      exact (hown hall a.taskId htask).symm
    · rw [update_of_ne heq] at hrow'
      obtain ⟨o, ho, htask, hst, hbody⟩ :=
        hi.answered (fun c hc => hall c (hcomp c hc)) a ha (hm.young hy) row' hrow' hdone
      exact ⟨o, mem_cons_of_mem _ ho, htask, hst, hbody⟩

theorem complete_moves (scope : Scope) (claimedAt : Nat) (task body : String) (s : Store) :
    Moves s (complete scope claimedAt task body s) := by
  unfold complete completeIdempotency
  split
  · exact ⟨Nat.le_refl _, fun _ => .same _, fun _ ha => ha⟩
  · rename_i row hrow
    exact .of_row rfl rfl (hrow ▸ .responded row 201 body) fun _ ha => ha

/-- A completion of the request that admitted `task`, made while its claim is young, finds
    the row of `task`. -/
theorem found_own (hi : Inv s) (ha : a ∈ s.admissions) (hy : a.Young s) :
    (s.keys a.scope).bind (·.taskId) = some a.taskId := by
  obtain ⟨row, hrow, htask, -⟩ := hi.held a ha hy
  rw [hrow]
  exact htask

theorem complete_inv {body : String} (hi : Inv s) (ha : a ∈ s.admissions) :
    Inv (complete a.scope a.claimedAt a.taskId body s) := by
  have hm := complete_moves a.scope a.claimedAt a.taskId body s
  -- the completion just recorded is own when it is timely; the others were recorded before
  have htimely : ∀ c ∈ (complete a.scope a.claimedAt a.taskId body s).completions,
      c.completedAt ≤ c.claimedAt + IDEMPOTENCY_TTL_MS → c.Own := by
    intro c hc hle
    rcases mem_cons.mp hc with rfl | hold
    · intro task hfound
      rw [found_own hi ha hle] at hfound
      exact (Option.some.inj hfound).symm
    · exact hi.timely c hold hle
  have hcomp : ∀ c ∈ s.completions,
      c ∈ (complete a.scope a.claimedAt a.taskId body s).completions :=
    fun c hc => mem_cons_of_mem _ hc
  cases hrow : s.keys a.scope with
  | none =>
    have hs : complete a.scope a.claimedAt a.taskId body s =
        { s with
          outcomes := ⟨a.taskId, 201, body⟩ :: s.outcomes
          completions := ⟨a.taskId, a.claimedAt, s.now, none⟩ :: s.completions } := by
      simp only [complete, completeIdempotency, hrow, Option.bind_none]
    rw [hs] at htimely hcomp ⊢
    refine ⟨hi.held, hi.once, hi.funded, htimely, fun hall b hb hy row hr hdone => ?_⟩
    obtain ⟨o, ho, hrest⟩ :=
      hi.answered (fun c hc => hall c (hcomp c hc)) b hb hy row hr hdone
    exact ⟨o, mem_cons_of_mem _ ho, hrest⟩
  | some row =>
    have hs : complete a.scope a.claimedAt a.taskId body s =
        { s.setKey a.scope (some (row.respond s.now 201 body)) with
          outcomes := ⟨a.taskId, 201, body⟩ :: s.outcomes
          completions := ⟨a.taskId, a.claimedAt, s.now, row.taskId⟩ :: s.completions } := by
      simp only [complete, completeIdempotency, hrow, Option.bind_some]
    rw [hs] at hm htimely hcomp ⊢
    refine hi.respond hm hrow rfl rfl rfl rfl rfl htimely hcomp fun hall other hother => ?_
    exact hall _ mem_cons_self other hother

theorem recordOutcome_inv (scope : Scope) (task : String) (status : Nat) (body : String)
    (hi : Inv s) : Inv (recordOutcome scope task status body s) ∧
      Moves s (recordOutcome scope task status body s) := by
  unfold recordOutcome recordAdmittedOutcome
  cases hrow : s.keys scope with
  | none => exact ⟨hi, Moves.refl s⟩
  | some row =>
    by_cases hown : row.taskId = some task ∧ row.status = .processing
    · simp only [if_pos hown]
      have hm : Moves s { s.setKey scope (some (row.respond s.now status body)) with
          outcomes := ⟨task, status, body⟩ :: s.outcomes } :=
        .of_row rfl rfl (hrow ▸ .responded row status body) fun _ ha => ha
      refine ⟨hi.respond hm hrow rfl rfl rfl rfl rfl hi.timely (fun _ hc => hc) ?_, hm⟩
      intro _ other hother
      rw [hown.1] at hother
      exact (Option.some.inj hother).symm
    · simp only [if_neg hown]
      exact ⟨hi, Moves.refl s⟩

end Motebit.Idempotency
