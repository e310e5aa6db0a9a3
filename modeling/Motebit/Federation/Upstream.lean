/-
  Motebit.Federation.Upstream — ONLY THE RELAY THAT FORWARDED A TASK SETTLES IT, as long as no
  message trespasses.

  The route authenticates the sender of a settlement but never asks whose task it names.  What
  holds without that check is the rest of the law: an entry names the agent its forward named, its
  answers are that agent's, and a settlement's payee is read from them.

  Main results: `settled_by_forwarder`, `stranger_settles_first`.
-/

import Motebit.Federation.Host

namespace Motebit.Federation

open Motebit.Lib Motebit.Lib.Protocol List Function
open Motebit.TaskQueue

/-! ## §1. Writes of the queue -/

/-- A write of `taskId`'s answer fields: the receipt stays or is an allowed one, and a claim
    stays or names the receipt. -/
def WritesAnswer (taskId : String) (allowed : ExecutionReceipt → Prop) (t t' : TaskQueue.Store) :
    Prop :=
  t' = t ∨ ∃ cur new, t.get taskId = some cur ∧ SameTask cur new ∧
    (∀ r, new.receipt = some r → cur.receipt = some r ∨ allowed r) ∧
    (∀ sig, new.settling = some sig →
      cur.settling = some sig ∨ ∃ r, new.receipt = some r ∧ r.signature = sig) ∧
    t' = archiveWritten taskId new t.now (t.put taskId new)

variable {taskId key : String} {receipt : ExecutionReceipt} {door : AnswerDoor}
  {t t' : TaskQueue.Store} {A : ExecutionReceipt → Prop} {r : Option TaskQueueEntry}

theorem writeAnswer_writes {v : Nat} {f : TaskQueueEntry → TaskQueueEntry}
    (h : writeAnswer taskId v f t = .ok (r, t'))
    (hf : ∀ cur, t.get taskId = some cur → SameTask cur (f cur) ∧
      (∀ r, (f cur).receipt = some r → cur.receipt = some r ∨ A r) ∧
      ∀ sig, (f cur).settling = some sig →
        cur.settling = some sig ∨ ∃ r, (f cur).receipt = some r ∧ r.signature = sig) :
    WritesAnswer taskId A t t' := by
  rcases writeAnswer_ok h with ⟨-, rfl⟩ | ⟨cur, hcur, -, -, rfl⟩
  · exact .inl rfl
  · obtain ⟨hsame, hreceipt, hclaim⟩ := hf cur hcur
    exact .inr ⟨cur, (f cur).atVersion (v + 1), hcur, hsame, hreceipt, hclaim, rfl⟩

variable {v : AnswerVerdict}

theorem applyRule_writes {retainMs : Nat} {current : TaskQueueEntry}
    (hcurrent : t.get taskId = some current)
    (h : applyRule taskId receipt door retainMs key current t = .ok (v, t')) :
    WritesAnswer taskId (· = receipt) t t' := by
  unfold applyRule at h
  split at h
  · cases h
    exact .inl rfl
  · next hrule =>
    split at h
    · obtain ⟨r, hw, h⟩ := Throws.bind_eq_ok.mp h
      cases h
      refine writeAnswer_writes (A := (· = receipt)) hw fun cur hcur => ?_
      rw [hcurrent] at hcur
      cases hcur
      refine ⟨⟨rfl, rfl, rfl⟩, fun r hr => .inl hr, fun sig hsig => .inr ?_⟩
      -- a repeat carries the signature of the answer it repeats
      unfold answerRule at hrule
      split at hrule
      · next prior hprior =>
        split at hrule
        · next hsame => exact ⟨prior, hprior, hsame.1.trans (Option.some.inj hsig)⟩
        · split at hrule
          · cases hrule
          · split at hrule <;> cases hrule
      · split at hrule <;> cases hrule
    · cases h
      exact .inl rfl
  · obtain ⟨r, hw, h⟩ := Throws.bind_eq_ok.mp h
    have hwrites := writeAnswer_writes (A := (· = receipt)) hw fun cur _ =>
      ⟨⟨rfl, rfl, rfl⟩, fun r hr => .inr (Option.some.inj hr).symm, fun sig hsig =>
        .inr ⟨receipt, rfl, Option.some.inj hsig⟩⟩
    obtain ⟨written, t₁⟩ := r
    cases written <;> (cases h; exact hwrites)

theorem answerWrite_writes {retainMs : Nat} {presenter : Option AnswerPresenter}
    (h : answerWrite taskId receipt door retainMs presenter key t = .ok (v, t')) :
    WritesAnswer taskId (· = receipt) t t' := by
  unfold answerWrite at h
  split at h
  · cases h
    exact .inl rfl
  next current hcurrent =>
  split at h
  · cases h
    exact .inl rfl
  split at h
  · unfold adoptAnswer at h
    split at h
    · obtain ⟨r, hw, h⟩ := Throws.bind_eq_ok.mp h
      have hwrites := writeAnswer_writes (A := (· = receipt)) hw fun cur _ =>
        ⟨⟨rfl, rfl, rfl⟩, fun r hr => .inr (Option.some.inj hr).symm, fun sig hsig =>
          .inr ⟨receipt, rfl, Option.some.inj hsig⟩⟩
      obtain ⟨written, t₁⟩ := r
      cases written <;> (cases h; exact hwrites)
    · cases h
      exact .inl rfl
  · exact applyRule_writes hcurrent h

theorem markTaskSettled_writes {signature : String} {u : Unit}
    (h : markTaskSettled taskId signature t = .ok (u, t')) :
    WritesAnswer taskId (fun _ => False) t t' := by
  rcases markTaskSettled_ok h with rfl | ⟨current, r, hcurrent, hclaim, hw⟩
  · exact .inl rfl
  refine writeAnswer_writes hw fun cur hcur => ?_
  rw [hcurrent] at hcur
  cases hcur
  exact ⟨⟨rfl, rfl, rfl⟩, fun r hr => .inl hr, fun sig hsig => .inl (hclaim.trans hsig)⟩

theorem claimStoredAnswer_writes
    (h : claimStoredAnswer taskId door t = .ok (r, t')) :
    WritesAnswer taskId (fun _ => False) t t' := by
  rcases claimStoredAnswer_ok h with ⟨rfl, -⟩ | ⟨current, stored, r, hcurrent, hstored, -, hw, -⟩
  · exact .inl rfl
  refine writeAnswer_writes hw fun cur hcur => ?_
  rw [hcurrent] at hcur
  cases hcur
  exact ⟨⟨rfl, rfl, rfl⟩, fun r hr => .inl hr, fun sig hsig =>
    .inr ⟨stored, hstored, Option.some.inj hsig⟩⟩

/-- The archive after a write of `taskId`: another task's row is as it was, and a new row of
    `taskId` is the written entry's. -/
theorem archiveWritten_answers {new : TaskQueueEntry} {now : Nat} {id : String} {a : TaskAnswer}
    (h : (archiveWritten taskId new now t).answers id = some a) :
    t.answers id = some a ∨ (id = taskId ∧ ∃ r, new.receipt = some r ∧ a = archived now new r) := by
  unfold archiveWritten at h
  split at h
  · exact .inl h
  next r hr =>
  unfold archiveAnswer at h
  by_cases hid : id = taskId
  · subst hid
    have hself : update t.answers id (some (archived now new r)) id = some a →
        a = archived now new r := fun h => by
      rw [update_self] at h
      exact (Option.some.inj h).symm
    split at h
    · split at h
      · exact .inr ⟨rfl, r, hr, hself h⟩
      · exact .inl h
    · exact .inr ⟨rfl, r, hr, hself h⟩
  · have hother : ∀ answer : TaskAnswer,
        Function.update t.answers taskId (some answer) id = t.answers id :=
      fun _ => update_of_ne hid ..
    refine .inl ?_
    split at h
    · split at h
      · exact (hother _).symm.trans h
      · exact h
    · exact (hother _).symm.trans h

theorem archiveWritten_queue (taskId : String) (new : TaskQueueEntry) (now : Nat)
    (t : TaskQueue.Store) : (archiveWritten taskId new now t).queue = t.queue ∧
      (archiveWritten taskId new now t).issued = t.issued := by
  unfold archiveWritten
  split
  · exact ⟨rfl, rfl⟩
  · unfold archiveAnswer
    split
    · split <;> exact ⟨rfl, rfl⟩
    · exact ⟨rfl, rfl⟩

/-! ## §2. The invariant -/

/-- An inbound settlement of a run without trespasses: its task is not this relay's own, no other
    peer forwarded it, its id is its sender's, and the worker it names was named by the forward
    and answered. -/
structure Rightful (H : Host) (s : Hosted) (row : FederationRow) : Prop where
  foreign : row.taskId ∉ s.admitted
  forwarder : ∀ p ∈ s.forwarded, p.taskId = row.taskId → p.peer = row.upstreamRelayId
  minted : H.mintedBy row.settlementId = row.upstreamRelayId
  worker : ∀ w, row.agentId = some w →
    (∃ p ∈ s.forwarded, p.taskId = row.taskId ∧ p.agent = w) ∧
    ∃ r, (row.taskId, r) ∈ s.answered ∧ r.motebitId = w ∧ row.receiptSignature = some r.signature

/-- A settlement this relay forwarded itself. -/
structure Outbound (H : Host) (s : Hosted) (row : FederationRow) : Prop where
  downstream : row.downstreamRelayId.isSome
  own : row.taskId ∈ s.admitted
  upstream : row.upstreamRelayId = H.relayMotebitId
  minted : H.mintedBy row.settlementId = H.relayMotebitId
  agent : row.agentId = none

/-- The relay without trespasses. -/
structure Core (H : Host) (s : Hosted) : Prop where
  known : ∀ id e, s.executor.get id = some e → id ∈ s.executor.issued
  own : ∀ id ∈ s.admitted, id ∈ s.executor.issued
  origins : ∀ id ∈ s.executor.issued, id ∈ s.admitted ∨ ∃ p ∈ s.forwarded, p.taskId = id
  placed : ∀ p ∈ s.forwarded, p.taskId ∈ s.executor.issued ∧ p.taskId ∉ s.admitted ∧ p.agent ≠ ""
  single : ∀ p ∈ s.forwarded, ∀ q ∈ s.forwarded, p.taskId = q.taskId → p = q
  entries : ∀ id e, s.executor.get id = some e → id ∈ s.admitted ∨
    ∃ p ∈ s.forwarded, p.taskId = id ∧ e.task.motebitId = p.agent ∧ e.pinnedExecutor = some p.agent
  receipts : ∀ id e r, s.executor.get id = some e → e.receipt = some r → (id, r) ∈ s.answered
  claims : ∀ id e sig, s.executor.get id = some e → e.settling = some sig →
    ∃ r, (id, r) ∈ s.answered ∧ r.signature = sig
  archive : ∀ id a, s.executor.answers id = some a →
    (∃ r, (id, r) ∈ s.answered ∧ a.executorId = r.motebitId) ∧
    ∀ sig, a.settling = some sig → ∃ r, (id, r) ∈ s.answered ∧ r.signature = sig
  signers : ∀ x : String × ExecutionReceipt, x ∈ s.checked ∨ x ∈ s.answered →
    x.1 ∈ s.executor.issued ∧ ∀ p ∈ s.forwarded, p.taskId = x.1 → x.2.motebitId = p.agent
  rows : ∀ row ∈ s.executor.federation, Rightful H s row ∨ Outbound H s row

structure HostInv (H : Host) (s : Hosted) : Prop where
  booked : Booked s.executor
  core : s.trespassed = false → Core H s

/-- What every step keeps: the histories grow. -/
structure Recalls (s s' : Hosted) : Prop where
  forwarded : s.forwarded ⊆ s'.forwarded
  admitted : s.admitted ⊆ s'.admitted
  answered : s.answered ⊆ s'.answered
  trespassed : s'.trespassed = false → s.trespassed = false

theorem Recalls.refl (s : Hosted) : Recalls s s :=
  ⟨fun _ h => h, fun _ h => h, fun _ h => h, id⟩

/-- Where a payee came from: the forward that named the worker, and the worker's answer. -/
structure Sourced (s : Hosted) (taskId : String) (payee : Payee) : Prop where
  worker : ∀ w, payee.workerId = some w →
    taskId ∈ s.admitted ∨ ∃ p ∈ s.forwarded, p.taskId = taskId ∧ p.agent = w
  answer : ∀ w sig, payee.workerId = some w → payee.receiptSignature = some sig →
    taskId ∈ s.admitted ∨
      ∃ r, (taskId, r) ∈ s.answered ∧ r.motebitId = w ∧ r.signature = sig

variable {u : Nat} {payee : Payee} {e : Executor} {task : ForwardedTask}

theorem Sourced.recalls {s s' : Hosted} (h : Sourced s taskId payee) (hr : Recalls s s') :
    Sourced s' taskId payee where
  worker w hw := by
    rcases h.worker w hw with hown | ⟨p, hp, hrest⟩
    · exact .inl (hr.admitted hown)
    · exact .inr ⟨p, hr.forwarded hp, hrest⟩
  answer w sig hw hsig := by
    rcases h.answer w sig hw hsig with hown | ⟨r, hr', hrest⟩
    · exact .inl (hr.admitted hown)
    · exact .inr ⟨r, hr.answered hr', hrest⟩

variable {H : Host} {s s' : Hosted} {row : FederationRow}

theorem rows_same (h : Rightful H s row ∨ Outbound H s row)
    (hf : s'.forwarded = s.forwarded) (ha : s'.admitted = s.admitted)
    (hans : s.answered ⊆ s'.answered) : Rightful H s' row ∨ Outbound H s' row := by
  rcases h with hin | hout
  · refine .inl ⟨ha ▸ hin.foreign, hf ▸ hin.forwarder, hin.minted, fun w hw => ?_⟩
    obtain ⟨hp, r, hr, hrest⟩ := hin.worker w hw
    exact ⟨hf ▸ hp, r, hans hr, hrest⟩
  · exact .inr { hout with own := ha ▸ hout.own }

/-! ## §3. Steps of the queue -/

theorem Booked.tasks (h : Booked e) (t : TaskQueue.Store) : Booked (e.afterTasks t) :=
  h.same ⟨rfl, rfl⟩

/-- Entries and archived answers that are old ones, up to fields the invariant does not read, or
    hold what the history holds. -/
theorem Core.replace (h : Core H s) {answered : List (String × ExecutionReceipt)}
    (hentries : ∀ id new, e.get id = some new → ∃ old, s.executor.get id = some old ∧
      SameTask old new ∧
      (∀ r, new.receipt = some r → old.receipt = some r ∨ (id, r) ∈ answered) ∧
      ∀ sig, new.settling = some sig →
        old.settling = some sig ∨ ∃ r, (id, r) ∈ answered ∧ r.signature = sig)
    (hanswers : ∀ id a, e.answers id = some a → s.executor.answers id = some a ∨
      (∃ r, (id, r) ∈ answered ∧ a.executorId = r.motebitId) ∧
        ∀ sig, a.settling = some sig → ∃ r, (id, r) ∈ answered ∧ r.signature = sig)
    (hissued : e.issued = s.executor.issued) (hfederation : e.federation = s.executor.federation)
    (hold : s.answered ⊆ answered) (hnew : ∀ x ∈ answered, x ∈ s.answered ∨ x ∈ s.checked) :
    Core H { s with executor := e, answered := answered } where
  known id new hget := by
    obtain ⟨old, hwas, -⟩ := hentries id new hget
    exact hissued ▸ h.known id old hwas
  own id hid := hissued ▸ h.own id hid
  origins id hid := h.origins id (hissued ▸ hid)
  placed p hp := hissued ▸ h.placed p hp
  single := h.single
  entries id new hget := by
    obtain ⟨old, hwas, ⟨-, hm, hpin⟩, -⟩ := hentries id new hget
    rcases h.entries id old hwas with ha | ⟨p, hp, hid, hagent, hpinned⟩
    · exact .inl ha
    · exact .inr ⟨p, hp, hid, hm.trans hagent, hpin.trans hpinned⟩
  receipts id new r hget hr := by
    obtain ⟨old, hwas, -, hrec, -⟩ := hentries id new hget
    exact (hrec r hr).elim (fun hsame => hold (h.receipts id old r hwas hsame)) fun hr => hr
  claims id new sig hget hs := by
    obtain ⟨old, hwas, -, -, hset⟩ := hentries id new hget
    rcases hset sig hs with hsame | hfound
    · obtain ⟨r, hr, hsig⟩ := h.claims id old sig hwas hsame
      exact ⟨r, hold hr, hsig⟩
    · exact hfound
  archive id a ha := by
    rcases hanswers id a ha with hsame | hfound
    · obtain ⟨⟨r, hr, hexec⟩, hsig⟩ := h.archive id a hsame
      refine ⟨⟨r, hold hr, hexec⟩, fun sig hs => ?_⟩
      obtain ⟨r', hr', hrest⟩ := hsig sig hs
      exact ⟨r', hold hr', hrest⟩
    · exact hfound
  signers x hx := by
    refine hissued ▸ h.signers x (hx.elim .inl fun ha => (hnew x ha).symm)
  rows row hrow := rows_same (h.rows row (hfederation ▸ hrow)) rfl rfl hold

theorem Core.shrink (h : Core H s)
    (hqueue : ∀ id entry, e.get id = some entry → s.executor.get id = some entry)
    (hanswers : ∀ id a, e.answers id = some a → s.executor.answers id = some a)
    (hissued : e.issued = s.executor.issued) (hfederation : e.federation = s.executor.federation) :
    Core H { s with executor := e } :=
  h.replace (fun id entry hget =>
      ⟨entry, hqueue id entry hget, ⟨rfl, rfl, rfl⟩, fun _ => .inl, fun _ => .inl⟩)
    (fun id a ha => .inl (hanswers id a ha)) hissued hfederation (fun _ hx => hx) fun _ => .inl

theorem get_put (t : TaskQueue.Store) (taskId : String) (entry : TaskQueueEntry) (id : String) :
    (t.put taskId entry).get id = if id = taskId then some entry else t.get id := by
  by_cases hid : id = taskId
  · subst hid
    rw [if_pos rfl]
    exact TaskQueue.Store.get_put_self _ _ _
  · rw [if_neg hid]
    exact TaskQueue.Store.get_put_ne _ _ hid

/-- **A written answer**: the history holds the receipt the entry holds. -/
theorem Core.write (h : Core H s) {t : TaskQueue.Store}
    {answered : List (String × ExecutionReceipt)} (hw : WritesAnswer taskId A s.executor.tasks t)
    (hold : s.answered ⊆ answered) (hnew : ∀ x ∈ answered, x ∈ s.answered ∨ x ∈ s.checked)
    (hallowed : ∀ r, (t.get taskId).bind (·.receipt) = some r → A r → (taskId, r) ∈ answered) :
    Core H { s with executor := s.executor.afterTasks t, answered := answered } := by
  rcases hw with rfl | ⟨cur, new, hcur, hsame, hreceipt, hclaim, rfl⟩
  · exact h.replace (fun id e hget => ⟨e, hget, ⟨rfl, rfl, rfl⟩, fun _ => .inl, fun _ => .inl⟩)
      (fun _ _ => .inl) rfl rfl hold hnew
  obtain ⟨hqueue, hissued⟩ := archiveWritten_queue taskId new s.executor.tasks.now
    (s.executor.tasks.put taskId new)
  set t := archiveWritten taskId new s.executor.tasks.now (s.executor.tasks.put taskId new)
  have hget : ∀ id, t.get id = if id = taskId then some new else s.executor.get id := fun id =>
    (congrArg (·.lookup id) hqueue).trans (get_put _ _ _ _)
  -- the receipt the entry holds now is on record, and so is what claims it
  have hheld : ∀ r, new.receipt = some r → (taskId, r) ∈ answered := by
    intro r hr
    rcases hreceipt r hr with hsame | hA
    · exact hold (h.receipts taskId cur r hcur hsame)
    · refine hallowed r ?_ hA
      rw [hget, if_pos rfl]
      exact hr
  have hclaimed : ∀ sig, new.settling = some sig →
      cur.settling = some sig ∨ ∃ r, (taskId, r) ∈ answered ∧ r.signature = sig := by
    intro sig hs
    rcases hclaim sig hs with hsame | ⟨r, hr, hsig⟩
    · exact .inl hsame
    · exact .inr ⟨r, hheld r hr, hsig⟩
  refine h.replace (fun id e hg => ?_) (fun id a ha => ?_) hissued rfl hold hnew
  · have hg' : t.get id = some e := hg
    rw [hget] at hg'
    by_cases hid : id = taskId
    · rw [if_pos hid] at hg'
      cases hg'
      exact hid ▸ ⟨cur, hcur, hsame, fun r hr => .inr (hheld r hr), hclaimed⟩
    · rw [if_neg hid] at hg'
      exact ⟨e, hg', ⟨rfl, rfl, rfl⟩, fun _ => .inl, fun _ => .inl⟩
  · rcases archiveWritten_answers ha with hsame | ⟨rfl, r, hr, rfl⟩
    · exact .inl hsame
    · refine .inr ⟨⟨r, hheld r hr, rfl⟩, fun sig hs => (hclaimed sig hs).elim (fun hwas => ?_) fun hr => hr⟩
      obtain ⟨r', hr', hsig⟩ := h.claims id cur sig hcur hwas
      exact ⟨r', hold hr', hsig⟩

theorem Core.unheard (h : Core H s) (hnew : taskId ∉ s.executor.issued) :
    taskId ∉ s.admitted ∧ (∀ p ∈ s.forwarded, p.taskId ≠ taskId) ∧
      ∀ x : String × ExecutionReceipt, x ∈ s.checked ∨ x ∈ s.answered → x.1 ≠ taskId := by
  refine ⟨fun hown => hnew (h.own taskId hown), ?_, ?_⟩
  · rintro p hp rfl
    exact hnew (h.placed p hp).1
  · rintro x hx rfl
    exact hnew (h.signers x hx).1

variable {entry : TaskQueueEntry}

/-- **An entry enqueued under a new id**, by an admission or by a peer's forward. -/
theorem Core.enqueue (h : Core H s) {forwarded : List Placed}
    {admitted : List String} (hnew : taskId ∉ s.executor.issued)
    (hunanswered : entry.receipt = none ∧ entry.settling = none)
    (hget : ∀ id, e.get id = if id = taskId then some entry else s.executor.get id)
    (hanswers : e.answers = s.executor.answers) (hissued : e.issued = taskId :: s.executor.issued)
    (hfederation : e.federation = s.executor.federation)
    (hsource : (forwarded = s.forwarded ∧ admitted = taskId :: s.admitted ∧
        ∀ r ∈ s.executor.federation, r.taskId ≠ taskId) ∨
      ∃ p, forwarded = p :: s.forwarded ∧ admitted = s.admitted ∧ p.taskId = taskId ∧
        p.agent ≠ "" ∧ entry.task.motebitId = p.agent ∧ entry.pinnedExecutor = some p.agent ∧
        ∀ r ∈ s.executor.federation, r.taskId = taskId → r.upstreamRelayId = p.peer) :
    Core H { s with executor := e, forwarded := forwarded, admitted := admitted } := by
  obtain ⟨hown, hplaced, hheard⟩ := h.unheard hnew
  have hcases : ∀ id en, e.get id = some en →
      (id = taskId ∧ en = entry) ∨ (id ≠ taskId ∧ s.executor.get id = some en) := by
    intro id en hg
    rw [hget] at hg
    split at hg
    · next hid => exact .inl ⟨hid, (Option.some.inj hg).symm⟩
    · next hid => exact .inr ⟨hid, hg⟩
  have hsub : s.forwarded ⊆ forwarded ∧ s.admitted ⊆ admitted := by
    rcases hsource with ⟨rfl, rfl, -⟩ | ⟨p, rfl, rfl, -⟩
    · exact ⟨fun _ hp => hp, subset_cons_self _ _⟩
    · exact ⟨subset_cons_self _ _, fun _ hp => hp⟩
  have hplace : taskId ∈ admitted ∨ ∃ p ∈ forwarded,
      p.taskId = taskId ∧ entry.task.motebitId = p.agent ∧ entry.pinnedExecutor = some p.agent := by
    rcases hsource with ⟨-, rfl, -⟩ | ⟨p, rfl, -, hpid, -, hm, hpin, -⟩
    · exact .inl mem_cons_self
    · exact .inr ⟨p, mem_cons_self, hpid, hm, hpin⟩
  -- what the histories say of the other ids is what they said
  have hA : ∀ id ∈ admitted,
      id ∈ s.admitted ∨ id = taskId ∧ ∀ r ∈ s.executor.federation, r.taskId ≠ taskId := by
    intro id hid
    rcases hsource with ⟨-, rfl, hunseen⟩ | ⟨p, -, rfl, -⟩
    · exact (mem_cons.mp hid).symm.imp_right (⟨·, hunseen⟩)
    · exact .inl hid
  have hF : ∀ q ∈ forwarded, q ∈ s.forwarded ∨ q.taskId = taskId ∧ q.agent ≠ "" ∧
      (∀ r ∈ s.executor.federation, r.taskId = taskId → r.upstreamRelayId = q.peer) ∧
      admitted = s.admitted ∧ forwarded = q :: s.forwarded := by
    intro q hq
    rcases hsource with ⟨rfl, -⟩ | ⟨p, rfl, hadm, hpid, hagent, -, -, hup⟩
    · exact .inl hq
    · rcases mem_cons.mp hq with rfl | hold
      · exact .inr ⟨hpid, hagent, hup, hadm, rfl⟩
      · exact .inl hold
  have hmem : ∀ id ∈ s.executor.issued, id ∈ e.issued := fun id hid =>
    hissued ▸ mem_cons_of_mem _ hid
  have hself : taskId ∈ e.issued := hissued ▸ mem_cons_self
  refine ⟨?_, ?_, ?_, ?_, ?_, ?_, ?_, ?_, ?_, ?_, ?_⟩
  · intro id en hg
    rcases hcases id en hg with ⟨rfl, -⟩ | ⟨-, hg'⟩
    · exact hself
    · exact hmem id (h.known id en hg')
  · intro id hid
    rcases hA id hid with hold | ⟨rfl, -⟩
    · exact hmem id (h.own id hold)
    · exact hself
  · intro id hid
    have hid' : id ∈ taskId :: s.executor.issued := hissued ▸ hid
    rcases mem_cons.mp hid' with rfl | hold
    · exact hplace.imp_right fun ⟨p, hp, hpid, _⟩ => ⟨p, hp, hpid⟩
    · rcases h.origins id hold with ha | ⟨p, hp, hpid⟩
      · exact .inl (hsub.2 ha)
      · exact .inr ⟨p, hsub.1 hp, hpid⟩
  · intro q hq
    rcases hF q hq with hold | ⟨hqid, hagent, -, rfl, -⟩
    · obtain ⟨hiss, hforeign, hne⟩ := h.placed q hold
      refine ⟨hmem _ hiss, fun ha => ?_, hne⟩
      exact (hA _ ha).elim hforeign fun heq => hplaced q hold heq.1
    · exact ⟨hqid ▸ hself, hqid ▸ hown, hagent⟩
  · intro p hp q hq heq
    rcases hF p hp with hpo | ⟨hpid, -, -, -, hpnew⟩ <;>
      rcases hF q hq with hqo | ⟨hqid, -, -, -, hqnew⟩
    · exact h.single p hpo q hqo heq
    · exact absurd (heq.trans hqid) (hplaced p hpo)
    · exact absurd (heq.symm.trans hpid) (hplaced q hqo)
    · exact (cons.inj (hpnew.symm.trans hqnew)).1
  · intro id en hg
    rcases hcases id en hg with ⟨rfl, rfl⟩ | ⟨-, hg'⟩
    · exact hplace
    · rcases h.entries id en hg' with ha | ⟨p, hp, hrest⟩
      · exact .inl (hsub.2 ha)
      · exact .inr ⟨p, hsub.1 hp, hrest⟩
  · intro id en r hg hr
    rcases hcases id en hg with ⟨-, rfl⟩ | ⟨-, hg'⟩
    · rw [hunanswered.1] at hr
      cases hr
    · exact h.receipts id en r hg' hr
  · intro id en sig hg hs
    rcases hcases id en hg with ⟨-, rfl⟩ | ⟨-, hg'⟩
    · rw [hunanswered.2] at hs
      cases hs
    · exact h.claims id en sig hg' hs
  · exact fun id a ha => h.archive id a (hanswers ▸ ha)
  · intro x hx
    obtain ⟨hiss, hsigner⟩ := h.signers x hx
    refine ⟨hmem _ hiss, fun p hp hpid => ?_⟩
    rcases hF p hp with hold | hnewp
    · exact hsigner p hold hpid
    · exact absurd (hpid.symm.trans hnewp.1) (hheard x hx)
  · intro row hrow
    have hrow' : row ∈ s.executor.federation := hfederation ▸ hrow
    rcases h.rows row hrow' with hin | hout
    · refine .inl ⟨?_, ?_, hin.minted, ?_⟩
      · exact fun ha => (hA _ ha).elim hin.foreign fun hseen => hseen.2 row hrow' hseen.1
      · intro q hq hqid
        rcases hF q hq with hold | ⟨hpid, -, hup, -⟩
        · exact hin.forwarder q hold hqid
        · exact (hup row hrow' (hqid.symm.trans hpid)).symm
      · intro w hw
        obtain ⟨⟨p, hp, hrest⟩, hanswer⟩ := hin.worker w hw
        exact ⟨⟨p, hsub.1 hp, hrest⟩, hanswer⟩
    · exact .inr { hout with own := hsub.2 hout.own }

theorem Core.rewrite (h : Core H s) {stored entry : TaskQueueEntry}
    (hstored : s.executor.get taskId = some stored) (hsame : SameTask stored entry)
    (hanswer : answerOf entry = answerOf stored)
    (hget : ∀ id, e.get id = if id = taskId then some entry else s.executor.get id)
    (hanswers : e.answers = s.executor.answers) (hissued : e.issued = s.executor.issued)
    (hfederation : e.federation = s.executor.federation) : Core H { s with executor := e } := by
  have hreceipt : entry.receipt = stored.receipt := congrArg Prod.fst hanswer
  have hsettling : entry.settling = stored.settling := congrArg (·.2.2.1) hanswer
  refine h.replace (fun id en hg => ?_) (fun id a ha => .inl (hanswers ▸ ha)) hissued hfederation
    (fun _ hx => hx) fun _ => .inl
  rw [hget] at hg
  split at hg
  · next hid =>
      cases hg
      exact ⟨stored, hid ▸ hstored, hsame, fun _ hr => .inl (hreceipt ▸ hr),
        fun _ hs => .inl (hsettling ▸ hs)⟩
  · exact ⟨en, hg, ⟨rfl, rfl, rfl⟩, fun _ => .inl, fun _ => .inl⟩

theorem Core.check (h : Core H s)
    (hok : answerPrecheck taskId receipt door s.executor.tasks = none) :
    Core H { s with checked := (taskId, receipt) :: s.checked } := by
  refine { h with signers := ?_, rows := ?_ }
  · intro x hx
    rcases hx with hc | ha
    · rcases mem_cons.mp hc with rfl | hold
      · unfold answerPrecheck at hok
        split at hok
        · cases hok
        next entry hentry =>
        have hentry' : s.executor.get taskId = some entry := hentry
        refine ⟨h.known taskId entry hentry', fun p hp hpid => ?_⟩
        iterate 3
          split at hok
          · cases hok
        next hpin =>
        rcases h.entries taskId entry hentry' with hown | ⟨q, hq, hqid, -, hpinned⟩
        · exact absurd (hpid ▸ hown) (h.placed p hp).2.1
        · have hqp : q = p := h.single q hq p hp (hqid.trans hpid.symm)
          subst hqp
          have hpinOf : pinOf entry = some q.agent := by
            unfold pinOf
            rw [hpinned, Option.filter_some, decide_eq_true (h.placed q hq).2.2]
            rfl
          unfold pinRefusesAnswer executorAllowed at hpin
          rw [hpinOf] at hpin
          simpa using hpin
      · exact h.signers x (.inl hold)
    · exact h.signers x (.inr ha)
  · exact fun row hrow => rows_same (h.rows row hrow) rfl rfl fun _ hx => hx

theorem Core.record (h : Core H s) {credits : List SettlementCredit}
    (hrow : Rightful H s row ∨ Outbound H s row) :
    Core H { s with executor := { s.executor with
      federation := s.executor.federation ++ [row], credits := credits } } := by
  refine { h with rows := fun r hr => rows_same (s := s) ?_ rfl rfl fun _ hx => hx }
  rcases mem_append.mp hr with hmem | hnew
  · exact h.rows r hmem
  · rw [mem_singleton.mp hnew]
    exact hrow

theorem Core.flag (h : Core H s) (b : Bool) : Core H { s with trespassed := b } :=
  { h with rows := fun row hrow => rows_same (h.rows row hrow) rfl rfl fun _ hx => hx }

/-! ## §4. The environment -/

theorem Recalls.tables (s : Hosted) (e : Executor) : Recalls s { s with executor := e } :=
  ⟨fun _ h => h, fun _ h => h, fun _ h => h, id⟩

theorem around_inv (hi : HostInv H s) (h : Around H s s') : HostInv H s' ∧ Recalls s s' := by
  cases h with
  | tables e hsame =>
    refine ⟨⟨hi.booked.same ⟨hsame.federation, hsame.credits⟩, fun ht => ?_⟩, Recalls.tables s e⟩
    refine (hi.core ht).shrink (fun id entry hg => ?_) (fun id a ha => ?_) hsame.issued
      hsame.federation
    · unfold Executor.get at hg ⊢
      rwa [hsame.queue] at hg
    · rwa [hsame.answers] at ha
  | admission taskId entry t hid hnew hunseen hown hset =>
    refine ⟨⟨hi.booked.tasks t, fun ht => ?_⟩, fun _ h => h, subset_cons_self _ _, fun _ h => h, id⟩
    rcases set_ok hset with ⟨-, hr, hs, -, rfl⟩ | ⟨stored, hstored, -⟩
    · exact (hi.core ht).enqueue hnew ⟨hr, hs⟩ (get_put _ _ _) rfl rfl rfl (.inl ⟨rfl, rfl, hunseen⟩)
    · exact absurd ((hi.core ht).known taskId stored hstored) hnew
  | update taskId stored entry t hget hsame hset =>
    refine ⟨⟨hi.booked.tasks t, fun ht => ?_⟩, Recalls.tables s _⟩
    rcases set_ok hset with ⟨hnone, -⟩ | ⟨stored', hstored', hans, -, rfl⟩
    · rw [show s.executor.tasks.get taskId = some stored from hget] at hnone
      cases hnone
    · rw [show s.executor.tasks.get taskId = some stored from hget] at hstored'
      cases hstored'
      exact (hi.core ht).rewrite hget hsame hans (get_put _ _ _) rfl rfl rfl
  | check taskId receipt door hok =>
    exact ⟨⟨hi.booked, fun ht => (hi.core ht).check hok⟩, fun _ h => h, fun _ h => h, fun _ h => h, id⟩
  | answer taskId receipt door retainMs presenter key v t hchecked hwrite =>
    have hold : s.answered ⊆ (takenAnswer taskId receipt t s).answered := by
      unfold takenAnswer
      split
      · exact subset_cons_self _ _
      · exact fun _ h => h
    refine ⟨⟨hi.booked.tasks t, fun ht => ?_⟩, fun _ h => h, fun _ h => h, hold, id⟩
    refine (hi.core ht).write (A := (· = receipt)) (answerWrite_writes hwrite) hold ?_ ?_
    · intro x hx
      split at hx
      · rcases mem_cons.mp hx with rfl | hmem
        · exact .inr hchecked
        · exact .inl hmem
      · exact .inl hx
    · rintro r hr rfl
      rw [if_pos hr]
      exact mem_cons_self
  | settled taskId signature t hmark =>
    refine ⟨⟨hi.booked.tasks t, fun ht => ?_⟩, Recalls.tables s _⟩
    exact (hi.core ht).write (markTaskSettled_writes hmark) (fun _ h => h) (fun _ h => .inl h)
      fun _ _ hf => hf.elim
  | claim taskId door r t hclaim =>
    refine ⟨⟨hi.booked.tasks t, fun ht => ?_⟩, Recalls.tables s _⟩
    exact (hi.core ht).write (claimStoredAnswer_writes hclaim) (fun _ h => h) (fun _ h => .inl h)
      fun _ _ hf => hf.elim
  | sent row hown hdown hagent hup hmint hnew =>
    refine ⟨⟨?_, fun ht => ?_⟩, Recalls.tables s _⟩
    · have hbooked := hi.booked.record (fun r hr => (hnew r hr).1) fun r hr => (hnew r hr).2
      have hnone : creditRows row row.agentId = [] := by
        rw [hagent]
        rfl
      rwa [hnone, append_nil] at hbooked
    · exact (hi.core ht).record (.inr ⟨hdown, hown, hup, hmint, hagent⟩)
  | cleanup =>
    refine ⟨⟨hi.booked.tasks _, fun ht => ?_⟩, Recalls.tables s _⟩
    exact (hi.core ht).shrink (fun _ _ hg => get_of_cleanup hg) (fun _ _ ha => ha) rfl rfl
  | evict =>
    refine ⟨⟨hi.booked.tasks _, fun ht => ?_⟩, Recalls.tables s _⟩
    exact (hi.core ht).shrink (fun _ _ hg => get_of_evict hg) (fun _ _ ha => ha) rfl rfl
  | prune taskId =>
    refine ⟨⟨hi.booked.same ⟨rfl, rfl⟩, fun ht => ?_⟩, Recalls.tables s _⟩
    refine (hi.core ht).shrink (fun _ _ hg => hg) (fun id a ha => ?_) rfl rfl
    have ha' : Function.update s.executor.answers taskId none id = some a := ha
    by_cases hid : id = taskId
    · rw [hid, update_self] at ha'
      cases ha'
    · rwa [update_of_ne hid] at ha'

/-! ## §5. The routes -/

/-- What a placed forward did to the tables. -/
structure Enqueues (limits : QueueLimits) (task : ForwardedTask) (e e' : Executor) : Prop where
  get : ∀ id, e'.get id =
    if id = task.taskId then some (forwardedEntry task e.now limits.taskTtlMs) else e.get id
  answers : e'.answers = e.answers
  issued : e'.issued = task.taskId :: e.issued
  books : SameSettlements e e'

theorem recordTaskRoute_tasks (route : PeerRoute) (e : Executor) :
    ∃ routes, recordTaskRoute route e = { e with routes := routes } := by
  unfold recordTaskRoute
  split
  · exact ⟨e.routes, rfl⟩
  · split
    · exact ⟨e.routes, rfl⟩
    · exact ⟨e.routes ++ [route], rfl⟩

variable {limits : QueueLimits}

theorem enqueueForwarded_ok {e' : Executor}
    (hnone : e.get task.taskId = none) (h : enqueueForwarded limits task e = .ok e') :
    Enqueues limits task e e' := by
  unfold enqueueForwarded at h
  obtain ⟨routes, hroute⟩ := recordTaskRoute_tasks
    ⟨task.taskId, task.targetAgent, "", .inboundForward, task.originRelay⟩ e
  dsimp only at h
  rw [hroute] at h
  split at h
  · cases h
  next t hset =>
  cases h
  rcases set_ok hset with ⟨-, -, -, -, rfl⟩ | ⟨stored, hstored, -⟩
  · exact ⟨get_put _ _ _, rfl, rfl, rfl, rfl⟩
  · have hsome : e.get task.taskId = some stored := hstored
    rw [hnone] at hsome
    cases hsome

variable {outcome : ForwardOutcome} {socketOpen : Bool}

/-- **`onTaskForwarded`**: nothing, or a new entry. -/
theorem onTaskForwarded_ok {e' : Executor}
    (h : onTaskForwarded limits task socketOpen e = .ok (outcome, e')) :
    (outcome.placed = false ∧ e' = e) ∨ (outcome.placed = true ∧ Enqueues limits task e e') := by
  unfold onTaskForwarded at h
  dsimp only at h
  split at h
  · split at h <;> (cases h; exact .inl ⟨rfl, rfl⟩)
  next hnone =>
  split at h
  · cases h
    exact .inl ⟨rfl, rfl⟩
  · cases h
    exact .inl ⟨rfl, rfl⟩
  split at h
  · cases h
    exact .inl ⟨rfl, rfl⟩
  split at h
  · cases h
    exact .inl ⟨rfl, rfl⟩
  have hplaced : (if socketOpen then ForwardOutcome.routed else .pending).placed = true := by
    cases socketOpen <;> rfl
  split at h
  · obtain ⟨e₁, hen, h⟩ := Throws.bind_eq_ok.mp h
    cases h
    exact .inr ⟨hplaced, enqueueForwarded_ok hnone hen⟩
  next txHash _ =>
  split at h
  · next e₁ hbind =>
    -- binding the proof writes its claim only
    have hclaim : ∃ claims, e₁ = { e with proofClaims := claims } := by
      rw [← show (bindP2pProofToTask txHash task.taskId e).2 = e₁ from congrArg Prod.snd hbind]
      unfold bindP2pProofToTask
      split
      · exact ⟨_, rfl⟩
      · exact ⟨e.proofClaims, rfl⟩
    obtain ⟨claims, rfl⟩ := hclaim
    obtain ⟨e₂, hen, h⟩ := Throws.bind_eq_ok.mp h
    cases h
    obtain ⟨hget, hanswers, hissued, hbooks⟩ := enqueueForwarded_ok (e := { e with
      proofClaims := claims }) hnone hen
    exact .inr ⟨hplaced, hget, hanswers, hissued, hbooks.federation, hbooks.credits⟩
  · cases h
    exact .inl ⟨rfl, rfl⟩

/-- **A peer's forward** keeps the invariant. -/
theorem placeTask_inv (hi : HostInv H s)
    (hagent : task.targetAgent ≠ "") (h : placeTask H task socketOpen s = .ok (outcome, s')) :
    HostInv H s' ∧ Recalls s s' := by
  unfold placeTask at h
  split at h
  · cases h
  next outcome₁ e hfwd =>
  rcases onTaskForwarded_ok hfwd with ⟨hplaced, rfl⟩ | ⟨hplaced, hen⟩
  · rw [hplaced] at h
    cases h
    exact ⟨hi, Recalls.refl s⟩
  · rw [hplaced] at h
    cases h
    refine ⟨⟨hi.booked.same hen.books, fun ht => ?_⟩, subset_cons_self _ _, fun _ h => h,
      fun _ h => h, fun ht => (Bool.or_eq_false_iff.mp ht).1⟩
    obtain ⟨hclean, hfresh⟩ := Bool.or_eq_false_iff.mp ht
    obtain ⟨hnew, hothers⟩ := Bool.or_eq_false_iff.mp hfresh
    refine Core.flag ((hi.core hclean).enqueue (of_decide_eq_false hnew) ⟨rfl, rfl⟩ hen.get
      hen.answers hen.issued hen.books.federation (.inr ⟨⟨task.taskId, task.originRelay,
        task.targetAgent⟩, rfl, rfl, rfl, hagent, rfl, rfl, fun r hr hid => ?_⟩)) _
    by_contra hup
    have hnot := any_eq_false.mp hothers r hr
    exact hnot (decide_eq_true ⟨hid, hup⟩)

/-- The worker an entry names was named by its forward, and a claimed answer is that worker's. -/
theorem Core.sourced (h : Core H s) (hget : s.executor.get taskId = some entry) :
    Sourced s taskId ⟨some entry.task.motebitId, entry.settling⟩ where
  worker w hw := by
    cases hw
    rcases h.entries taskId entry hget with hown | ⟨p, hp, hid, hm, -⟩
    · exact .inl hown
    · exact .inr ⟨p, hp, hid, hm.symm⟩
  answer w sig hw hsig := by
    cases hw
    rcases h.entries taskId entry hget with hown | ⟨p, hp, hid, hm, -⟩
    · exact .inl hown
    · obtain ⟨r, hr, hrsig⟩ := h.claims taskId entry sig hget hsig
      refine .inr ⟨r, hr, ?_, hrsig⟩
      exact ((h.signers _ (.inr hr)).2 p hp hid).trans hm.symm

theorem archivedPayee_worker {w : String} (h : (archivedPayee taskId e).workerId = some w) :
    ∃ a, e.answers taskId = some a ∧
      w = a.executorId ∧ (archivedPayee taskId e).receiptSignature = a.settling := by
  unfold archivedPayee at h ⊢
  cases ha : e.answers taskId with rw [ha] at h
  | none => cases h
  | some a =>
    refine ⟨a, rfl, ?_, rfl⟩
    exact (Option.some.inj (Option.ite_none_right_eq_some.mp h).2).symm

theorem Core.sourced_archive (h : Core H s) : Sourced s taskId (archivedPayee taskId s.executor) := by
  have hboth : ∀ w, (archivedPayee taskId s.executor).workerId = some w → taskId ∈ s.admitted ∨
      ∃ p ∈ s.forwarded, p.taskId = taskId ∧ p.agent = w := by
    intro w hw
    obtain ⟨a, ha, rfl, -⟩ := archivedPayee_worker hw
    obtain ⟨⟨r, hr, hexec⟩, -⟩ := h.archive taskId a ha
    obtain ⟨hissued, hsigner⟩ := h.signers _ (.inr hr)
    rcases h.origins taskId hissued with hown | ⟨p, hp, hid⟩
    · exact .inl hown
    · exact .inr ⟨p, hp, hid, (hexec.trans (hsigner p hp hid)).symm⟩
  refine ⟨hboth, fun w sig hw hsig => ?_⟩
  rcases hboth w hw with hown | ⟨p, hp, hid, hagent⟩
  · exact .inl hown
  · obtain ⟨a, ha, -, hclaim⟩ := archivedPayee_worker hw
    obtain ⟨-, hclaims⟩ := h.archive taskId a ha
    obtain ⟨r, hr, hrsig⟩ := hclaims sig (hclaim.symm.trans hsig)
    exact .inr ⟨r, hr, ((h.signers _ (.inr hr)).2 p hp hid).trans hagent, hrsig⟩

theorem claimStoredAnswer_get
    (h : claimStoredAnswer taskId door t = .ok (some entry, t')) : t'.get taskId = some entry := by
  rcases claimStoredAnswer_ok h with ⟨rfl, hget⟩ | ⟨current, stored, claimed, -, -, -, hw, heq⟩
  · exact hget entry rfl
  cases claimed with
  | none => exact heq.symm
  | some =>
    rcases writeAnswer_ok hw with ⟨hnone, -⟩ | ⟨cur, -, -, hsome, rfl⟩
    · cases hnone
    · rw [heq, hsome]
      unfold TaskQueue.Store.get
      rw [(archiveWritten_queue ..).1]
      exact TaskQueue.Store.get_put_self _ _ _

/-- **The first turn** of a settlement: the payee is sourced. -/
theorem resolvePayee_inv (hi : HostInv H s) (h : resolvePayee taskId s.executor = .ok (payee, e)) :
    HostInv H { s with executor := e } ∧
      (s.trespassed = false → Sourced { s with executor := e } taskId payee) := by
  have hbooked : Booked e := hi.booked.same (resolvePayee_same h)
  unfold resolvePayee at h
  split at h
  · cases h
    exact ⟨hi, fun ht => (hi.core ht).sourced_archive⟩
  next entry hentry =>
  split at h
  · split at h
    · cases h
    next claimed t hclaim =>
    cases h
    have hcore : s.trespassed = false → Core H { s with executor := s.executor.afterTasks t } :=
      fun ht => (hi.core ht).write (claimStoredAnswer_writes hclaim) (fun _ h => h)
        (fun _ h => .inl h) fun _ _ hf => hf.elim
    refine ⟨⟨hbooked, hcore⟩, fun ht => ?_⟩
    cases claimed with
    | none => exact ((hi.core ht).sourced hentry).recalls (Recalls.tables s _)
    | some => exact (hcore ht).sourced (claimStoredAnswer_get hclaim)
  · cases h
    exact ⟨hi, fun ht => (hi.core ht).sourced hentry⟩

variable {m : VerifiedSettlement}

/-- **The last turn** of a settlement: what it records without a trespass is rightful. -/
theorem recordSettlement_inv {amounts : Int × Int} (hi : HostInv H s)
    (hid : m.taskId ≠ "") (hsource : s.trespassed = false → Sourced s m.taskId payee)
    (h : recordSettlement H.rate m payee s.executor = .ok (amounts, e)) :
    HostInv H { s with executor := e, trespassed := s.trespassed || H.trespass m payee s } := by
  have hsame : HostInv H { s with trespassed := s.trespassed || H.trespass m payee s } :=
    ⟨hi.booked, fun ht => (hi.core (Bool.or_eq_false_iff.mp ht).1).flag _⟩
  rcases recordSettlement_ok h with rfl | ⟨new, hrec⟩
  · exact hsame
  rcases recordInbound_ok hrec with ⟨-, rfl⟩ | ⟨-, hids, hkeys, ⟨t, hguard⟩, rfl⟩
  · exact hsame
  refine ⟨hi.booked.record hids hkeys, fun ht => ?_⟩
  obtain ⟨hclean, hrightful⟩ := Bool.or_eq_false_iff.mp ht
  have hcore := hi.core hclean
  suffices hrow : Rightful H s (inboundRow H.rate m payee) from (hcore.record (.inl hrow)).flag _
  unfold Host.trespass at hrightful
  simp only [Bool.or_eq_false_iff, decide_eq_false_iff_not, ne_eq, not_not] at hrightful
  obtain ⟨⟨⟨hforeign, hothers⟩, hmint⟩, hforgot⟩ := hrightful
  refine ⟨hforeign, fun p hp hpid => ?_, hmint, fun w hw => ?_⟩
  · by_contra hpeer
    exact any_eq_false.mp hothers p hp (decide_eq_true ⟨hpid, hpeer⟩)
  -- a row that names a worker names an answer: the guard refuses it else
  have hw' : payee.workerId = some w := hw
  cases hsig : payee.receiptSignature with
  | none =>
    rw [hw', hsig] at hforgot
    have hknown : knownTask s.executor.tasks m.taskId = true := by simpa using hforgot
    obtain ⟨hclaimed, -⟩ := insertSettlement_ok hguard hid
    have hnone := hclaimed hknown
    rw [show (Executor.settlementRow (inboundRow H.rate m payee)).receiptSignature = none from hsig]
      at hnone
    unfold claimedFor at hnone
    split at hnone <;> cases hnone
  | some sig =>
    have hsourced := hsource hclean
    obtain hown | ⟨p, hp, hpid, hagent⟩ := hsourced.worker w hw'
    · exact absurd hown hforeign
    obtain hown | ⟨r, hr, hrw, hrsig⟩ := hsourced.answer w sig hw' hsig
    · exact absurd hown hforeign
    · exact ⟨⟨p, hp, hpid, hagent⟩, r, hr, hrw, by rw [hrsig]; exact hsig⟩

/-! ## §6. Runs -/

/-- The protocol: every thread keeps the histories. -/
def hosting (H : Host) : Protocol (host H) where
  Inv := HostInv H
  Guar _ := Recalls
  Fresh _ _ := True
  refl _ := Recalls.refl

variable {L : Hosted → Prop}

theorem hosting_stable (hL : ∀ s s', Recalls s s' → L s → L s') : (hosting H).Stable u L := by
  intro s s' hi _ hr hl
  rcases hr with ⟨_, -, hg⟩ | he
  · exact hL s s' hg hl
  · exact hL s s' (around_inv hi he).2 hl

theorem hosting_ask (w : HostWait) (hL : ∀ s s', Recalls s s' → L s → L s') :
    (hosting H).Ensures u (Task.ask w : HostWork (HostHeard w)) L (fun _ => L) fun _ _ => True := by
  refine .ask (fun _ => hosting_stable hL) fun s a s' hi hl ha => ?_
  cases ha
  exact ⟨hi, Recalls.refl s, hl⟩

theorem verifyRequest_ensures :
    (hosting H).Ensures u verifyRequest (fun _ => True) (fun _ _ => True) fun _ _ => True := by
  refine (hosting_ask .verify fun _ _ _ _ => trivial).bind fun refusal => ?_
  cases refusal with
  | some => exact .throw fun _ _ _ => trivial
  | none => exact .pure fun _ _ _ => trivial

theorem taskForward_ensures (task : ForwardedTask) (socketOpen : Bool) :
    (hosting H).Ensures u (taskForward H task socketOpen) (fun _ => True) (fun _ _ => True)
      fun _ _ => True := by
  unfold taskForward
  split
  · exact .throw fun _ _ _ => trivial
  next hfields =>
  have hagent : task.targetAgent ≠ "" := fun h => hfields (.inr (.inr h))
  refine verifyRequest_ensures.bind fun _ => ?_
  refine (hosting_ask .agent fun _ _ _ _ => trivial).bind fun found => ?_
  cases found with
  | false => exact .throw fun _ _ _ => trivial
  | true =>
    refine .txn (fun _ => .true) (fun _ => .true) ?_ fun _ _ _ _ _ => trivial
    intro s outcome s' hi _ hok
    obtain ⟨hinv, hrecalls⟩ := placeTask_inv hi hagent hok
    exact ⟨hinv, hrecalls, trivial⟩

theorem settlementReceived_ensures (m : VerifiedSettlement) :
    (hosting H).Ensures u (settlementReceived H m) (fun _ => True) (fun _ _ => True)
      fun _ _ => True := by
  unfold settlementReceived
  split
  · exact .throw fun _ _ _ => trivial
  next hfields =>
  have hid : m.taskId ≠ "" := fun h => hfields (.inl h)
  refine verifyRequest_ensures.bind fun _ => ?_
  have hlasts : ∀ (payee : Payee) (s s' : Hosted), Recalls s s' →
      (s.trespassed = false → Sourced s m.taskId payee) →
      s'.trespassed = false → Sourced s' m.taskId payee :=
    fun _ _ _ hr hs ht => (hs (hr.trespassed ht)).recalls hr
  have hresolve : (hosting H).Ensures u (hostTurn (resolvePayee m.taskId)) (fun _ => True)
      (fun payee s => s.trespassed = false → Sourced s m.taskId payee) fun _ _ => True := by
    refine .txn (fun payee => hosting_stable (hlasts payee)) (fun _ => .true) ?_
      fun _ _ _ _ _ => trivial
    intro s payee s' hi _ hok
    split at hok
    · next payee' e hres =>
      cases hok
      obtain ⟨hinv, hsourced⟩ := resolvePayee_inv hi hres
      exact ⟨hinv, Recalls.tables s e, hsourced⟩
    · cases hok
  refine hresolve.bind fun payee => ?_
  have hsign : (hosting H).Ensures u hostSign
      (fun s => s.trespassed = false → Sourced s m.taskId payee)
      (fun _ s => s.trespassed = false → Sourced s m.taskId payee) fun _ _ => True := by
    refine (hosting_ask .sign (hlasts payee)).bind fun failure => ?_
    cases failure with
    | some _ => exact .throw fun _ _ _ => trivial
    | none => exact .pure fun _ _ hs => hs
  refine hsign.bind fun _ => ?_
  refine .txn (fun _ => .true) (fun _ => .true) ?_ fun _ _ _ _ _ => trivial
  intro s amounts s' hi hsource hok
  split at hok
  · next amounts' e hrec =>
    cases hok
    refine ⟨recordSettlement_inv hi hid hsource hrec, ?_, trivial⟩
    exact ⟨fun _ h => h, fun _ h => h, fun _ h => h, fun ht => (Bool.or_eq_false_iff.mp ht).1⟩
  · cases hok

theorem vacant_inv (h : Vacant s) : HostInv H s := by
  obtain ⟨hqueue, hanswers, hissued, hfederation, hcredits, ⟨hf, ha, hc, hans⟩, -⟩ := h
  have hget : ∀ id, s.executor.get id = none := by
    intro id
    unfold Executor.get
    rw [hqueue]
    exact AList.lookup_empty id
  refine ⟨⟨?_, ?_, ?_, ?_⟩, fun _ => ⟨?_, ?_, ?_, ?_, ?_, ?_, ?_, ?_, ?_, ?_, ?_⟩⟩
  all_goals simp [hget, hanswers, hissued, hfederation, hcredits, hf, ha, hc, hans]

theorem hosting_verified : (hosting H).Verified where
  init s hs := ⟨vacant_inv hs, fun _ => trivial⟩
  env s s' hi he := ⟨(around_inv hi he).1, fun _ _ => trivial⟩
  crash s s' hi hc := by
    cases hc
    refine ⟨⟨hi.booked, fun ht => ?_⟩, fun _ _ => trivial⟩
    have h := hi.core ht
    refine { h with
      signers := fun x hx => ?_
      rows := fun row hrow => rows_same (h.rows row hrow) rfl rfl fun _ hx => hx }
    rcases hx with hnil | hans
    · cases hnil
    · exact h.signers x (.inr hans)
  fresh _ _ _ _ _ _ _ _ := trivial
  entry u p hp := by
    refine ⟨Stable.true, ?_⟩
    cases hp with
    | task task socketOpen => exact (taskForward_ensures task socketOpen).detach
    | settlement m => exact (settlementReceived_ensures m).detach

/-! ## §7. The law -/

/-- Only the relay that forwarded a task settles it. -/
structure SettledByForwarder (H : Host) (s : Hosted) : Prop where
  /-- A credit is its settlement's. -/
  credited : ∀ c ∈ s.executor.credits, ∃ row ∈ s.executor.federation,
    c.referenceId = row.settlementId ∧ row.agentId = some c.motebitId ∧ c.amount = row.netAmount
  /-- A settlement that names a worker names the peer whose forward put the task here, for that
      worker, and the worker's answer. -/
  named : ∀ row ∈ s.executor.federation, ∀ w, row.agentId = some w →
    (∃ p ∈ s.forwarded, p.taskId = row.taskId ∧ p.peer = row.upstreamRelayId ∧ p.agent = w) ∧
    ∃ r, (row.taskId, r) ∈ s.answered ∧ r.motebitId = w ∧ row.receiptSignature = some r.signature
  /-- A peer's message settles no task of this relay's own. -/
  foreign : ∀ row ∈ s.executor.federation, row.downstreamRelayId = none → row.taskId ∉ s.admitted
  /-- What may refuse the forwarder is the freeze, this relay's own books, the answer's own claim,
      or a settlement of its own. -/
  taken : ∀ p ∈ s.forwarded, ∀ m payee, m.taskId = p.taskId → m.originRelay = p.peer →
    H.mintedBy m.settlementId = p.peer → s.executor.frozen = false →
    (∀ a ∈ s.executor.allocations, a.1 ≠ m.taskId) →
    (∀ r ∈ s.executor.relaySettlements, r.taskId ≠ m.taskId) →
    (knownTask s.executor.tasks m.taskId = true →
      claimedFor s.executor.tasks m.taskId payee.receiptSignature = true) →
    (∀ r ∈ s.executor.federation, r.upstreamRelayId = p.peer →
      r.taskId ≠ m.taskId ∧ r.settlementId ≠ m.settlementId) →
    ∃ amounts e, recordSettlement H.rate m payee s.executor = .ok (amounts, e) ∧
      inboundRow H.rate m payee ∈ e.federation

theorem recordSettlement_takes {rate : ℚ} (hfrozen : e.frozen = false)
    (halloc : ∀ a ∈ e.allocations, a.1 ≠ m.taskId)
    (hown : ∀ r ∈ e.relaySettlements, r.taskId ≠ m.taskId)
    (hclaim : knownTask e.tasks m.taskId = true →
      claimedFor e.tasks m.taskId payee.receiptSignature = true)
    (hrows : ∀ r ∈ e.federation, r.taskId ≠ m.taskId ∧ r.settlementId ≠ m.settlementId) :
    ∃ amounts e', recordSettlement rate m payee e = .ok (amounts, e') ∧
      inboundRow rate m payee ∈ e'.federation := by
  have hunsettled : settlementRowsFor e.tasks m.taskId = [] := by
    unfold settlementRowsFor
    rw [filter_eq_nil_iff]
    intro r hr hid
    rcases mem_append.mp hr with hr' | hr'
    · exact hown r hr' (of_decide_eq_true hid)
    · obtain ⟨row, hrow, rfl⟩ := mem_map.mp hr'
      exact (hrows row hrow).1 (of_decide_eq_true hid)
  have hfind : (e.allocations.find? fun a => a.1 = m.taskId) = none := by
    rw [find?_eq_none]
    exact fun a ha hid => halloc a ha (of_decide_eq_true hid)
  have hkey : (e.federation.any fun r => r.taskId = m.taskId ∧ r.upstreamRelayId = m.originRelay)
      = false := by
    rw [any_eq_false]
    exact fun r hr hid => (hrows r hr).1 (of_decide_eq_true hid).1
  have hid : (e.federation.any fun r => r.settlementId = m.settlementId) = false := by
    rw [any_eq_false]
    exact fun r hr hid => (hrows r hr).2 (of_decide_eq_true hid)
  have hinsert : ∃ t, insertSettlement .relayFederationSettlements
      (Executor.settlementRow (inboundRow rate m payee)) e.tasks = .ok t := by
    refine ⟨{ e.tasks with federationSettlements := e.tasks.federationSettlements ++
      [Executor.settlementRow (inboundRow rate m payee)] }, ?_⟩
    unfold insertSettlement
    rw [if_neg, if_neg]
    · show ¬(_ && knownTask e.tasks m.taskId &&
        !claimedFor e.tasks m.taskId payee.receiptSignature) = true
      cases hknown : knownTask e.tasks m.taskId with
      | false => simp
      | true => simp [hclaim hknown]
    · show ¬(_ && decide (settlementRowsFor e.tasks m.taskId ≠ [])) = true
      simp [hunsettled]
  obtain ⟨t, hinsert⟩ := hinsert
  refine ⟨(feeOf rate m.grossAmount, netOf rate m.grossAmount), { e with
    federation := e.federation ++ [inboundRow rate m payee]
    credits := e.credits ++ creditRows (inboundRow rate m payee) payee.workerId }, ?_,
    mem_append_right _ (mem_singleton.mpr rfl)⟩
  have hrecord : recordInboundFederatedSettlement (inboundRow rate m payee) payee.workerId e =
      .ok (true, { e with
        federation := e.federation ++ [inboundRow rate m payee]
        credits := e.credits ++ creditRows (inboundRow rate m payee) payee.workerId }) := by
    unfold recordInboundFederatedSettlement
    rw [if_neg (by simp [inboundRow]),
      show (e.allocations.find? fun a => a.1 = (inboundRow rate m payee).taskId) = none from hfind]
    refine (if_neg (Bool.eq_false_iff.mp hkey)).trans ?_
    rw [if_neg (Bool.eq_false_iff.mp hfrozen), hinsert]
    exact if_neg (Bool.eq_false_iff.mp hid)
  unfold recordSettlement
  rw [hrecord, hkey]
  rfl

theorem Core.settledByForwarder (h : Core H s) (hb : Booked s.executor) : SettledByForwarder H s where
  credited := hb.credits
  named row hrow w hw := by
    rcases h.rows row hrow with hin | hout
    · obtain ⟨⟨p, hp, hid, hagent⟩, hanswer⟩ := hin.worker w hw
      exact ⟨⟨p, hp, hid, hin.forwarder p hp hid, hagent⟩, hanswer⟩
    · rw [hout.agent] at hw
      cases hw
  foreign row hrow hdown := by
    rcases h.rows row hrow with hin | hout
    · exact hin.foreign
    · have hsome := hout.downstream
      rw [hdown] at hsome
      cases hsome
  taken p hp m payee htask hpeer hmint hfrozen halloc hown hclaim hself := by
    refine recordSettlement_takes hfrozen halloc hown hclaim fun r hr => ?_
    -- another peer's row has another task and another id
    by_cases hup : r.upstreamRelayId = p.peer
    · exact hself r hr hup
    rcases h.rows r hr with hin | hout
    · refine ⟨fun hid => hup ?_, fun hid => hup ?_⟩
      · exact (hin.forwarder p hp (htask.symm.trans hid.symm)).symm
      · rw [← hin.minted, hid]
        exact hmint
    · refine ⟨fun hid => (h.placed p hp).2.1 ?_, fun hid => hup ?_⟩
      · rw [← htask, ← hid]
        exact hout.own
      · rw [hout.upstream, ← hout.minted, hid]
        exact hmint

/-- **Only the relay that forwarded a task settles it**, in every run without a trespass. -/
theorem settled_by_forwarder (H : Host) {c : Config Hosted HostWait HostHeard}
    (hreach : (host H).Reachable c) (htrespass : c.store.trespassed = false) :
    SettledByForwarder H c.store := by
  have hinv : HostInv H c.store := Protocol.sound hosting_verified hreach
  exact (hinv.core htrespass).settledByForwarder hinv.booked

/-! ## §8. A stranger

Relay `A` forwards a task to `B` for `worker`, who answers it.  The settlement that reaches `B`
first is relay `C`'s. -/

def stand : Host := ⟨"B", 0, ⟨10, 10, 100⟩, fun id => if id = "s-A" then "A" else "C"⟩

def vacantExecutor : Executor where
  now := 0
  frozen := false
  queue := ∅
  submitters _ := ""
  answers _ := none
  relaySettlements := []
  federation := []
  credits := []
  routes := []
  taskRoutesEpoch := none
  issued := []
  allocations := []
  idempotencyTasks := []
  receipts := []
  proofClaims _ := none

def guestTask : ForwardedTask := ⟨"task", "A", "worker", none, [], none⟩

def guestReceipt : ExecutionReceipt :=
  ⟨"worker", "task", none, none, .completed, "hash", "", "signature"⟩

/-- The entry once the worker answered. -/
def guestEntry : TaskQueueEntry :=
  (takeAnswer guestReceipt .resultPost 0 (forwardedEntry guestTask 0 100)).atVersion 1

/-- `A`'s task is here and answered. -/
def answeredGuest : Hosted where
  executor := { vacantExecutor with
    queue := (∅ : Keyed String TaskQueueEntry).insert "task" guestEntry
    submitters := Function.update (fun _ => "") "task" "relay:A"
    answers := Function.update (fun _ => none) "task" (some (archived 0 guestEntry guestReceipt))
    routes := [⟨"task", "worker", "", .inboundForward, "A"⟩]
    issued := ["task"] }
  forwarded := [⟨"task", "A", "worker"⟩]
  admitted := []
  checked := [("task", guestReceipt)]
  answered := [("task", guestReceipt)]
  trespassed := false

theorem answeredGuest_walk : ∃ q, Walk (host stand) (taskForward stand guestTask false).detach
    ⟨vacantExecutor, [], [], [], [], false⟩ q answeredGuest :=
  ⟨_, .await (x := none) rfl <| .await (x := true) rfl <| .atomic <|
    .env (.check _ "task" guestReceipt .resultPost rfl) <|
    .env (.answer _ "task" guestReceipt .resultPost 0 none "key" _ _ (by simp) rfl) .refl⟩

theorem answeredGuest_reachable : ∃ c, (host stand).Reachable c ∧ c.store = answeredGuest := by
  have hinit : (host stand).Reachable ⟨⟨vacantExecutor, [], [], [], [], false⟩, fun _ => none, 0⟩ :=
    .init _ ⟨rfl, rfl, rfl, rfl, rfl, ⟨rfl, rfl, rfl, rfl⟩, rfl⟩
  obtain ⟨q, hwalk⟩ := answeredGuest_walk
  obtain ⟨c, hreach, hstore, -⟩ := hwalk.beside hinit (.task guestTask false)
  exact ⟨c, hreach, hstore⟩

/-- A settlement of the answered task, sent by `peer`. -/
def settlementOf (peer settlementId : String) (gross : Int) : VerifiedSettlement :=
  ⟨"task", settlementId, peer, gross, "hash"⟩

def guestPayee : Payee := ⟨some "worker", some "signature"⟩

def settledGuest (m : VerifiedSettlement) : Hosted :=
  { answeredGuest with
    executor := { answeredGuest.executor with
      federation := [inboundRow 0 m guestPayee]
      credits := creditRows (inboundRow 0 m guestPayee) (some "worker") }
    trespassed := stand.trespass m guestPayee answeredGuest }

theorem settledGuest_reachable (peer settlementId : String) (gross : Int) (hpeer : peer ≠ "")
    (hid : settlementId ≠ "") : ∃ c, (host stand).Reachable c ∧
      c.store = settledGuest (settlementOf peer settlementId gross) := by
  obtain ⟨c, hreach, hstore⟩ := answeredGuest_reachable
  have hwalk : ∃ q, Walk (host stand)
      (settlementReceived stand (settlementOf peer settlementId gross)).detach c.store q
      (settledGuest (settlementOf peer settlementId gross)) := by
    have hfields : ¬("task" = "" ∨ settlementId = "" ∨ peer = "") := by
      simp [hpeer, hid]
    rw [hstore]
    unfold settlementReceived
    rw [show (if (settlementOf peer settlementId gross).taskId = "" ∨
      (settlementOf peer settlementId gross).settlementId = "" ∨
      (settlementOf peer settlementId gross).originRelay = "" then _ else _) = _ from if_neg hfields]
    exact ⟨_, .await (x := none) rfl <| .atomic <| .await (x := none) rfl <| .atomic <| .refl⟩
  obtain ⟨q, hwalk⟩ := hwalk
  obtain ⟨c', hreach', hstore', -⟩ := hwalk.beside hreach (.settlement _)
  exact ⟨c', hreach', hstore'⟩

/-- **A stranger settles first**: the worker is paid one unit on the word of relay `C`, and the
    settlement of relay `A`, who forwarded the task, is refused. -/
theorem stranger_settles_first : ∃ c, (host stand).Reachable c ∧
    c.store.forwarded = [⟨"task", "A", "worker"⟩] ∧
    (∃ row ∈ c.store.executor.federation, row.taskId = "task" ∧ row.agentId = some "worker" ∧
      row.upstreamRelayId = "C" ∧
      ∃ credit ∈ c.store.executor.credits, credit.referenceId = row.settlementId) ∧
    recordSettlement 0 (settlementOf "A" "s-A" 10) guestPayee c.store.executor =
      .error (.queue (.oneSettlementTrigger .relayFederationSettlements)) ∧
    ¬SettledByForwarder stand c.store := by
  obtain ⟨c, hreach, hstore⟩ := settledGuest_reachable "C" "s-C" 1 (by decide) (by decide)
  refine ⟨c, hreach, ?_, ?_, ?_, fun hlaw => ?_⟩
  · rw [hstore]
    rfl
  · rw [hstore]
    exact ⟨inboundRow 0 (settlementOf "C" "s-C" 1) guestPayee, mem_singleton.mpr rfl, rfl, rfl,
      rfl, by decide +kernel⟩
  · rw [hstore]
    rfl
  · rw [hstore] at hlaw
    obtain ⟨⟨p, hp, -, hpeer, -⟩, -⟩ := hlaw.named (inboundRow 0 (settlementOf "C" "s-C" 1) guestPayee)
      (mem_singleton.mpr rfl) "worker" rfl
    rw [mem_singleton.mp hp] at hpeer
    exact absurd hpeer (by decide)

theorem settled_by_forwarder_credited : ∃ c, (host stand).Reachable c ∧
    c.store.trespassed = false ∧ c.store.executor.credits ≠ [] ∧
    SettledByForwarder stand c.store := by
  obtain ⟨c, hreach, hstore⟩ := settledGuest_reachable "A" "s-A" 10 (by decide) (by decide)
  have hclean : c.store.trespassed = false := by
    rw [hstore]
    decide +kernel
  refine ⟨c, hreach, hclean, ?_, settled_by_forwarder stand hreach hclean⟩
  rw [hstore]
  decide +kernel

end Motebit.Federation
