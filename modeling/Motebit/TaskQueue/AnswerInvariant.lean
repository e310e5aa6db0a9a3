/-
  Motebit.TaskQueue.AnswerInvariant — AN ANSWER AND ITS SETTLEMENT ARE ONE DECISION.

  The write that takes an answer claims its settlement, so an answered entry is a claimed one;
  the archive holds the live answer; and the settlement guards admit one row, for the claimed
  receipt.

  Main results: `Inv`, `Moves`, `Inv.write`, `markTaskSettled_inv`, `claimStoredAnswer_inv`,
  `insertSettlement_inv`, `background_inv`.
-/

import Motebit.TaskQueue.Answer

namespace Motebit.TaskQueue

open Motebit.Lib List Function

/-! ## §1. Specifications of the writes -/

variable {s s' : Store} {r : ExecutionReceipt} {e cur : TaskQueueEntry} {door : AnswerDoor}
  {taskId : String} {entry : TaskQueueEntry}

theorem writeRow_ok {v expected : Nat} (h : writeRow taskId entry v expected s = .ok (true, s')) :
    ∃ old, s.get taskId = some old ∧ old.answerVersion = expected ∧
      s' = s.put taskId (entry.atVersion v) := by
  unfold writeRow at h
  split at h
  · cases h
  next old hold =>
  split at h
  · rename_i hver
    dsimp only at h
    split at h
    · cases h
    split at h
    · cases h
    · cases h
      exact ⟨old, hold, hver, rfl⟩
  · cases h

def archiveWritten (taskId : String) (new : TaskQueueEntry) (now : Nat) (s : Store) : Store :=
  match new.receipt with
  | none => s
  | some receipt => archiveAnswer taskId (archived now new receipt) s

/-- **`writeAnswer`**: nothing, or the mutated entry one version on, archived. -/
theorem writeAnswer_ok {v : Nat} {f : TaskQueueEntry → TaskQueueEntry}
    {r : Option TaskQueueEntry} (h : writeAnswer taskId v f s = .ok (r, s')) : (r = none ∧ s' = s) ∨
      ∃ cur, s.get taskId = some cur ∧ cur.answerVersion = v ∧
        r = some ((f cur).atVersion (v + 1)) ∧
        s' = archiveWritten taskId ((f cur).atVersion (v + 1)) s.now
          (s.put taskId ((f cur).atVersion (v + 1))) := by
  unfold writeAnswer at h
  split at h
  · cases h
    exact .inl ⟨rfl, rfl⟩
  next cur hcur =>
  split at h
  · cases h
    exact .inl ⟨rfl, rfl⟩
  next hver =>
  have hver' : cur.answerVersion = v := not_not.mp hver
  dsimp only at h
  split at h
  · cases h
  · cases h
    exact .inl ⟨rfl, rfl⟩
  · rename_i s₁ hwrite
    obtain ⟨_, -, -, rfl⟩ := writeRow_ok hwrite
    refine .inr ⟨cur, hcur, hver', ?_⟩
    unfold archiveWritten
    split at h
    · rename_i hnone
      cases h
      have hf : (f cur).receipt = none := hnone
      simp [hf]
    · rename_i receipt hsome
      cases h
      have hf : (f cur).receipt = some receipt := hsome
      simp [hf]

/-- `markTaskSettled` leaves the store, or writes over the claimed receipt. -/
theorem markTaskSettled_ok {sig : String} {u : Unit}
    (h : markTaskSettled taskId sig s = .ok (u, s')) : s' = s ∨ ∃ cur r,
      s.get taskId = some cur ∧ cur.settling = some sig ∧ writeAnswer taskId cur.answerVersion
        (fun e => { e with settled := some true, settling := some sig }) s = .ok (r, s') := by
  unfold markTaskSettled at h
  split at h
  · cases h
    exact .inl rfl
  next cur hcur =>
  split at h
  · cases h
    exact .inl rfl
  split at h
  · cases h
    exact .inl rfl
  next hclaim =>
  obtain ⟨r, hw, h⟩ := Throws.bind_eq_ok.mp h
  cases h
  exact .inr ⟨cur, r.1, hcur, not_not.mp hclaim, hw⟩

/-- `claimStoredAnswer` leaves the store, or writes the claim of an unclaimed receipt. -/
theorem claimStoredAnswer_ok {e : Option TaskQueueEntry}
    (h : claimStoredAnswer taskId door s = .ok (e, s')) :
    (s' = s ∧ ∀ entry, e = some entry → s.get taskId = some entry) ∨ ∃ cur stored r,
      s.get taskId = some cur ∧ cur.receipt = some stored ∧ ¬isClaimed cur = true ∧
        writeAnswer taskId cur.answerVersion (claimAnswer stored.signature door) s = .ok (r, s') ∧
        e = r.or (s'.get taskId) := by
  unfold claimStoredAnswer at h
  split at h
  · cases h
    exact .inl ⟨rfl, fun _ he => by cases he⟩
  next cur hcur =>
  split at h
  · cases h
    exact .inl ⟨rfl, fun _ he => by cases he⟩
  next stored hstored =>
  split at h
  · cases h
    exact .inl ⟨rfl, fun _ he => hcur.trans he⟩
  next hclaimed =>
  obtain ⟨r, hw, h⟩ := Throws.bind_eq_ok.mp h
  cases h
  exact .inr ⟨cur, stored, r.1, hcur, hstored, hclaimed, hw, rfl⟩

/-- **`set`**: a new entry inserted unanswered, or the entry's non-answer fields. -/
theorem set_ok (h : set taskId entry s = .ok s') :
    (s.get taskId = none ∧ entry.receipt = none ∧ entry.settling = none ∧ entry.settled = none ∧
      s' = { s.put taskId entry with issued := taskId :: s.issued }) ∨
    ∃ stored, s.get taskId = some stored ∧ answerOf entry = answerOf stored ∧
      entry.answerVersion = stored.answerVersion ∧ s' = s.put taskId entry := by
  unfold set at h
  split at h
  · rename_i hnone
    split at h
    · cases h
    split at h
    · cases h
    next hun =>
    cases h
    simp only [Bool.or_eq_true, not_or, Bool.not_eq_true, Option.isSome_eq_false_iff,
      Option.isNone_iff_eq_none] at hun
    obtain ⟨⟨⟨hr, -⟩, hs⟩, hd⟩ := hun
    exact .inl ⟨hnone, hr, hs, hd, rfl⟩
  · rename_i stored hstored
    split at h
    · cases h
    next hver =>
    split at h
    · cases h
    next hans =>
    have hver' : entry.answerVersion = stored.answerVersion := not_not.mp hver
    have hans' : answerOf entry = answerOf stored := not_not.mp hans
    refine .inr ⟨stored, hstored, hans', hver', ?_⟩
    cases hwrite : writeRow taskId entry stored.answerVersion stored.answerVersion s with
    | error =>
      rw [hwrite] at h
      cases h
    | ok r =>
      obtain ⟨b, s₁⟩ := r
      rw [hwrite] at h
      cases h
      cases b with
      | true =>
        obtain ⟨_, -, -, rfl⟩ := writeRow_ok hwrite
        rw [← hver']
        rfl
      | false =>
        -- the row is there at the version just read, so it was written
        unfold writeRow at hwrite
        rw [hstored] at hwrite
        dsimp only at hwrite
        rw [if_pos rfl] at hwrite
        split at hwrite
        · cases hwrite
        · split at hwrite <;> cases hwrite

/-! ## §2. The invariant -/

/-- An entry's answer is claimed in the write that takes it. -/
structure EntryOk (e : TaskQueueEntry) : Prop where
  claimed : ∀ r, e.receipt = some r → e.settling = some r.signature ∧ r.signature ≠ ""
  unanswered : e.receipt = none → e.settling = none ∧ e.settled = none

def ArchivedAs (e : TaskQueueEntry) (a : Option TaskAnswer) : Prop :=
  (e.receipt = none → a = none) ∧
    ∀ r, e.receipt = some r → ∃ answeredAt, a = some (archived answeredAt e r)

structure Inv (s : Store) : Prop where
  known : ∀ id, (s.get id).isSome → id ∈ s.issued
  nonempty : ∀ id ∈ s.issued, id ≠ ""
  entries : ∀ id e, s.get id = some e → EntryOk e ∧ ArchivedAs e (s.answers id)
  unissued : ∀ id, id ∉ s.issued → s.answers id = none
  answers : ∀ id a, s.answers id = some a → a.settling = some a.receipt.signature
  paidOnce : ∀ id, (settlementRowsFor s id).length ≤ 1
  paid : ∀ id, ∀ row ∈ settlementRowsFor s id,
    ∃ a, s.answers id = some a ∧ row.receiptSignature = a.settling

/-- What every step does: ids are never forgotten and an entry gone stays gone; a claimed answer
    and its claim stay while the entry is queued; an archived answer stays archived. -/
structure Moves (s s' : Store) : Prop where
  issued : ∀ id ∈ s.issued, id ∈ s'.issued
  gone : ∀ id ∈ s.issued, s.get id = none → s'.get id = none
  frozen : ∀ id e e', s.get id = some e → s'.get id = some e' → e.settling ≠ none →
    e'.receipt = e.receipt ∧ e'.settling = e.settling
  answered : ∀ id, s.answers id ≠ none → s'.answers id ≠ none

theorem Moves.refl (s : Store) : Moves s s where
  issued _ hid := hid
  gone _ _ hnone := hnone
  frozen _ e e' he he' _ := by
    rw [he] at he'
    cases he'
    exact ⟨rfl, rfl⟩
  answered _ ha := ha

theorem inv_empty (now : Nat) (epoch : Option Nat) : Inv (Store.empty now epoch) where
  known id h := by cases h
  nonempty id h := by cases h
  entries id e h := by cases h
  unissued id _ := rfl
  answers id a h := by cases h
  paidOnce id := Nat.zero_le 1
  paid id row h := by cases h

variable {id : String}

theorem Inv.unpaid (hi : Inv s) (h : s.get id = some e) (hr : e.receipt = none) :
    settlementRowsFor s id = [] := by
  cases hrows : settlementRowsFor s id with
  | nil => rfl
  | cons row =>
    obtain ⟨a, ha, -⟩ := hi.paid id row (hrows ▸ mem_cons_self)
    rw [(hi.entries id e h).2.1 hr] at ha
    cases ha

theorem EntryOk.receipt (he : EntryOk e) {sig : String} (h : e.settling = some sig) :
    ∃ r, e.receipt = some r ∧ r.signature = sig ∧ sig ≠ "" := by
  cases hr : e.receipt with
  | none =>
    rw [(he.unanswered hr).1] at h
    cases h
  | some r =>
    obtain ⟨hclaim, hne⟩ := he.claimed r hr
    rw [hclaim] at h
    cases h
    exact ⟨r, rfl, rfl, hne⟩

/-! ## §3. Steps that write no answer -/

theorem Inv.shrink {q : Keyed String TaskQueueEntry} (hi : Inv s)
    (hq : ∀ id e, q.lookup id = some e → s.get id = some e) :
    Inv { s with queue := q } ∧ Moves s { s with queue := q } := by
  refine ⟨{ hi with known := ?_, entries := fun id e he => hi.entries id e (hq id e he) }, ⟨fun _ hid => hid, ?_, ?_, fun _ ha => ha⟩⟩
  · intro id hsome
    obtain ⟨e, he⟩ := Option.isSome_iff_exists.mp hsome
    exact hi.known id (by rw [hq id e he]; rfl)
  · intro id _ hnone
    show q.lookup id = none
    cases he : q.lookup id with
    | none => rfl
    | some e =>
      rw [hq id e he] at hnone
      cases hnone
  · intro id e e' he he' _
    rw [hq id e' he'] at he
    cases he
    exact ⟨rfl, rfl⟩

theorem Inv.update {stored entry : TaskQueueEntry} (hi : Inv s)
    (hget : s.get taskId = some stored) (hans : answerOf entry = answerOf stored)
    (hver : entry.answerVersion = stored.answerVersion) :
    Inv (s.put taskId entry) ∧ Moves s (s.put taskId entry) := by
  simp only [answerOf, Prod.mk.injEq] at hans
  obtain ⟨hr, -, hs, hd⟩ := hans
  have harch : ∀ at_ r, archived at_ entry r = archived at_ stored r := by
    intro at_ r
    simp only [archived, hs, hd, hver]
  obtain ⟨hok, hnone, hsome⟩ := hi.entries taskId stored hget
  refine ⟨{ hi with known := ?_, entries := ?_ }, ⟨fun _ hid => hid, ?_, ?_, fun _ ha => ha⟩⟩
  · intro id hget'
    by_cases heq : id = taskId
    · subst heq
      exact hi.known id (by rw [hget]; rfl)
    · rw [s.get_put_ne entry heq] at hget'
      exact hi.known id hget'
  · intro id e he
    by_cases heq : id = taskId
    · subst heq
      rw [s.get_put_self] at he
      cases he
      refine ⟨⟨fun r h => ?_, fun h => ?_⟩, fun h => hnone (hr ▸ h), fun r h => ?_⟩
      · rw [hs]
        exact hok.claimed r (hr ▸ h)
      · rw [hs, hd]
        exact hok.unanswered (hr ▸ h)
      · obtain ⟨at_, ha⟩ := hsome r (hr ▸ h)
        exact ⟨at_, by rw [harch]; exact ha⟩
    · rw [s.get_put_ne entry heq] at he
      exact hi.entries id e he
  · intro id _ hget'
    by_cases heq : id = taskId
    · rw [heq, hget] at hget'
      cases hget'
    · rw [s.get_put_ne entry heq]
      exact hget'
  · intro id e e' he he' _
    by_cases heq : id = taskId
    · subst heq
      rw [s.get_put_self] at he'
      rw [hget] at he
      cases he
      cases he'
      exact ⟨hr, hs⟩
    · rw [s.get_put_ne entry heq, he] at he'
      cases he'
      exact ⟨rfl, rfl⟩

theorem Inv.enqueue (hi : Inv s) (hid : taskId ≠ "")
    (hnew : taskId ∉ s.issued) (hr : entry.receipt = none) (hs : entry.settling = none)
    (hd : entry.settled = none) : Inv { s.put taskId entry with issued := taskId :: s.issued } ∧
      Moves s { s.put taskId entry with issued := taskId :: s.issued } := by
  have hne : ∀ id ∈ s.issued, id ≠ taskId := fun id h heq => hnew (heq ▸ h)
  have hget : ∀ id, id ≠ taskId →
      ({ s.put taskId entry with issued := taskId :: s.issued } : Store).get id = s.get id :=
    fun id h => s.get_put_ne entry h
  have hself : ({ s.put taskId entry with issued := taskId :: s.issued } : Store).get taskId =
      some entry := s.get_put_self taskId entry
  refine ⟨⟨?_, ?_, ?_, ?_, hi.answers, hi.paidOnce, hi.paid⟩, ⟨?_, ?_, ?_, fun _ ha => ha⟩⟩
  · intro id h
    by_cases heq : id = taskId
    · rw [heq]
      exact mem_cons_self
    · rw [hget id heq] at h
      exact mem_cons_of_mem _ (hi.known id h)
  · exact forall_mem_cons.mpr ⟨hid, hi.nonempty⟩
  · intro id e he
    by_cases heq : id = taskId
    · subst heq
      rw [hself] at he
      cases he
      refine ⟨⟨fun r h => ?_, fun _ => ⟨hs, hd⟩⟩, fun _ => hi.unissued id hnew, fun r h => ?_⟩
      · rw [hr] at h
        cases h
      · rw [hr] at h
        cases h
    · rw [hget id heq] at he
      exact hi.entries id e he
  · intro id h
    exact hi.unissued id fun hold => h (mem_cons_of_mem _ hold)
  · exact fun id h => mem_cons_of_mem _ h
  · intro id h hnone
    rw [hget id (hne id h)]
    exact hnone
  · intro id e e' he he' _
    have hknown := hi.known id (by rw [he]; rfl)
    rw [hget id (hne id hknown), he] at he'
    cases he'
    exact ⟨rfl, rfl⟩

/-- **The background keeps the invariant.** -/
theorem background_inv (hi : Inv s) (h : Background s s') : Inv s' ∧ Moves s s' := by
  cases h with
  | tick | route =>
    exact ⟨{ hi with }, ⟨fun _ h => h, fun _ _ h => h, (Moves.refl s).frozen, fun _ h => h⟩⟩
  | enqueue _ taskId entry hid hnew hset =>
    rcases set_ok hset with ⟨-, hr, hs, hd, rfl⟩ | ⟨stored, hstored, -⟩
    · exact hi.enqueue hid hnew hr hs hd
    · exact absurd (hi.known taskId (by rw [hstored]; rfl)) hnew
  | update _ taskId entry hqueued hset =>
    rcases set_ok hset with ⟨hnone, -⟩ | ⟨stored, hstored, hans, hver, rfl⟩
    · rw [hnone] at hqueued
      cases hqueued
    · exact hi.update hstored hans hver
  | cleanup =>
    exact hi.shrink (q := (cleanup s.now s).queue) fun id e he => get_of_cleanup he
  | evict maxSize =>
    exact hi.shrink (q := (evict maxSize s).queue) fun id e he => get_of_evict he

/-! ## §4. Answers -/

variable {new : TaskQueueEntry}

theorem Inv.archive (hi : Inv s) (hcur : s.get taskId = some cur) (hnew : new.receipt = some r)
    (hver : new.answerVersion = cur.answerVersion + 1) :
    archiveWritten taskId new s.now (s.put taskId new) =
      { s.put taskId new with
        answers := Function.update s.answers taskId (some (archived s.now new r)) } := by
  unfold archiveWritten archiveAnswer
  rw [hnew]
  have hans : (s.put taskId new).answers = s.answers := rfl
  rw [hans]
  obtain ⟨-, hnone, hsome⟩ := hi.entries taskId cur hcur
  cases hr : cur.receipt with
  | none => rw [hnone hr]
  | some old =>
    obtain ⟨at_, ha⟩ := hsome old hr
    rw [ha]
    dsimp only
    rw [if_pos]
    show cur.answerVersion < new.answerVersion
    omega

/-- **The one way an answer is written**: over an unanswered entry, or over the same receipt. -/
theorem Inv.write (hi : Inv s) (hcur : s.get taskId = some cur) (hnew : new.receipt = some r)
    (hclaim : new.settling = some r.signature) (hsig : r.signature ≠ "")
    (hver : new.answerVersion = cur.answerVersion + 1)
    (hkeep : cur.receipt = none ∨ cur.receipt = some r) :
    Inv (archiveWritten taskId new s.now (s.put taskId new)) ∧
      Moves s (archiveWritten taskId new s.now (s.put taskId new)) ∧
      (archiveWritten taskId new s.now (s.put taskId new)).answers taskId ≠ none := by
  rw [hi.archive hcur hnew hver]
  have hself : ({ s.put taskId new with
      answers := Function.update s.answers taskId (some (archived s.now new r)) } : Store).get taskId
      = some new := s.get_put_self taskId new
  have hother : ∀ id, id ≠ taskId → ({ s.put taskId new with
      answers := Function.update s.answers taskId (some (archived s.now new r)) } : Store).get id
      = s.get id := fun id h => s.get_put_ne new h
  refine ⟨⟨?_, hi.nonempty, ?_, ?_, ?_, hi.paidOnce, ?_⟩, ⟨fun _ h => h, ?_, ?_, ?_⟩, ?_⟩
  · intro id h
    by_cases heq : id = taskId
    · subst heq
      exact hi.known id (by rw [hcur]; rfl)
    · rw [hother id heq] at h
      exact hi.known id h
  · intro id e he
    by_cases heq : id = taskId
    · subst heq
      rw [hself] at he
      cases he
      dsimp only
      rw [update_self]
      refine ⟨⟨fun r' h => ?_, fun h => ?_⟩, fun h => ?_, fun r' h => ?_⟩
      · rw [hnew] at h
        cases h
        exact ⟨hclaim, hsig⟩
      · rw [hnew] at h
        cases h
      · rw [hnew] at h
        cases h
      · rw [hnew] at h
        cases h
        exact ⟨s.now, rfl⟩
    · rw [hother id heq] at he
      dsimp only
      rw [update_of_ne heq]
      exact hi.entries id e he
  · intro id h
    have hne : id ≠ taskId := by
      rintro rfl
      exact h (hi.known id (by rw [hcur]; rfl))
    dsimp only
    rw [update_of_ne hne]
    exact hi.unissued id h
  · intro id a ha
    by_cases heq : id = taskId
    · subst heq
      dsimp only at ha
      rw [update_self] at ha
      cases ha
      exact hclaim
    · dsimp only at ha
      rw [update_of_ne heq] at ha
      exact hi.answers id a ha
  · -- a row that names the task names the receipt it was claimed for already
    intro id row hrow
    by_cases heq : id = taskId
    · subst heq
      refine ⟨archived s.now new r, update_self .., ?_⟩
      rcases hkeep with hnone | hsame
      · have hempty : settlementRowsFor s id = [] := hi.unpaid hcur hnone
        have hmem : row ∈ settlementRowsFor s id := hrow
        rw [hempty] at hmem
        cases hmem
      · obtain ⟨a, ha, hrowsig⟩ := hi.paid id row hrow
        obtain ⟨hok, -, hsome⟩ := hi.entries id cur hcur
        obtain ⟨at_, ha'⟩ := hsome r hsame
        rw [ha'] at ha
        cases ha
        show row.receiptSignature = new.settling
        rw [hrowsig, hclaim]
        exact (hok.claimed r hsame).1
    · obtain ⟨a, ha, hrowsig⟩ := hi.paid id row hrow
      exact ⟨a, (update_of_ne heq ..).trans ha, hrowsig⟩
  · intro id _ hnone
    by_cases heq : id = taskId
    · rw [heq, hcur] at hnone
      cases hnone
    · rw [hother id heq]
      exact hnone
  · intro id e e' he he' hs
    by_cases heq : id = taskId
    · subst heq
      rw [hself] at he'
      rw [hcur] at he
      cases he
      cases he'
      obtain ⟨hok, -⟩ := hi.entries id cur hcur
      rcases hkeep with hnone | hsame
      · exact absurd (hok.unanswered hnone).1 hs
      · refine ⟨hnew.trans hsame.symm, ?_⟩
        rw [hclaim]
        exact (hok.claimed r hsame).1.symm
    · rw [hother id heq, he] at he'
      cases he'
      exact ⟨rfl, rfl⟩
  · intro id ha
    by_cases heq : id = taskId
    · subst heq
      dsimp only
      rw [update_self]
      exact Option.some_ne_none _
    · dsimp only
      rw [update_of_ne heq]
      exact ha
  · dsimp only
    rw [update_self]
    exact Option.some_ne_none _

/-- The step keeps the invariant, and its result says the task is archived if it took. -/
def Takes (taskId : String) (s : Store) (v : AnswerVerdict) (s' : Store) : Prop :=
  Inv s' ∧ Moves s s' ∧ ∀ entry first replaced repeated key,
    v = .took entry first replaced repeated key → s'.answers taskId ≠ none

section

variable (hi : Inv s)
include hi

theorem Takes.refused (refusal : AnswerRefusal)
    (answer : Option ExecutionReceipt) : Takes taskId s (.refused refusal answer) s :=
  ⟨hi, Moves.refl s, fun _ _ _ _ _ h => by cases h⟩

theorem Inv.answered (h : s.get id = some e) (hr : e.receipt = some r) : s.answers id ≠ none := by
  obtain ⟨-, -, hsome⟩ := hi.entries id e h
  obtain ⟨at_, ha⟩ := hsome r hr
  rw [ha]
  exact Option.some_ne_none _

/-- **An answered entry is frozen.** -/
theorem frozen_of_answered (h : s.get id = some e)
    (hr : e.receipt = some r) : isClaimed e = true ∧ answerFrozen s e id = true := by
  obtain ⟨hclaim, hne⟩ := (hi.entries id e h).1.claimed r hr
  have hclaimed : isClaimed e = true := by
    unfold isClaimed
    rw [hclaim]
    exact decide_eq_true hne
  refine ⟨hclaimed, ?_⟩
  unfold answerFrozen
  rw [hclaimed]
  simp

variable {receipt : ExecutionReceipt} {v : AnswerVerdict}

theorem applyRule_takes {taskId key : String} {retainMs : Nat} (hcur : s.get taskId = some cur)
    (hsig : receipt.signature ≠ "")
    (h : applyRule taskId receipt door retainMs key cur s = .ok (v, s')) : Takes taskId s v s' := by
  unfold applyRule at h
  cases hr : cur.receipt with
  | some prior =>
    -- answered, so frozen: a repeat, or refused
    obtain ⟨hclaimed, hfrozen⟩ := frozen_of_answered hi hcur hr
    rw [hr, hfrozen] at h
    unfold answerRule at h
    dsimp only at h
    split at h
    · rename_i hrule
      cases h
      exact .refused hi _ _
    · rename_i hrule
      split at h
      · rename_i hopen
        rw [(((hi.entries taskId cur hcur).1.claimed prior hr).1)] at hopen
        cases hopen.2
      · cases h
        exact ⟨hi, Moves.refl s, fun _ _ _ _ _ _ => hi.answered hcur hr⟩
    · rename_i hna hnr
      by_cases hsame : prior.signature = receipt.signature ∧ prior.motebitId = receipt.motebitId
      · exact absurd (if_pos hsame) hnr
      · rw [if_neg hsame] at hna
        exact absurd rfl hna
  | none =>
    rw [hr] at h
    unfold answerRule at h
    by_cases hfrozen : answerFrozen s cur taskId = true
    · rw [if_pos hfrozen] at h
      cases h
      exact .refused hi _ _
    · rw [if_neg hfrozen] at h
      obtain ⟨⟨written, s₁⟩, hw, hrest⟩ := Throws.bind_eq_ok.mp h
      rcases writeAnswer_ok hw with ⟨rfl, rfl⟩ | ⟨cur', hcur', hver, rfl, rfl⟩
      · cases hrest
        exact .refused hi _ _
      · cases hrest
        rw [hcur] at hcur'
        cases hcur'
        have hreceipt : ((takeAnswer receipt door (s.now + retainMs) cur).atVersion
            (cur.answerVersion + 1)).receipt = some receipt := rfl
        obtain ⟨hinv, hm, hans⟩ := hi.write hcur hreceipt rfl hsig rfl (.inl hr)
        exact ⟨hinv, hm, fun _ _ _ _ _ _ => hans⟩

/-- **The write step of `answerTask`.** -/
theorem answerWrite_takes {taskId key : String} {retainMs : Nat}
    {presenter : Option AnswerPresenter} (hsig : receipt.signature ≠ "")
    (h : answerWrite taskId receipt door retainMs presenter key s = .ok (v, s')) :
    Takes taskId s v s' := by
  unfold answerWrite at h
  split at h
  · cases h
    exact .refused hi _ _
  next cur hcur =>
  split at h
  · cases h
    exact .refused hi _ _
  split at h
  · rename_i hadopt
    -- no settlement row can name an unanswered task
    exact absurd (hi.unpaid hcur hadopt.1) hadopt.2
  · exact applyRule_takes hi hcur hsig h

/-- **Marking settled** writes only over the claimed receipt. -/
theorem markTaskSettled_inv {taskId sig : String} {u : Unit}
    (h : markTaskSettled taskId sig s = .ok (u, s')) : Inv s' ∧ Moves s s' := by
  rcases markTaskSettled_ok h with rfl | ⟨cur, _, hcur, hclaim, hw⟩
  · exact ⟨hi, Moves.refl s'⟩
  rcases writeAnswer_ok hw with ⟨rfl, rfl⟩ | ⟨cur', hcur', hver, rfl, rfl⟩
  · exact ⟨hi, Moves.refl _⟩
  · rw [hcur] at hcur'
    cases hcur'
    obtain ⟨r, hr, rfl, hne⟩ := (hi.entries taskId cur hcur).1.receipt hclaim
    have hreceipt : (TaskQueueEntry.atVersion { cur with
        settled := some true, settling := some r.signature }
        (cur.answerVersion + 1)).receipt = some r := hr
    obtain ⟨hinv, hm, -⟩ := hi.write hcur hreceipt rfl hne rfl (.inr hr)
    exact ⟨hinv, hm⟩

theorem claimStoredAnswer_inv {r : Option TaskQueueEntry}
    (h : claimStoredAnswer taskId door s = .ok (r, s')) : s' = s := by
  rcases claimStoredAnswer_ok h with ⟨heq, -⟩ | ⟨cur, stored, _, hcur, hstored, hclaimed, -⟩
  · exact heq
  · exact absurd (frozen_of_answered hi hcur hstored).1 hclaimed

theorem settleIfNamed_inv {taskId sig : String} {b : Bool}
    (h : settleIfNamed taskId sig s = .ok (b, s')) : Inv s' ∧ Moves s s' := by
  unfold settleIfNamed at h
  split at h
  · obtain ⟨r, hm, h⟩ := Throws.bind_eq_ok.mp h
    cases h
    exact markTaskSettled_inv hi hm
  · cases h
    exact ⟨hi, Moves.refl s⟩

end

/-! ## §5. Settlements -/

variable {table : SettlementTable} {row : SettlementRow}

/-- **`insertSettlement`**: the first row of its task, for the receipt the task is claimed
    for. -/
theorem insertSettlement_ok
    (h : insertSettlement table row s = .ok s') (hne : row.taskId ≠ "") :
    (knownTask s row.taskId = true → claimedFor s row.taskId row.receiptSignature = true) ∧
      s' = { s with
        settlements := s'.settlements, federationSettlements := s'.federationSettlements } ∧
      ∀ id, settlementRowsFor s' id =
        if id = row.taskId then [row] else settlementRowsFor s id := by
  unfold insertSettlement at h
  split at h
  · cases h
  next hfirst =>
  split at h
  · cases h
  next hclaim =>
  have hrows : settlementRowsFor s row.taskId = [] := by
    by_contra hsome
    exact hfirst (by simp [hne, hsome])
  have hclaim' : knownTask s row.taskId = true →
      claimedFor s row.taskId row.receiptSignature = true := by
    intro hk
    by_contra hc
    exact hclaim (by simp [hne, hk, hc])
  have hboth : s.settlements.filter (·.taskId = row.taskId) = [] ∧
      s.federationSettlements.filter (·.taskId = row.taskId) = [] := by
    have happend := hrows
    unfold settlementRowsFor at happend
    rwa [filter_append, append_eq_nil_iff] at happend
  refine ⟨hclaim', ?_⟩
  cases table with
  | relaySettlements | relayFederationSettlements =>
    cases h
    refine ⟨rfl, fun id => ?_⟩
    unfold settlementRowsFor
    rw [filter_append, filter_append, filter_append]
    by_cases heq : id = row.taskId
    · subst heq
      rw [hboth.1, hboth.2, if_pos rfl]
      simp
    · have hne' : ¬row.taskId = id := fun h => heq h.symm
      rw [if_neg heq]
      simp [hne']

theorem Inv.claimed_archive (hi : Inv s) {sig : Option String} {a : TaskAnswer}
    (ha : s.answers taskId = some a) (h : claimedFor s taskId sig = true) : a.settling = sig := by
  unfold claimedFor at h
  split at h
  · rename_i e he
    rw [Bool.and_eq_true] at h
    have hs : e.settling = sig := of_decide_eq_true h.2
    obtain ⟨-, hnone, hsome⟩ := hi.entries taskId e he
    cases hr : e.receipt with
    | none =>
      rw [hnone hr] at ha
      cases ha
    | some r =>
      obtain ⟨at_, ha'⟩ := hsome r hr
      rw [ha'] at ha
      cases ha
      exact hs
  · rw [Bool.and_eq_true] at h
    have hs : (s.answers taskId).bind (·.settling) = sig := of_decide_eq_true h.2
    rwa [ha] at hs

/-- **A settlement row of an archived task** keeps the invariant. -/
theorem insertSettlement_inv (hi : Inv s)
    (hans : s.answers row.taskId ≠ none) (h : insertSettlement table row s = .ok s') :
    Inv s' ∧ Moves s s' := by
  have hissued : row.taskId ∈ s.issued := by
    by_contra hnew
    exact hans (hi.unissued row.taskId hnew)
  obtain ⟨hclaim, hs', hrows⟩ := insertSettlement_ok h (hi.nonempty _ hissued)
  rw [hs'] at hrows ⊢
  refine ⟨{ hi with paidOnce := ?_, paid := ?_ }, { Moves.refl s with }⟩
  · intro id
    rw [hrows]
    split
    · exact Nat.le_refl 1
    · exact hi.paidOnce id
  · intro id r hr
    rw [hrows] at hr
    split at hr
    · next heq =>
        rw [mem_singleton.mp hr, heq]
        obtain ⟨a, ha⟩ := Option.ne_none_iff_exists'.mp hans
        have hknown : knownTask s row.taskId = true := by
          unfold knownTask
          rw [ha]
          simp
        exact ⟨a, ha, (hi.claimed_archive ha (hclaim hknown)).symm⟩
    · exact hi.paid id r hr

end Motebit.TaskQueue
