/-
  Motebit.Idempotency.Safety — ONE KEY, ONE TASK; ONE PAYMENT, ONE TASK, in every run.

  Main results: `key_admits_one_task`, `late_completion_overwrites`.
-/

import Motebit.Idempotency.Invariant

namespace Motebit.Idempotency

open Motebit.Lib Motebit.Lib.Protocol List

/-! ## §1. Requests -/

def protocol : Protocol relay where
  Inv := Inv
  Guar _ := Moves
  Fresh _ _ := True
  refl _ := .refl

variable {t : Nat} {L : Store → Prop} {E : Fault → Store → Prop}

theorem stable_of_moves (h : ∀ s s', Moves s s' → L s → L s') : protocol.Stable t L := by
  intro s s' _ _ hr hl
  rcases hr with ⟨_, _, hm⟩ | he
  · exact h s s' hm hl
  · exact h s s' (background_moves he) hl

/-- A row of the key, if there is one, was created at or after the request's own claim. -/
def Claimed (scope : Scope) (claimedAt : Nat) (s : Store) : Prop :=
  claimedAt ≤ s.now ∧ ∀ row, s.keys scope = some row → claimedAt ≤ row.createdAt

theorem Claimed.moves {scope : Scope} {claimedAt : Nat} {s s' : Store} (hm : Moves s s')
    (hl : Claimed scope claimedAt s) : Claimed scope claimedAt s' := by
  refine ⟨Nat.le_trans hl.1 hm.now, fun row' hrow' => ?_⟩
  have hmove := hm.rows scope
  rw [hrow'] at hmove
  rcases hmove.created with ⟨row, hrow, hcreated⟩ | hnow
  · have hage := hl.2 row hrow
    omega
  · have hage := hl.1
    omega

def Admitted (t : Nat) (scope : Scope) (claimedAt : Nat) (taskId : String) (s : Store) : Prop :=
  ⟨t, scope, claimedAt, taskId⟩ ∈ s.admissions

theorem admitted_stable {t : Nat} (scope : Scope) (claimedAt : Nat) (taskId : String) :
    protocol.Stable t (Admitted t scope claimedAt taskId) :=
  stable_of_moves fun _ _ hm hl => hm.admissions _ hl

theorem ask_ensures (r : Ask) (hL : protocol.Stable t L) :
    protocol.Ensures t (Task.ask r : Request (Reply r)) L (fun _ => L) E := by
  refine .ask (fun _ => hL) fun s a s' hi hl ha => ?_
  cases ha
  exact ⟨hi, Moves.refl s, hl⟩

theorem modify_ensures {Q : Store → Prop} {f : Store → Store} (hQ : protocol.Stable t Q)
    (h : ∀ s, Inv s → L s → Inv (f s) ∧ Moves s (f s) ∧ Q (f s)) :
    protocol.Ensures t (Task.modify f : Request Unit) L (fun _ => Q) E :=
  .act (fun _ => hQ) h

theorem release_ensures (scope : Scope) (hL : ∀ s s', Moves s s' → L s → L s') :
    protocol.Ensures t (Task.modify (releaseIdempotency scope) : Request Unit) L (fun _ => L) E := by
  refine modify_ensures (stable_of_moves hL) fun s hi hl => ?_
  have hm := release_moves scope s
  exact ⟨release_inv scope hi, hm, hL s _ hm hl⟩

theorem admitTask_ensures (t : Nat) (scope : Scope) (claimedAt : Nat) :
    protocol.Ensures t (admitTask t scope claimedAt) (Claimed scope claimedAt)
      (fun taskId => Admitted t scope claimedAt taskId) fun _ _ => True := by
  refine .bind (ask_ensures .prepare (stable_of_moves fun _ _ => Claimed.moves)) fun r => ?_
  cases r with
  | none => exact .throw fun _ _ _ => trivial
  | some =>
    refine .txn (fun _ => admitted_stable _ _ _) (fun _ => .true) ?_ fun _ _ _ _ _ => trivial
    intro s task s' hi hl hadmit
    refine ⟨admission_inv hi hadmit hl.2, admission_moves hadmit, ?_⟩
    obtain ⟨-, -, -, -, -, hadm, -⟩ := admission_ok hadmit
    show _ ∈ s'.admissions
    rw [hadm]
    exact mem_cons_self

theorem conclude_ensures (t : Nat) (scope : Scope) (claimedAt : Nat) (taskId : String) :
    protocol.Ensures t (conclude scope claimedAt taskId) (Admitted t scope claimedAt taskId)
      (fun _ _ => True) fun _ _ => True := by
  have hst := @admitted_stable t scope claimedAt taskId
  refine .bind (ask_ensures .dispatch hst) fun r => ?_
  -- either ending of the dispatch leaves the admission on record
  have hrest : protocol.Ensures t (do
      let response ← (Task.ask Ask.render : Request (Nat × String))
      (Task.modify (recordOutcome scope taskId response.1 response.2) : Request Unit))
      (Admitted t scope claimedAt taskId) (fun _ _ => True) fun _ _ => True := by
    refine .bind (ask_ensures .render hst) fun response => ?_
    refine modify_ensures Stable.true fun s hi _ => ?_
    obtain ⟨hinv, hm⟩ := recordOutcome_inv scope taskId response.1 response.2 hi
    exact ⟨hinv, hm, trivial⟩
  cases r with
  | none => exact .bind (release_ensures scope fun _ _ hm hl => hm.admissions _ hl) fun _ => hrest
  | some body =>
    refine .bind (modify_ensures hst fun s hi hl => ?_) fun _ => hrest
    have hm := complete_moves scope claimedAt taskId body s
    exact ⟨complete_inv hi hl, hm, hm.admissions _ hl⟩

theorem submitTask_ensures (t : Nat) (scope : Scope) :
    protocol.Ensures t (submitTask t scope) (fun _ => True) (fun _ _ => True) fun _ _ => True := by
  have hclaim : protocol.Ensures t (Task.act (claim scope) : Request _) (fun _ => True)
      (fun r s => r.1 = .proceed → Claimed scope r.2 s) fun _ _ => True := by
    refine .act (fun r => stable_of_moves fun s s' hm hl hp => (hl hp).moves hm) fun s hi _ => ?_
    refine ⟨check_inv scope hi, check_moves scope s, fun hp => ?_⟩
    obtain ⟨row, hrow, hcreated⟩ := check_proceed hp
    refine ⟨(check_moves scope s).now, fun row' hrow' => ?_⟩
    have heq : row' = row := Option.some.inj (hrow'.symm.trans hrow)
    rw [heq, hcreated]
    exact Nat.le_refl _
  refine .bind hclaim fun r => ?_
  obtain ⟨action, claimedAt⟩ := r
  cases action with
  | replay | conflict => exact .pure fun _ _ _ => trivial
  | proceed =>
    -- the error boundary: a throw before admission releases, one after it cannot reach here
    have hadmitted : protocol.Ensures t
        (Task.catching (some <$> admitTask t scope claimedAt) fun _ => do
          Task.modify (releaseIdempotency scope)
          pure none : Request (Option String))
        (Claimed scope claimedAt)
        (fun r s => ∀ taskId, r = some taskId → Admitted t scope claimedAt taskId s)
        fun _ _ => True := by
      refine .catching (E := fun _ _ => True) ?_ fun _ => ?_
      · refine .bind (admitTask_ensures t scope claimedAt) fun taskId => ?_
        refine .pure fun s _ hl other heq => ?_
        cases heq
        exact hl
      · refine .bind (release_ensures scope fun _ _ _ hl => hl) fun _ => ?_
        refine .pure fun s _ _ other heq => ?_
        cases heq
    refine .bind (hadmitted.mono fun s _ hl => hl rfl) fun r => ?_
    cases r with
    | none => exact .pure fun _ _ _ => trivial
    | some taskId =>
      exact (conclude_ensures t scope claimedAt taskId).mono fun s _ hl => hl taskId rfl

theorem receiveForward_ensures (t : Nat) (taskId txHash submitter : String) : protocol.Ensures t
      (Task.txn (receiveForward taskId txHash submitter) : Request Unit) (fun _ => True)
      (fun _ _ => True) fun _ _ => True := by
  refine .txn (fun _ => .true) (fun _ => .true) ?_ fun _ _ _ _ _ => trivial
  intro s _ s' hi _ hf
  obtain ⟨hinv, hm⟩ := receiveForward_inv hi hf
  exact ⟨hinv, hm, trivial⟩

theorem verified : Protocol.Verified protocol where
  init s hs := by
    obtain ⟨now, rfl⟩ := hs
    exact ⟨inv_empty now, fun _ => trivial⟩
  env s s' hi he := ⟨background_inv hi he, fun _ _ => trivial⟩
  crash s s' hi hc := by
    cases hc
    exact ⟨hi, fun _ _ => trivial⟩
  fresh _ _ _ _ _ _ _ _ := trivial
  entry t p hp := by
    refine ⟨Stable.true, ?_⟩
    cases hp with
    | submit scope => exact (submitTask_ensures t scope).detach
    | forward taskId txHash submitter =>
      exact (receiveForward_ensures t taskId txHash submitter).detach

/-! ## §2. The law in every run -/

theorem inv_of_reachable {c : Config Store Ask Reply} (h : relay.Reachable c) : Inv c.store :=
  Protocol.sound verified h

theorem Inv.names {s : Store} (hi : Inv s) (hown : ∀ c ∈ s.completions, c.Own) {a : Admission}
    (ha : a ∈ s.admissions) (hy : a.Young s) : Names s a.taskId (checkIdempotency a.scope s).1 := by
  obtain ⟨row, hrow, htask, -⟩ := hi.held a ha hy
  unfold checkIdempotency
  rw [hrow]
  dsimp only
  split
  · rename_i status body hs hst hbody
    obtain ⟨o, ho, hotask, host, hobody⟩ := hi.answered hown a ha hy row hrow hs
    rw [hst] at host
    rw [hbody] at hobody
    cases host
    cases hobody
    exact .inr ⟨o, ho, hotask, rfl⟩
  · rw [htask]
    exact .inl rfl

theorem Inv.law {s : Store} (hi : Inv s) (hown : ∀ c ∈ s.completions, c.Own) : KeyLaw s where
  once := hi.once
  answers a ha hy := hi.names hown ha hy
  released scope hdel a ha heq hy := by
    obtain ⟨row, hrow, hfree⟩ := release_deletes hdel
    obtain ⟨row', hrow', htask, -⟩ := hi.held a ha hy
    rw [heq, hrow] at hrow'
    cases hrow'
    rw [hfree] at htask
    cases htask
  proofs p hp q hq heq := by
    obtain ⟨claim, hclaim, hp2⟩ := hi.funded p hp
    obtain ⟨claim', hclaim', hq2⟩ := hi.funded q hq
    rw [heq, hclaim'] at hclaim
    cases hclaim
    rw [← hp2, ← hq2]

/-- **One key admits at most one task and one payment proof funds at most one task**, in every
    run whose completions each find no row bound to another task. -/
theorem key_admits_one_task {c : Config Store Ask Reply} (h : relay.Reachable c)
    (hown : ∀ d ∈ c.store.completions, d.Own) : KeyLaw c.store :=
  (inv_of_reachable h).law hown

/-! ## §3. A completion later than the TTL

Request 0 admits task `a` and its dispatch hangs.  A day later the sweep drops its row, request
1 claims the key, admits `b` and completes.  Then request 0's dispatch returns. -/

def sampleScope : Scope := ⟨"key", "motebit"⟩

def plain (taskId : String) : Prepared := ⟨taskId, none, "submitter", true, false⟩

def admitting (request claimedAt : Nat) (taskId : String) (s : Store) : Store :=
  match admission request sampleScope claimedAt (plain taskId) s with
  | .ok (_, s') => s'
  | .error _ => s

/-- Request 0 has admitted `a`. -/
def hanging : Store := admitting 0 0 "a" (checkIdempotency sampleScope (Store.empty 0)).2

/-- A day and a millisecond later. -/
def dayAfter : Nat := IDEMPOTENCY_TTL_MS + 1

def swept : Store := cleanupIdempotencyKeys { hanging with now := dayAfter }

/-- Request 1 has admitted `b` and completed. -/
def answeredB : Store :=
  complete sampleScope dayAfter "b" "task b"
    (admitting 1 dayAfter "b" (checkIdempotency sampleScope swept).2)

/-- Request 0 has completed too. -/
def overwritten : Store := complete sampleScope 0 "a" "task a" answeredB

theorem hanging_walk : Walk relay (submitTask 0 sampleScope).detach (Store.empty 0)
      (conclude sampleScope 0 "a").detach hanging :=
  .atomic (.await (x := some (plain "a")) rfl (.atomic .refl))

theorem answeredB_walk : ∃ q, Walk relay (submitTask 1 sampleScope).detach swept q answeredB :=
  ⟨_, .atomic (.await (x := some (plain "b")) rfl (.atomic
    (.await (x := some "task b") rfl (.atomic .refl))))⟩

theorem answeredB_reachable :
    ∃ c, relay.Reachable c ∧ c.store = answeredB ∧
      c.thread 0 = some (conclude sampleScope 0 "a").detach := by
  have hinit : relay.Reachable ⟨Store.empty 0, fun _ => none, 0⟩ := .init _ ⟨0, rfl⟩
  obtain ⟨c₁, hreach₁, hstore₁, hthread₁, -, hnext₁⟩ :=
    hanging_walk.beside hinit (.submit sampleScope)
  have hday : relay.Reachable ⟨swept, c₁.thread, c₁.next⟩ := by
    have htick := hreach₁.step (.env c₁ { c₁.store with now := dayAfter }
      (.tick _ _ (by rw [hstore₁]; decide)))
    rw [hstore₁] at htick
    exact htick.step (.env _ swept (.cleanup _))
  obtain ⟨q, hwalk⟩ := answeredB_walk
  obtain ⟨c₂, hreach₂, hstore₂, -, hothers, -⟩ := hwalk.beside hday (by
    show Entry c₁.next _
    rw [hnext₁]
    exact .submit sampleScope)
  refine ⟨c₂, hreach₂, hstore₂, ?_⟩
  rw [hothers 0 (by show 0 ≠ c₁.next; rw [hnext₁]; decide)]
  exact hthread₁

theorem key_admits_one_task_answered :
    ∃ c, relay.Reachable c ∧ c.store = answeredB ∧ KeyLaw c.store := by
  obtain ⟨c, hreach, hstore, -⟩ := answeredB_reachable
  refine ⟨c, hreach, hstore, key_admits_one_task hreach ?_⟩
  rw [hstore]
  intro d hd task hfound
  have heq : d = ⟨"b", dayAfter, dayAfter, some "b"⟩ := mem_singleton.mp hd
  rw [heq] at hfound ⊢
  exact (Option.some.inj hfound).symm

theorem overwritten_walk :
    ∃ q, Walk relay (conclude sampleScope 0 "a").detach answeredB q overwritten :=
  ⟨_, .await (x := some "task a") rfl (.atomic .refl)⟩

theorem check_overwritten :
    (checkIdempotency sampleScope overwritten).1 = .replay 201 "task a" := rfl

/-- **A late completion overwrites another task's answer**: the key admitted `b` a moment ago,
    and a check answers with the response of `a`. -/
theorem late_completion_overwrites : ∃ c, relay.Reachable c ∧ ¬KeyLaw c.store := by
  obtain ⟨c, hreach, hstore, hthread⟩ := answeredB_reachable
  obtain ⟨q, hwalk⟩ := overwritten_walk
  rw [← hstore] at hwalk
  obtain ⟨c', hreach', hstore', -⟩ := hwalk.resume hreach hthread
  refine ⟨c', hreach', fun hlaw => ?_⟩
  rw [hstore'] at hlaw
  have hnames := hlaw.answers ⟨1, sampleScope, dayAfter, "b"⟩ mem_cons_self
    (show overwritten.now ≤ dayAfter + IDEMPOTENCY_TTL_MS by decide)
  rw [check_overwritten] at hnames
  rcases hnames with hconflict | ⟨o, ho, htask, hreplay⟩
  · cases hconflict
  · -- the two responses on record are `a`'s and `b`'s own
    have hmem : o = ⟨"a", 201, "task a"⟩ ∨ o = ⟨"b", 201, "task b"⟩ := by
      rcases mem_cons.mp ho with ha | hb
      · exact .inl ha
      · exact .inr (mem_singleton.mp hb)
    rcases hmem with rfl | rfl
    · exact absurd htask (by decide)
    · exact absurd hreplay (by decide)

end Motebit.Idempotency
