/-
  Motebit.TaskQueue.AnswerSafety — ONE TASK, ONE ANSWER, ONE SETTLEMENT, in every run.

  Main results: `verified`, `one_answer_one_settlement`.
-/

import Motebit.TaskQueue.AnswerInvariant

namespace Motebit.TaskQueue

open Motebit.Lib Motebit.Lib.Protocol

/-! ## §1. Rules for work -/

def protocol : Protocol relay where
  Inv := Inv
  Guar _ := Moves
  Fresh _ _ := True
  refl _ := .refl

theorem stable_of_moves {t : Nat} {L : Store → Prop}
    (h : ∀ s s', Moves s s' → L s → L s') : protocol.Stable t L := by
  intro s s' hi _ hr hl
  rcases hr with ⟨_, _, hm⟩ | he
  · exact h s s' hm hl
  · exact h s s' (background_inv hi he).2 hl

def Answered (taskId : String) (s : Store) : Prop := s.answers taskId ≠ none

theorem answered_stable {t : Nat} (taskId : String) : protocol.Stable t (Answered taskId) :=
  stable_of_moves fun _ _ hm => hm.answered taskId

variable {t : Nat} {α β : Type} {L : Store → Prop} {Q : α → Store → Prop}

/-- Nothing is known of a task that throws: its step changed nothing. -/
def Works (t : Nat) (x : Work α) (L : Store → Prop) (Q : α → Store → Prop) : Prop :=
  protocol.Ensures t x L Q fun _ _ => True

variable {x : Work α} {s : Store}

theorem Works.bind {g : α → Work β} {R : β → Store → Prop} (hx : Works t x L Q)
    (hg : ∀ a, Works t (g a) (Q a) R) : Works t (x >>= g) L R :=
  Ensures.bind hx hg

theorem Works.pure {a : α} (h : ∀ s, L s → Q a s) : Works t (Pure.pure a : Work α) L Q :=
  Ensures.pure fun s _ hl => h s hl

theorem Works.skip {a : α} : Works t (Pure.pure a : Work α) L fun _ _ => True :=
  .pure fun _ _ => trivial

theorem Works.txn {f : Store → Except QueueFault (α × Store)} (hQ : ∀ a, protocol.Stable t (Q a))
    (h : ∀ s a s', Inv s → L s → f s = .ok (a, s') → Inv s' ∧ Moves s s' ∧ Q a s') :
    Works t (Task.txn f) L Q :=
  Ensures.txn hQ (fun _ => .true) h fun _ _ _ _ _ => trivial

theorem Works.read {g : Store → α} : Works t (Task.read g : Work α) L fun _ _ => True :=
  Ensures.read (fun _ => .true) fun _ _ _ => trivial

theorem Works.ask (r : Wait) (hL : protocol.Stable t L) :
    Works t (Task.ask r : Work (Heard r)) L fun _ => L := by
  refine Ensures.ask (fun _ => hL) fun s a s' hi hl ha => ?_
  cases ha
  exact ⟨hi, Moves.refl s, hl⟩

theorem Works.mono {L' : Store → Prop} (h : Works t x L Q) (hL : ∀ s, L' s → L s) :
    Works t x L' Q :=
  Ensures.mono h fun s _ hl => hL s hl

theorem Works.catching {h : QueueFault → Work α} (hx : Works t x L Q)
    (hh : ∀ e, Works t (h e) (fun _ => True) Q) : Works t (Task.catching x h) L Q :=
  Ensures.catching hx hh

theorem Works.discard (h : Works t x L Q) : Works t (discard x) L fun _ _ => True :=
  Works.bind h fun _ => .skip

/-! ## §2. Doors -/

/-- What a taking verdict leaves behind. -/
def TookArchived (taskId : String) (v : AnswerVerdict) (s : Store) : Prop :=
  ∀ entry first replaced repeated key, v = .took entry first replaced repeated key →
    Answered taskId s

theorem tookArchived_refused {taskId : String} {refusal : AnswerRefusal}
    {answer : Option ExecutionReceipt} :
    TookArchived taskId (.refused refusal answer) s := fun _ _ _ _ _ h => by cases h

theorem answerTask_works (taskId : String) (receipt : ExecutionReceipt) (door : AnswerDoor)
    (retainMs : Nat) (presenter : Option AnswerPresenter) :
    Works t (answerTask taskId receipt door retainMs presenter) (fun _ => True)
      (TookArchived taskId) := by
  refine .bind .read fun refusal => ?_
  cases refusal with
  | some => exact .pure fun _ _ => tookArchived_refused
  | none =>
    by_cases hsig : receipt.signature = ""
    · simp only [hsig, if_true]
      exact .pure fun _ _ => tookArchived_refused
    · simp only [hsig, if_false]
      refine .bind (.ask _ Stable.true) fun r => ?_
      cases r with
      | error => exact .pure fun _ _ => tookArchived_refused
      | ok key =>
        refine .txn (fun v => ?_) fun s v s' hi _ h => answerWrite_takes hi hsig h
        refine stable_of_moves fun s s' hm hl entry first replaced repeated key hv => ?_
        exact hm.answered taskId (hl entry first replaced repeated key hv)

theorem settleStep_works (taskId : String) (receipt : ExecutionReceipt) :
    Works t (settleStep taskId receipt) (Answered taskId) fun _ _ => True := by
  refine .bind (.ask _ (answered_stable taskId)) fun plan => ?_
  cases plan with
  | none => exact .throw fun _ _ _ => trivial
  | some plan =>
    have hrest : Works t (Task.ask (Wait.settled taskId receipt)) (fun _ => True)
        fun _ _ => True := .ask _ Stable.true
    obtain ⟨insert⟩ := plan
    cases insert with
    | none => exact hrest.mono fun _ _ => trivial
    | some write =>
      obtain ⟨table, hash⟩ := write
      refine .bind (.txn (fun _ => .true) fun s _ s' hi hl h => ?_) fun _ => hrest
      -- the row is for a task whose answer is archived, so the claim guard speaks
      obtain ⟨s₁, hins, h⟩ := Throws.bind_eq_ok.mp h
      cases h
      have hans : s.answers (SettlementRow.taskId ⟨taskId, some receipt.signature, hash⟩) ≠ none :=
        hl
      obtain ⟨hinv, hm⟩ := insertSettlement_inv hi hans hins
      exact ⟨hinv, hm, trivial⟩

theorem markTaskSettled_works (taskId sig : String) :
    Works t (Task.txn (markTaskSettled taskId sig)) L fun _ _ => True := by
  refine .txn (fun _ => .true) fun s _ s' hi _ h => ?_
  obtain ⟨hinv, hm⟩ := markTaskSettled_inv hi h
  exact ⟨hinv, hm, trivial⟩

section

variable (taskId : String)

theorem settleAnswer_works (entry : TaskQueueEntry) :
    Works t (settleAnswer taskId entry) (Answered taskId) fun _ _ => True := by
  unfold settleAnswer
  split
  · exact .skip
  · rename_i answer _
    split
    · exact .skip
    · split
      · exact .skip
      · split
        · exact .skip
        · have hnamed : Works t (Task.txn (settleIfNamed taskId answer.signature))
              (Answered taskId) fun _ => Answered taskId := by
            refine .txn (fun _ => answered_stable taskId) fun s _ s' hi hl h => ?_
            obtain ⟨hinv, hm⟩ := settleIfNamed_inv hi h
            exact ⟨hinv, hm, hm.answered taskId hl⟩
          refine .bind hnamed fun named => ?_
          cases named with
          | true => exact .skip
          | false =>
            refine .bind (.catching (settleStep_works taskId answer) fun _ => .skip) fun done => ?_
            cases done with
            | true => exact .bind (markTaskSettled_works taskId answer.signature) fun _ => .skip
            | false => exact .skip

theorem admitReceipt_works (receipt : ExecutionReceipt) (door : AnswerDoor)
    (retainMs : Nat) (presenter : Option AnswerPresenter) :
    Works t (admitReceipt taskId receipt door retainMs presenter) (fun _ => True)
      fun _ _ => True := by
  refine .bind (answerTask_works taskId receipt door retainMs presenter) fun v => ?_
  cases v with
  | refused => exact .skip
  | took entry first replaced repeated key =>
    exact (settleAnswer_works taskId entry).mono fun s hl => hl entry first replaced repeated key rfl

/-! ## §3. Recovery -/

theorem replayLocalAnswer_works (door : AnswerDoor) (retainMs : Nat) :
    Works t (replayLocalAnswer taskId door retainMs) (fun _ => True) fun _ _ => True := by
  refine .bind .read fun receipt => ?_
  cases receipt with
  | none => exact .skip
  | some receipt => exact (admitReceipt_works taskId receipt door retainMs none).discard

theorem replay_works (receipt : ExecutionReceipt) (retainMs : Nat) (door : AnswerDoor) :
    Works t (replay taskId receipt retainMs door) (fun _ => True) fun _ _ => True := by
  cases door with
  | resultPost => exact replayLocalAnswer_works taskId .resultPost retainMs
  | mcpForward => exact replayLocalAnswer_works taskId .mcpForward retainMs
  | federationResult =>
    exact (admitReceipt_works taskId receipt _ retainMs none).discard
  | subReceipt parentTaskId =>
    have hown : Works t (do
        if ← Task.read (fun s : Store =>
            decide ((s.get taskId).bind (·.settled) = some true)) then pure ()
        else replayLocalAnswer taskId .resultPost retainMs) (fun _ => True) fun _ _ => True := by
      refine .bind .read fun settled => ?_
      cases settled with
      | true => exact .skip
      | false => exact replayLocalAnswer_works taskId .resultPost retainMs
    refine .bind .read fun parent => ?_
    cases parent with
    | none => exact hown
    | some parent =>
      by_cases hanswered : parent.receipt.isSome = true
      · simp only [hanswered, if_true]
        exact .bind (replayLocalAnswer_works parentTaskId _ retainMs) fun _ => hown
      · simp only [hanswered]
        exact hown

theorem replayClaim_works (retainMs : Nat) :
    Works t (replayClaim taskId retainMs) (fun _ => True) fun _ _ => True := by
  refine .bind .read fun entry => ?_
  cases entry with
  | none => exact .skip
  | some entry =>
    dsimp only
    split
    · exact .skip
    · rename_i receipt _
      split
      · exact .catching (replay_works taskId receipt retainMs _) fun _ => .skip
      · exact .skip

end

theorem verified : Protocol.Verified protocol where
  init s hs := by
    obtain ⟨now, epoch, rfl⟩ := hs
    exact ⟨inv_empty now epoch, fun _ => trivial⟩
  env s s' hi he := ⟨(background_inv hi he).1, fun _ _ => trivial⟩
  crash s s' hi hc := by
    cases hc
    exact ⟨hi, fun _ _ => trivial⟩
  fresh _ _ _ _ _ _ _ _ := trivial
  entry t p hp := by
    refine ⟨Stable.true, ?_⟩
    cases hp with
    | door taskId receipt door retainMs presenter =>
      exact Ensures.detach (admitReceipt_works taskId receipt door retainMs presenter)
    | claim =>
      refine Ensures.detach (Works.txn (fun _ => Stable.true) fun s r s' hi _ h => ?_)
      have heq : s' = s := claimStoredAnswer_inv hi h
      rw [heq]
      exact ⟨hi, Moves.refl s, trivial⟩
    | recover taskId retainMs => exact Ensures.detach (replayClaim_works taskId retainMs)

/-! ## §4. The law -/

/-- The receipt `taskId` is claimed for: its entry's while it is queued, the archived one
    after. -/
def ClaimedReceipt (s : Store) (taskId : String) (r : ExecutionReceipt) : Prop :=
  match s.get taskId with
  | some e => e.receipt = some r ∧ e.settling = some r.signature
  | none => ∃ a, s.answers taskId = some a ∧ a.receipt = r ∧ a.settling = some r.signature

structure AnswerLaw (s : Store) : Prop where
  once : ∀ taskId, (settlementRowsFor s taskId).length ≤ 1
  paid : ∀ taskId, ∀ row ∈ settlementRowsFor s taskId,
    ∃ r, ClaimedReceipt s taskId r ∧ row.receiptSignature = some r.signature
  settled : ∀ taskId e, s.get taskId = some e → e.settled = some true →
    ∃ r, ClaimedReceipt s taskId r
  archived : ∀ taskId e, s.get taskId = some e → ArchivedAs e (s.answers taskId)
  retained : ∀ taskId e, s.get taskId = some e → heldClaim e = true ∨ heldGrant e = true →
    (∀ now, (cleanup now s).get taskId = some e) ∧
      ∀ maxSize, (evict maxSize s).get taskId = some e

theorem Inv.claimedReceipt (hi : Inv s) {taskId : String} {e : TaskQueueEntry}
    (he : s.get taskId = some e) {r : ExecutionReceipt} (hr : e.receipt = some r) :
    ClaimedReceipt s taskId r := by
  unfold ClaimedReceipt
  rw [he]
  exact ⟨hr, ((hi.entries taskId e he).1.claimed r hr).1⟩

theorem Inv.law (hi : Inv s) : AnswerLaw s where
  once := hi.paidOnce
  paid taskId row hrow := by
    obtain ⟨a, ha, hsig⟩ := hi.paid taskId row hrow
    refine ⟨a.receipt, ?_, hsig.trans (hi.answers taskId a ha)⟩
    cases he : s.get taskId with
    | none =>
      unfold ClaimedReceipt
      rw [he]
      exact ⟨a, ha, rfl, hi.answers taskId a ha⟩
    | some e =>
      obtain ⟨-, hnone, hsome⟩ := hi.entries taskId e he
      cases hr : e.receipt with
      | none =>
        rw [hnone hr] at ha
        cases ha
      | some r =>
        obtain ⟨at_, ha'⟩ := hsome r hr
        rw [ha'] at ha
        cases ha
        exact hi.claimedReceipt he hr
  settled taskId e he hs := by
    cases hr : e.receipt with
    | none =>
      rw [((hi.entries taskId e he).1.unanswered hr).2] at hs
      cases hs
    | some r => exact ⟨r, hi.claimedReceipt he hr⟩
  archived taskId e he := (hi.entries taskId e he).2
  retained taskId e he hheld :=
    ⟨fun _ => cleanup_keeps he hheld, fun _ => evict_keeps he hheld⟩

/-! ## §5. Along a run -/

/-- What every later store keeps of a claimed entry: it is gone for good, or still claimed for
    the same receipt. -/
structure Later (s s' : Store) : Prop where
  issued : ∀ id ∈ s.issued, id ∈ s'.issued
  gone : ∀ id ∈ s.issued, s.get id = none → s'.get id = none
  claimed : ∀ id e sig, s.get id = some e → e.settling = some sig →
    (id ∈ s'.issued ∧ s'.get id = none) ∨
      ∃ e', s'.get id = some e' ∧ e'.receipt = e.receipt ∧ e'.settling = some sig

theorem Later.refl (s : Store) : Later s s :=
  ⟨fun _ h => h, fun _ _ h => h, fun _ e _ he hs => .inr ⟨e, he, rfl, hs⟩⟩

theorem Later.trans {s₁ s₂ s₃ : Store} (h : Later s₁ s₂) (h' : Later s₂ s₃) : Later s₁ s₃ where
  issued id hid := h'.issued id (h.issued id hid)
  gone id hid hnone := h'.gone id (h.issued id hid) (h.gone id hid hnone)
  claimed id e sig he hs := by
    rcases h.claimed id e sig he hs with ⟨hid, hnone⟩ | ⟨e₂, he₂, hr₂, hs₂⟩
    · exact .inl ⟨h'.issued id hid, h'.gone id hid hnone⟩
    · rcases h'.claimed id e₂ sig he₂ hs₂ with hgone | ⟨e₃, he₃, hr₃, hs₃⟩
      · exact .inl hgone
      · exact .inr ⟨e₃, he₃, hr₃.trans hr₂, hs₃⟩

theorem Moves.later {s' : Store} (hi : Inv s) (h : Moves s s') : Later s s' where
  __ := h
  claimed id e sig he hs := by
    cases he' : s'.get id with
    | none => exact .inl ⟨h.issued id (hi.known id (by rw [he]; rfl)), rfl⟩
    | some e' =>
      obtain ⟨hr, hset⟩ := h.frozen id e e' he he' (by rw [hs]; exact Option.some_ne_none sig)
      exact .inr ⟨e', rfl, hr, hset.trans hs⟩

/-- **One task, one answer, one settlement.** -/
theorem one_answer_one_settlement {c : Config Store Wait Heard} (hreach : relay.Reachable c) :
    AnswerLaw c.store ∧
      ∀ c', Relation.ReflTransGen relay.Step c c' → ∀ taskId e e' sig,
        c.store.get taskId = some e → e.settling = some sig → c'.store.get taskId = some e' →
          e'.receipt = e.receipt ∧ e'.settling = e.settling := by
  refine ⟨(Protocol.sound verified hreach).law, fun c' hlater taskId e e' sig he hs he' => ?_⟩
  have hR : Later c.store c'.store :=
    Protocol.sound_later verified Later.refl (fun _ _ _ => Later.trans)
      (fun _ _ _ hi hg => Moves.later hi hg)
      (fun _ _ hi henv => (background_inv hi henv).2.later hi)
      (fun _ _ _ hc => hc ▸ Later.refl _) hreach hlater
  rcases hR.claimed taskId e sig he hs with ⟨-, hnone⟩ | ⟨e₁, he₁, hr, hs₁⟩
  · rw [hnone] at he'
    cases he'
  · rw [he₁] at he'
    cases he'
    exact ⟨hr, hs₁.trans hs.symm⟩

/-! ## §6. A task answered and settled -/

def sampleEntry : TaskQueueEntry :=
  { task := ⟨"worker", .pending, none, [], 0⟩, expiresAt := 100 }

def sampleReceipt : ExecutionReceipt :=
  ⟨"worker", "task", none, none, .completed, "hash", "work", "signature"⟩

def queued : Store :=
  { (Store.empty 0 none).put "task" sampleEntry with
    issued := ["task"]
    routes := [⟨"task", "worker", "", .admission⟩] }

theorem queued_reachable : relay.Reachable ⟨queued, fun _ => none, 0⟩ := by
  have hinit : relay.Reachable ⟨Store.empty 0 none, fun _ => none, 0⟩ := .init _ ⟨0, none, rfl⟩
  have hset : Background (Store.empty 0 none)
      { (Store.empty 0 none).put "task" sampleEntry with issued := ["task"] } :=
    .enqueue _ _ "task" sampleEntry (by decide) (by decide) rfl
  exact (hinit.step (.env _ _ hset)).step (.env _ _ (.route _ _))

theorem settled_walk :
    ∃ q s', Walk relay (admitReceipt "task" sampleReceipt .resultPost 0 none).detach queued q s' ∧
      (s'.get "task").map (·.settled) = some (some true) ∧
      settlementRowsFor s' "task" = [⟨"task", some "signature", "hash"⟩] :=
  ⟨_, _, .atomic (.await (x := .ok "key") rfl (.atomic (.atomic
    (.await (x := some ⟨some (.relaySettlements, "hash")⟩) rfl (.atomic
      (.await (x := true) rfl (.atomic .refl))))))), rfl, rfl⟩

theorem one_answer_one_settlement_settled :
    ∃ c, relay.Reachable c ∧
      settlementRowsFor c.store "task" = [⟨"task", some "signature", "hash"⟩] ∧
      AnswerLaw c.store := by
  obtain ⟨q, s', hwalk, -, hrows⟩ := settled_walk
  obtain ⟨c, hreach, hstore, -⟩ := hwalk.beside queued_reachable (.door _ _ _ _ _)
  refine ⟨c, hreach, ?_, (one_answer_one_settlement hreach).1⟩
  rw [hstore]
  exact hrows

end Motebit.TaskQueue
