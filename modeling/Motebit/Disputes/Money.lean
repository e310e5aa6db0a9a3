/-
  Motebit.Disputes.Money — A DISPUTE MOVES MONEY ONCE, AS ITS VERDICT SAYS.

  Round 2 is written with INSERT OR REPLACE after an awaited signature.  Two commits of one
  dispute in flight at once can therefore leave the second verdict over the first, and a read
  that took the first verdict up moves money by it.  Where no two commits race, the verdict that
  moves the money is the one on record.

  Main results: `dispute_moves_money_once`, `verdict_never_replaced`,
  `stale_verdict_moves_money`, `in_flight_verdict_replaced`.
-/

import Motebit.Disputes.Safety

namespace Motebit.Disputes

open Motebit.Lib Motebit.Lib.Protocol

variable {R : Relay}

/-! ## §1. Every step -/

variable {c c' : Config Store Wait Heard} {s : Store}

theorem step_lawful (h : (relay R).Reachable c) (hstep : (relay R).Step c c') :
    Lawful c.store c'.store := by
  have hholds := Protocol.Holds.of_reachable (verified R) h
  rcases hholds.moved hstep with heq | ⟨t, hmoves⟩ | henv | hcrash
  · rw [heq]
    exact .refl _
  · exact hmoves.lawful
  · exact (background_plain hholds.inv.1 henv).2.1.1
  · have heq : c'.store = abandonAll c.store := hcrash
    rw [heq]
    exact .of_escrow (.of_eq rfl rfl (fun _ h => h) (fun _ h => h) rfl) rfl rfl

theorem later_forward (h : (relay R).Reachable c)
    (hlater : Relation.ReflTransGen (relay R).Step c c') : Forward c.store c'.store := by
  induction hlater with
  | refl => exact .refl _
  | tail hsteps hstep ih =>
    exact ih.trans (step_lawful (Protocol.reachable_later h hsteps) hstep).forward

theorem later_rows (h : (relay R).Reachable c) (hlater : Relation.ReflTransGen (relay R).Step c c')
    {A : String} (hpaid : c.store.escrow.allocationDisputeRows A ≠ []) :
    c'.store.escrow.allocationDisputeRows A = c.store.escrow.allocationDisputeRows A := by
  induction hlater with
  | refl => rfl
  | tail hsteps hstep ih =>
    rw [← ih]
    by_contra hne
    have hfirst := ((step_lawful (Protocol.reachable_later h hsteps) hstep).rows A hne).first
    rw [ih] at hfirst
    exact hpaid hfirst

/-! ## §2. Finalizers that fail -/

/-- No balance, claim or dispute state changed. -/
def Untouched (s s' : Store) : Prop :=
  s'.escrow = s.escrow ∧ s'.fundActions = s.fundActions ∧
    ∀ id, (getDispute id s').map (·.state) = (getDispute id s).map (·.state)

theorem Untouched.refl (s : Store) : Untouched s s := ⟨rfl, rfl, fun _ => rfl⟩

/-- What a finalizer's steps may do: nothing, or move a dispute to `final`. -/
def finalizing (R : Relay) : Protocol (relay R) where
  Inv s := ∀ id d, getDispute id s = some d → d.disputeId = id
  Guar _ s s' := Untouched s s' ∨ ∃ d, ToFinal d s s'
  Fresh _ _ := True
  refl _ s := .inl (.refl s)

variable {t : Nat} {α β : Type}

/-- Every step of the work is untouched or final. -/
abbrev Finalizer (R : Relay) (t : Nat) (x : Work α) : Prop :=
  (finalizing R).Ensures t x (fun _ => True) (fun _ _ => True) fun _ _ => True

theorem Finalizer.bind {x : Work α} {g : α → Work β} (hx : Finalizer R t x)
    (hg : ∀ a, Finalizer R t (g a)) : Finalizer R t (x >>= g) := Ensures.bind hx hg

theorem Finalizer.pure {a : α} : Finalizer R t (Pure.pure a : Work α) :=
  Ensures.pure fun _ _ _ => trivial

theorem Finalizer.throw {e : Fault} : Finalizer R t (throw e : Work α) :=
  Ensures.throw fun _ _ _ => trivial

theorem Finalizer.read {g : Store → α} : Finalizer R t (Task.read g) :=
  Ensures.read (fun _ => Stable.true) fun _ _ _ => trivial

theorem Finalizer.catching {x : Work α} {h : Fault → Work α} (hx : Finalizer R t x)
    (hh : ∀ e, Finalizer R t (h e)) : Finalizer R t (Task.catching x h) :=
  Ensures.catching hx hh

theorem Finalizer.sign : Finalizer R t (Task.ask Wait.signResolution) :=
  Ensures.ask (fun _ => Stable.true) fun s _ s' hi _ ha => by
    cases ha
    exact ⟨hi, .inl (.refl s), trivial⟩

theorem Finalizer.modify {f : Store → Store}
    (h : ∀ s, (finalizing R).Inv s → (finalizing R).Inv (f s) ∧ Untouched s (f s)) :
    Finalizer R t (Task.modify f) :=
  Ensures.act (fun _ => Stable.true) fun s hi _ =>
    ⟨(h s hi).1, .inl (h s hi).2, trivial⟩

theorem recordFundRefusal_untouched (hi : (finalizing R).Inv s) (id : String)
    (reason : Option FundRefusalReason) : (finalizing R).Inv (recordFundRefusal id reason s) ∧
      Untouched s (recordFundRefusal id reason s) := by
  unfold recordFundRefusal
  cases hm : moveDispute id (fun _ => true) (fun d => { d with fundRefusal := reason }) s with
  | none => exact ⟨hi, .refl s⟩
  | some s₁ =>
    obtain ⟨d, hd, -, rfl⟩ := moveDispute_some hm
    have hkey := hi id d hd
    refine ⟨fun id' x hx => ?_, rfl, rfl, fun id' => ?_⟩
    · rw [Option.getD_some, getDispute_put] at hx
      split at hx
      · rename_i heq
        cases hx
        exact heq.symm
      · exact hi id' x hx
    · rw [Option.getD_some, getDispute_put]
      split
      · rename_i heq
        rw [heq, hkey, hd]
        rfl
      · rfl

theorem insertRound2_untouched (hi : (finalizing R).Inv s) (id : String) (row : DisputeResolution) :
    (finalizing R).Inv (insertRound2 id row s) ∧ Untouched s (insertRound2 id row s) :=
  ⟨hi, rfl, rfl, fun _ => rfl⟩

theorem closed_toFinal {s₁ s₂ s' : Store} {d : Dispute} {money : Money}
    {ok : Accounts.DisputeState → Bool} {set : Dispute → Dispute} (hi : (finalizing R).Inv s)
    (hmove : moveDispute d.disputeId ok set s = some s₁) (hok : ok .final = false)
    (hset : ∀ x, (set x).state = .final ∧ (set x).disputeId = x.disputeId)
    (hsame : s₂.disputes = s₁.disputes) (hexec : executeFundAction R d money s₂ = .ok s') :
    (finalizing R).Inv s' ∧ ∃ x, ToFinal x s s' := by
  obtain ⟨d₀, hd₀, hst, rfl⟩ := moveDispute_some hmove
  have hkey := hi _ d₀ hd₀
  obtain ⟨hfinal, hid⟩ := hset d₀
  have hget : ∀ id, getDispute id s₂ = if id = d.disputeId then some (set d₀) else getDispute id s := by
    intro id
    unfold getDispute
    rw [hsame]
    have hput := getDispute_put s (set d₀) id
    rwa [hid, hkey] at hput
  have hi₂ : (finalizing R).Inv s₂ := by
    intro id x hx
    rw [hget] at hx
    split at hx
    · rename_i heq
      cases hx
      rw [hid, hkey, heq]
    · exact hi id x hx
  obtain ⟨hframe, -⟩ := executeFundAction_ok hexec
  -- the fund action changes at most the marker of the dispute
  have hstates : (finalizing R).Inv s' ∧
      ∀ id, (getDispute id s').map (·.state) = (getDispute id s₂).map (·.state) := by
    have hgets : ∀ s₃ : Store, s'.disputes = s₃.disputes → (∀ id, getDispute id s' =
        getDispute id s₃) := by
      intro s₃ heq id
      unfold getDispute
      rw [heq]
    rcases hframe.disputes with heq | ⟨reason, heq⟩
    · refine ⟨fun id x hx => hi₂ id x ?_, fun id => by rw [hgets s₂ heq]⟩
      rw [← hgets s₂ heq]
      exact hx
    · obtain ⟨hinv, -, -, hmap⟩ := recordFundRefusal_untouched (R := R) hi₂ d.disputeId reason
      refine ⟨fun id x hx => hinv id x ?_, fun id => by rw [hgets _ heq, hmap]⟩
      rw [← hgets _ heq]
      exact hx
  refine ⟨hstates.1, d₀, ?_⟩
  have hafter := hstates.2 d.disputeId
  rw [hget, if_pos rfl, Option.map_some, hfinal] at hafter
  obtain ⟨d', hd', hd'final⟩ := Option.map_eq_some_iff.mp hafter
  unfold ToFinal
  rw [hkey]
  refine ⟨hd₀, fun heq => ?_, d', hd', hd'final⟩
  rw [heq, hok] at hst
  cases hst

theorem Finalizer.close {f : Store → Except Fault (Bool × Store)}
    (h : ∀ s moved s', (finalizing R).Inv s → f s = .ok (moved, s') →
      s' = s ∨ (finalizing R).Inv s' ∧ ∃ x, ToFinal x s s') : Finalizer R t (Task.txn f) := by
  refine Ensures.txn (fun _ => Stable.true) (fun _ => Stable.true)
    (fun s moved s' hi _ hf => ?_) fun _ _ _ _ _ => trivial
  rcases h s moved s' hi hf with rfl | ⟨hinv, hto⟩
  · exact ⟨hi, .inl (.refl s'), trivial⟩
  · exact ⟨hinv, .inr hto, trivial⟩

section

variable (d : Dispute)

theorem finalizeResolved_finalizer (row : DisputeResolution) (finalAt : Nat) :
    Finalizer R t (Task.txn (finalizeResolved R d row finalAt)) := by
  refine .close fun s moved s' hi hf => ?_
  unfold finalizeResolved at hf
  split at hf
  · cases hf
    exact .inl rfl
  next s₁ hmove =>
  obtain ⟨s₂, hexec, hf⟩ := Throws.bind_eq_ok.mp hf
  cases hf
  exact .inr (closed_toFinal hi hmove rfl (fun _ => ⟨rfl, rfl⟩) rfl hexec)

theorem finalizeAppealed_finalizer (row : DisputeResolution) (finalAt : Nat) :
    Finalizer R t (Task.txn (finalizeAppealed R d row finalAt)) := by
  refine .close fun s moved s' hi hf => ?_
  unfold finalizeAppealed at hf
  split at hf
  · cases hf
    exact .inl rfl
  next s₁ hmove =>
  obtain ⟨s₂, hexec, hf⟩ := Throws.bind_eq_ok.mp hf
  cases hf
  have hsame : (insertRound2 d.disputeId row s₁).disputes = s₁.disputes := rfl
  exact .inr (closed_toFinal hi hmove rfl (fun _ => ⟨rfl, rfl⟩) hsame hexec)

theorem retryAppealed_finalizer (row : DisputeResolution) (finalAt : Nat) :
    Finalizer R t (Task.txn (retryAppealed R d row finalAt)) := by
  refine .close fun s moved s' hi hf => ?_
  unfold retryAppealed at hf
  split at hf
  · cases hf
    exact .inl rfl
  next s₁ hmove =>
  obtain ⟨s₂, hexec, hf⟩ := Throws.bind_eq_ok.mp hf
  cases hf
  exact .inr (closed_toFinal hi hmove rfl (fun _ => ⟨rfl, rfl⟩) rfl hexec)

theorem afterRefusal_finalizer (e : Fault) : Finalizer R t (afterRefusal d e) := by
  cases e with
  | fundActionRefused =>
    exact .bind (.modify fun s hi => recordFundRefusal_untouched hi _ _) fun _ => .pure
  | http | emergencyFrozen | error => exact .pure

theorem tryFinalizeIfWindowExpired_finalizer (retryRound2 : Bool) :
    Finalizer R t (tryFinalizeIfWindowExpired R d retryRound2) := by
  have hreread : Finalizer R t (reread d) := .bind .read fun _ => .pure
  unfold tryFinalizeIfWindowExpired
  split
  · split
    · refine .bind .read fun found => ?_
      cases found with
      | none => exact .pure
      | some row =>
        refine .bind .read fun finalAt => .catching (.bind ?_ fun _ => hreread)
          (afterRefusal_finalizer d)
        exact retryAppealed_finalizer d row finalAt
    · exact .pure
  · split
    · exact .pure
    · split
      · exact .pure
      · cases d.resolvedAt with
        | none => exact .pure
        | some =>
          refine .bind .read fun now => ?_
          split
          · exact .pure
          · refine .bind .read fun found => ?_
            cases found with
            | none => exact .pure
            | some row =>
              refine .bind .read fun finalAt => .catching (.bind ?_ fun moved => ?_)
                (afterRefusal_finalizer d)
              · exact finalizeResolved_finalizer d row finalAt
              · cases moved with
                | true => exact .pure
                | false => exact hreread

theorem commitRound2Verdict_finalizer (verdict : Verdict) :
    Finalizer R t (commitRound2Verdict R d verdict) := by
  refine .bind .read fun resolvedAt => .bind .sign fun signed => ?_
  cases signed with
  | none => exact .throw
  | some =>
    refine .bind .read fun finalAt => .bind (.catching (finalizeAppealed_finalizer d _ finalAt)
      fun e => ?_) fun moved => ?_
    · cases e with
      | emergencyFrozen =>
        exact .bind (.modify fun s hi => insertRound2_untouched hi _ _) fun _ => .throw
      | fundActionRefused =>
        refine .bind (.modify fun s hi => insertRound2_untouched hi _ _) fun _ => ?_
        exact .bind (.modify fun s hi => recordFundRefusal_untouched hi _ _) fun _ => .throw
      | http | error => exact .throw
    · cases moved with
      | true => exact .pure
      | false => exact .throw

end

/-! ## §3. Once, as the verdict says -/

/-- The step pays `A` out: no dispute had moved its money, it moves a dispute of `A` to `final`
    and the money by the ratio of the dispute's governing row. -/
structure Pays (A : String) (s s' : Store) : Prop where
  first : s.escrow.allocationDisputeRows A = []
  verdict : ∃ d row, d.allocationId = A ∧ ToFinal d s s' ∧
    governing s' d.disputeId = some row ∧ MovesBy row.money.splitRatio A s.escrow s'.escrow

/-- What one step does to money, claims and dispute states. -/
structure MoneyLaw (s s' : Store) : Prop where
  paid : ∀ A, s'.escrow.allocationDisputeRows A ≠ s.escrow.allocationDisputeRows A → Pays A s s'
  claims : s'.fundActions = s.fundActions ∨ ∃ d, ToFinal d s s'
  forward : ∀ id d, getDispute id s = some d → Live d.state ∧
    ∃ d', getDispute id s' = some d' ∧ Live d'.state ∧ rank d.state ≤ rank d'.state

/-- **A dispute moves money once, as its governing verdict says**, in every run in which no
    round-2 commit of a dispute begins while another is in flight or has left its row. -/
theorem dispute_moves_money_once (R : Relay) {c c' : Config Store Wait Heard}
    (hreach : (relay R).Reachable c) (hstep : (relay R).Step c c')
    (hraced : c'.store.raced = false) :
    MoneyLaw c.store c'.store ∧
    (∀ c'', Relation.ReflTransGen (relay R).Step c' c'' → ∀ A,
      c'.store.escrow.allocationDisputeRows A ≠ [] →
        c''.store.escrow.allocationDisputeRows A = c'.store.escrow.allocationDisputeRows A) ∧
    ∀ t d, (∀ retryRound2, Finalizer R t (tryFinalizeIfWindowExpired R d retryRound2)) ∧
      ∀ verdict, Finalizer R t (commitRound2Verdict R d verdict) := by
  have hlawful := step_lawful hreach hstep
  have hinv := Protocol.sound (verified R) hreach
  have hinv' := Protocol.sound (verified R) (hreach.step hstep)
  refine ⟨⟨fun A hne => ?_, hlawful.claims, fun id d hd => ?_⟩, fun c'' hlater A hpaid => ?_,
    fun t d => ⟨fun retry => tryFinalizeIfWindowExpired_finalizer d retry,
      fun verdict => commitRound2Verdict_finalizer d verdict⟩⟩
  · obtain ⟨hfirst, d, hA, hto, hrow⟩ := hlawful.rows A hne
    obtain ⟨row, hgov, hmoves⟩ := hrow (hinv'.2.unreplaced hraced)
    exact ⟨hfirst, d, row, hA, hto, hgov, hmoves⟩
  · obtain ⟨d', hd', hadv⟩ := hlawful.forward.disputes id d hd
    exact ⟨(hinv.1.keyed id d hd).2, d', hd', (hinv'.1.keyed id d' hd').2, hadv.rank⟩
  · exact later_rows (hreach.step hstep) hlater hpaid

def Highest (s : Store) (id : String) (round : Round) (row : DisputeResolution) : Prop :=
  s.resolutions id round = some row ∧ (round = .first → s.resolutions id .second = none)

theorem highest_of_governing {id : String} {row : DisputeResolution} (h : governing s id = some row) :
    ∃ round, Highest s id round row := by
  unfold governing at h
  cases hsecond : s.resolutions id .second with rw [hsecond] at h
  | none => exact ⟨.first, h, fun _ => hsecond⟩
  | some =>
    cases h
    exact ⟨.second, hsecond, nofun⟩

/-- Every row recorded in `c` stands in `c'` with its verdict, and money moved in between
    follows it. -/
structure VerdictLaw (s s₁ s₂ : Store) : Prop where
  stands : ∀ id round row, s.resolutions id round = some row →
    ∃ row', s₂.resolutions id round = some row' ∧ SameVerdict row' row
  money : ∀ A, s₂.escrow.allocationDisputeRows A ≠ s₁.escrow.allocationDisputeRows A →
    ∃ d round row, d.allocationId = A ∧ ToFinal d s₁ s₂ ∧ Highest s₂ d.disputeId round row ∧
      MovesBy row.money.splitRatio A s₁.escrow s₂.escrow ∧
      ∀ row₀, s.resolutions d.disputeId round = some row₀ → SameVerdict row row₀

/-- **A recorded verdict is never replaced**, in every run in which no round-2 commit of a
    dispute begins while another is in flight or has left its row. -/
theorem verdict_never_replaced (R : Relay) {c c₁ c₂ : Config Store Wait Heard}
    (hreach : (relay R).Reachable c) (hlater : Relation.ReflTransGen (relay R).Step c c₁)
    (hstep : (relay R).Step c₁ c₂) (hraced : c₂.store.raced = false) :
    VerdictLaw c.store c₁.store c₂.store := by
  have hreach₁ := Protocol.reachable_later hreach hlater
  have hunreplaced := (Protocol.sound (verified R) (hreach₁.step hstep)).2.unreplaced hraced
  have hstands : ∀ id round row, c.store.resolutions id round = some row →
      ∃ row', c₂.store.resolutions id round = some row' ∧ SameVerdict row' row := by
    intro id round row hrow
    have hforward := later_forward hreach (hlater.tail hstep)
    cases round with
    | first => exact ⟨row, hforward.first id row hrow, rfl, rfl⟩
    | second =>
      obtain ⟨row', hrow', hsame⟩ := hforward.second id row hrow
      exact ⟨row', hrow', hsame hunreplaced⟩
  refine ⟨hstands, fun A hne => ?_⟩
  obtain ⟨-, d, hA, hto, hrow⟩ := (step_lawful hreach₁ hstep).rows A hne
  obtain ⟨row, hgov, hmoves⟩ := hrow hunreplaced
  obtain ⟨round, hhigh⟩ := highest_of_governing hgov
  refine ⟨d, round, row, hA, hto, hhigh, hmoves, fun row₀ hrow₀ => ?_⟩
  obtain ⟨row', hrow', hsame⟩ := hstands d.disputeId round row₀ hrow₀
  rw [hhigh.1] at hrow'
  cases hrow'
  exact hsame


/-! ## §4. Two commits in flight

A dispute is filed, decided, and appealed.  The relay is frozen.  Two `/resolve` calls find no
round-2 row and wait for their signatures; the first is refused and leaves its row, a read takes
that row up, and the second, refused too, writes its verdict over it.  After the thaw the read
moves the money by the verdict that is gone. -/

/-- A relay that is no party to the sample dispute unless it is called `worker`. -/
def sampleRelay (self : String) : Relay := ⟨self, fun _ => none, fun _ => none⟩

def sampleDb : Escrow.Db :=
  { Escrow.Db.init with
    books := ⟨fun m => if m = "delegator" then some 0 else none,
      [⟨"delegator", .deposit, 10, 10, none, none, none⟩,
        ⟨"delegator", .allocationHold, -10, 0, some "A", none, some ⟨"A", .hold⟩⟩]⟩
    allocations := [⟨"A", "task", "worker", 10, none⟩] }

def funded : Store := { Store.empty 0 with escrow := sampleDb }

def sampleRequest : DisputeRequest := ⟨"dispute", "task", "A", "delegator", "worker", 0, "body"⟩

def sampleDispute : Dispute := filedDispute sampleRequest ⟨0, 10, some .locked, .delegator⟩

def filed : Store :=
  { funded.putDispute sampleDispute with
    allocationStatus := Function.update funded.allocationStatus "A" .disputed }

def heard : Store := { filed with now := EVIDENCE_WINDOW_MS }

theorem filed_walk (self : String) :
    ∃ q, Walk (relay (sampleRelay self)) (fileDispute (sampleRelay self) "A" sampleRequest).detach
      funded q filed :=
  ⟨_, .atomic (.await (x := Verification.valid) rfl (.atomic (.atomic (.atomic (.atomic
    (.atomic .refl))))))⟩

theorem heard_reachable (self : String) :
    ∃ c, (relay (sampleRelay self)).Reachable c ∧ c.store = heard ∧ c.next = 1 := by
  have hinit : (relay (sampleRelay self)).Reachable ⟨Store.empty 0, fun _ => none, 0⟩ :=
    .init _ ⟨0, rfl⟩
  have hrows : ∀ A, sampleDb.allocationDisputeRows A =
      (Store.empty 0).escrow.allocationDisputeRows A := by
    intro A
    simp [Escrow.Db.allocationDisputeRows, sampleDb, Store.empty, Escrow.Db.init,
      Accounts.Books.empty, Escrow.isDisputeKind]
  have hfunded := hinit.step (.env _ funded (.ledger sampleDb hrows))
  obtain ⟨q, hwalk⟩ := filed_walk self
  obtain ⟨c, hreach, hstore, -, -, hnext⟩ := hwalk.beside hfunded (.file "A" sampleRequest)
  have htick := hreach.step (.env c { c.store with now := EVIDENCE_WINDOW_MS }
    (.tick _ (by rw [hstore]; exact Nat.zero_le _)))
  refine ⟨_, htick, ?_, hnext⟩
  show { c.store with now := EVIDENCE_WINDOW_MS } = heard
  rw [hstore]
  rfl

abbrev operator : Relay := sampleRelay "operator"

def ruling (outcome : DisputeOutcome) : ResolveBody := ⟨some outcome, "because", none, none⟩

def rulingRow (outcome : DisputeOutcome) : DisputeResolution :=
  resolutionRow operator ⟨outcome, "because", mapFundAction outcome (some .delegator), []⟩
    EVIDENCE_WINDOW_MS "signature"

def decided : Store :=
  (heard.putDispute (sampleDispute.resolved (rulingRow .upheld))).putResolution "dispute" .first
    (rulingRow .upheld)

def appealedDispute : Dispute :=
  { sampleDispute.resolved (rulingRow .upheld) with
    state := .appealed
    appealedAt := some EVIDENCE_WINDOW_MS }

def appealed : Store := decided.putDispute appealedDispute

theorem decided_walk :
    ∃ q, Walk (relay operator) (resolve operator 1 "dispute" (ruling .upheld)).detach heard q
      decided :=
  ⟨_, .atomic (.atomic (.atomic (.atomic (.atomic (.await (x := some "signature") rfl
    (.await (x := true) rfl (.atomic .refl)))))))⟩

theorem appealed_walk : ∃ q, Walk (relay operator)
      (appeal operator 2 "dispute" ⟨"dispute", "delegator", EVIDENCE_WINDOW_MS⟩).detach decided q
      appealed :=
  ⟨_, .atomic (.atomic (.atomic (.await (x := Verification.valid) rfl (.atomic .refl))))⟩

theorem appealed_reachable :
    ∃ c, (relay operator).Reachable c ∧ c.store = appealed ∧ c.next = 3 := by
  obtain ⟨c₁, hreach₁, hstore₁, hnext₁⟩ := heard_reachable "operator"
  obtain ⟨q₁, hdecided⟩ := decided_walk
  rw [← hstore₁] at hdecided
  obtain ⟨c₂, hreach₂, hstore₂, -, -, hnext₂⟩ := hdecided.beside hreach₁ (by
    show Entry operator c₁.next _
    rw [hnext₁]
    exact .resolve "dispute" (ruling .upheld))
  obtain ⟨q₂, happealed⟩ := appealed_walk
  rw [← hstore₂] at happealed
  obtain ⟨c₃, hreach₃, hstore₃, -, -, hnext₃⟩ := happealed.beside hreach₂ (by
    show Entry operator c₂.next _
    rw [hnext₂, hnext₁]
    exact .appeal "dispute" ⟨"dispute", "delegator", EVIDENCE_WINDOW_MS⟩)
  exact ⟨c₃, hreach₃, hstore₃, by rw [hnext₃, hnext₂, hnext₁]⟩

theorem paying_walk :
    ∃ f k, Walk (relay operator) (resolve operator 3 "dispute" (ruling .overturned)).detach
        appealed (.atomic f k) (beginRound2 3 "dispute" appealed) ∧
      (f (beginRound2 3 "dispute" appealed)).escrow.allocationDisputeRows "A" ≠ [] ∧
      (f (beginRound2 3 "dispute" appealed)).raced = false :=
  ⟨_, _, .atomic (.atomic (.atomic (.atomic (.await (x := some "signature") rfl
    (.atomic .refl))))), by decide +kernel, by decide +kernel⟩

theorem paying_reachable :
    ∃ c c', (relay operator).Reachable c ∧ (relay operator).Step c c' ∧
      c'.store.escrow.allocationDisputeRows "A" ≠ [] ∧ c'.store.raced = false := by
  obtain ⟨c, hreach, hstore, hnext⟩ := appealed_reachable
  obtain ⟨f, k, hwalk, hrows, hraced⟩ := paying_walk
  rw [← hstore] at hwalk
  obtain ⟨c₁, hreach₁, hstore₁, hthread₁, -⟩ := hwalk.beside hreach (by
    show Entry operator c.next _
    rw [hnext]
    exact .resolve "dispute" (ruling .overturned))
  refine ⟨c₁, _, hreach₁, .act c₁ _ f k hthread₁, ?_, ?_⟩
  · show (f c₁.store).escrow.allocationDisputeRows "A" ≠ []
    rw [hstore₁, hstore]
    exact hrows
  · show (f c₁.store).raced = false
    rw [hstore₁, hstore]
    exact hraced

theorem dispute_moves_money_once_paid :
    ∃ c c', (relay operator).Reachable c ∧ (relay operator).Step c c' ∧
      c'.store.escrow.allocationDisputeRows "A" ≠ [] ∧ MoneyLaw c.store c'.store := by
  obtain ⟨c, c', hreach, hstep, hrows, hraced⟩ := paying_reachable
  exact ⟨c, c', hreach, hstep, hrows, (dispute_moves_money_once operator hreach hstep hraced).1⟩

theorem verdict_never_replaced_paid :
    ∃ c c', (relay operator).Reachable c ∧ (relay operator).Step c c' ∧
      c'.store.escrow.allocationDisputeRows "A" ≠ [] ∧
      VerdictLaw c.store c.store c'.store := by
  obtain ⟨c, c', hreach, hstep, hrows, hraced⟩ := paying_reachable
  exact ⟨c, c', hreach, hstep, hrows, verdict_never_replaced operator hreach .refl hstep hraced⟩

def frozen : Store := { appealed with frozen := true }

/-- The first commit has begun. -/
def begun : Store := beginRound2 3 "dispute" frozen

/-- So has the second. -/
def racing : Store := beginRound2 4 "dispute" begun

/-- The first is refused and leaves its row. -/
def recorded : Store := endRound2 3 (insertRound2 "dispute" (rulingRow .upheld) racing)

/-- So is the second. -/
def replaced : Store := endRound2 4 (insertRound2 "dispute" (rulingRow .overturned) recorded)

theorem first_walks :
    ∃ q, Walk (relay operator) (resolve operator 3 "dispute" (ruling .upheld)).detach frozen q
      begun ∧ ∃ q', Walk (relay operator) q racing q' recorded :=
  ⟨_, .atomic (.atomic (.atomic (.atomic .refl))), _,
    .await (x := some "signature") rfl (.atomic (.atomic (.atomic (.atomic .refl))))⟩

theorem second_walks :
    ∃ q, Walk (relay operator) (resolve operator 4 "dispute" (ruling .overturned)).detach begun q
      racing ∧ ∃ q', Walk (relay operator) q recorded q' replaced :=
  ⟨_, .atomic (.atomic (.atomic (.atomic .refl))), _,
    .await (x := some "signature") rfl (.atomic (.atomic (.atomic (.atomic .refl))))⟩

/-- Unfrozen again. -/
def thawed : Store := { replaced with frozen := false }

/-- The money as a fund action of the ruling leaves it. -/
def paidBy (outcome : DisputeOutcome) : Store :=
  match retryAppealed operator appealedDispute (rulingRow outcome) EVIDENCE_WINDOW_MS thawed with
  | .ok (_, s) => s
  | .error _ => thawed

theorem reader_walks :
    ∃ q, Walk (relay operator) (readDispute operator "dispute").detach recorded q recorded ∧
      ∃ f k, Walk (relay operator) q thawed (.atomic f k) thawed ∧
        f thawed = paidBy .upheld :=
  ⟨_, .atomic (.atomic (.atomic .refl)), _, _, .atomic .refl, rfl⟩

theorem paid_rows : (paidBy .upheld).escrow.allocationDisputeRows "A" ≠ [] := by decide +kernel

theorem thawed_dispute {id : String} {d : Dispute} (h : getDispute id thawed = some d) :
    id = "dispute" := by
  by_contra hne
  have hnone : getDispute id thawed = none := by
    show getDispute id (((((Store.empty 0).putDispute sampleDispute).putDispute
      (sampleDispute.resolved (rulingRow .upheld))).putDispute appealedDispute)) = none
    rw [getDispute_put, if_neg (show id ≠ appealedDispute.disputeId from hne), getDispute_put,
      if_neg (show id ≠ (sampleDispute.resolved (rulingRow .upheld)).disputeId from hne),
      getDispute_put, if_neg (show id ≠ sampleDispute.disputeId from hne)]
    rfl
  rw [hnone] at h
  cases h

theorem paid_breaks_law : ¬MoneyLaw thawed (paidBy .upheld) := by
  intro hlaw
  obtain ⟨-, d, row, -, hto, hgov, hmoves⟩ := hlaw.paid "A" (by
    exact paid_rows)
  rw [thawed_dispute hto.1] at hgov
  have hrow : row = rulingRow .overturned := by
    exact (Option.some.inj hgov).symm
  rw [hrow] at hmoves
  have hbalance := hmoves.balances "worker"
  cases hbalance

theorem recorded_reachable :
    ∃ c q, (relay operator).Reachable c ∧ c.store = recorded ∧ c.next = 5 ∧
      c.thread 4 = some q ∧ ∃ q', Walk (relay operator) q recorded q' replaced := by
  obtain ⟨c₃, hreach₃, hstore₃, hnext₃⟩ := appealed_reachable
  have hfrozen : (relay operator).Reachable ⟨frozen, c₃.thread, c₃.next⟩ := by
    have hstep := hreach₃.step (.env c₃ _ (.freeze true))
    rwa [hstore₃] at hstep
  obtain ⟨q₃, hbegun, q₃', hrecorded⟩ := first_walks
  obtain ⟨c₄, hreach₄, hstore₄, hthread₄, -, hnext₄⟩ := hbegun.beside hfrozen (by
    show Entry operator c₃.next _
    rw [hnext₃]
    exact .resolve "dispute" (ruling .upheld))
  obtain ⟨q₄, hracing, hreplaced⟩ := second_walks
  rw [← hstore₄] at hracing
  obtain ⟨c₅, hreach₅, hstore₅, hthread₅, hothers₅, hnext₅⟩ := hracing.beside hreach₄ (by
    show Entry operator c₄.next _
    rw [hnext₄]
    show Entry operator (c₃.next + 1) _
    rw [hnext₃]
    exact .resolve "dispute" (ruling .overturned))
  have hid₄ : c₄.next = 4 := by
    rw [hnext₄]
    show c₃.next + 1 = 4
    rw [hnext₃]
  have hthread₃ : c₅.thread 3 = some q₃ := by
    rw [hothers₅ 3 (by rw [hid₄]; decide), ← hthread₄]
    show c₄.thread 3 = c₄.thread c₃.next
    rw [hnext₃]
  rw [← hstore₅] at hrecorded
  obtain ⟨c₆, hreach₆, hstore₆, -, hothers₆, hnext₆⟩ := hrecorded.resume hreach₅ hthread₃
  refine ⟨c₆, q₄, hreach₆, hstore₆, by rw [hnext₆, hnext₅, hid₄], ?_, hreplaced⟩
  rw [hothers₆ 4 (by decide), ← hthread₅, hid₄]

/-- **A second verdict in flight replaces the first on record.** -/
theorem in_flight_verdict_replaced :
    ∃ c c₁ c₂, (relay operator).Reachable c ∧ Relation.ReflTransGen (relay operator).Step c c₁ ∧
      (relay operator).Step c₁ c₂ ∧ ¬VerdictLaw c.store c₁.store c₂.store := by
  obtain ⟨c, q, hreach, hstore, -, hthread, q', hwalk⟩ := recorded_reachable
  obtain ⟨c₁, hsteps, hstore₁, -⟩ := hwalk.steps c hstore hthread
  refine ⟨c, c₁, _, hreach, hsteps, .env c₁ _ (.freeze false), fun hlaw => ?_⟩
  obtain ⟨row', hrow', hsame⟩ := hlaw.stands "dispute" .second (rulingRow .upheld) (by
    rw [hstore]
    decide +kernel)
  have hoverturned : row' = rulingRow .overturned := by
    have hrow : c₁.store.resolutions "dispute" .second = some row' := hrow'
    rw [hstore₁, show replaced.resolutions "dispute" .second = some (rulingRow .overturned) from by
      decide +kernel] at hrow
    exact (Option.some.inj hrow).symm
  rw [hoverturned] at hsame
  exact absurd hsame.1 (by decide)

/-- **A read that took the first verdict up moves the money by it**, with the second on
    record. -/
theorem stale_verdict_moves_money :
    ∃ c c', (relay operator).Reachable c ∧ (relay operator).Step c c' ∧
      ¬MoneyLaw c.store c'.store := by
  obtain ⟨c, q₄, hreach, hstore, hnext, hthread₄, q₄', hreplaced⟩ := recorded_reachable
  obtain ⟨q₅, hread, f, k, hnow, hf⟩ := reader_walks
  rw [← hstore] at hread
  obtain ⟨c₁, hreach₁, hstore₁, hthread₁, hothers₁, hnext₁⟩ := hread.beside hreach (.read "dispute")
  have hthread₄₁ : c₁.thread 4 = some q₄ := by
    rw [hothers₁ 4 (by rw [hnext]; decide)]
    exact hthread₄
  rw [show recorded = c₁.store from by rw [hstore₁, hstore]] at hreplaced
  obtain ⟨c₂, hreach₂, hstore₂, -, hothers₂, hnext₂⟩ := hreplaced.resume hreach₁ hthread₄₁
  have hthawed : (relay operator).Reachable ⟨thawed, c₂.thread, c₂.next⟩ := by
    have hstep := hreach₂.step (.env c₂ _ (.freeze false))
    rwa [hstore₂] at hstep
  have hthread₅ : c₂.thread 5 = some q₅ := by
    rw [hothers₂ 5 (by decide), ← hthread₁, hnext]
  obtain ⟨c₃, hreach₃, hstore₃, hthread₃, -⟩ := hnow.resume hthawed hthread₅
  refine ⟨c₃, _, hreach₃, .act c₃ 5 f k hthread₃, fun hlaw => ?_⟩
  have hlaw' : MoneyLaw thawed (f thawed) := by
    rw [← hstore₃]
    exact hlaw
  rw [hf] at hlaw'
  exact paid_breaks_law hlaw'

end Motebit.Disputes
