/-
  Motebit.Sync.Appends — ENCRYPTED APPENDS IN CALL ORDER: a chain of promises.

  Translated from `packages/sync-engine/src/encrypted-adapter.ts` (`append`,
  `encryptPayload`).  Any number of appends run at once.  Each waits for its own encryption and
  then for the promise of the call before it; its `finally` resolves its own promise.  When the
  key lookup, the serialization or the encryption throws, the `finally` runs without that wait.

  Main results: `never_stuck`, `appends_in_order`.
-/

import Motebit.Lib.Transition
import Motebit.Sync.Envelope

namespace Motebit.Sync.Appends

open Motebit.Lib Motebit.Sync List

/-! ## §1. Model -/

/-- Where one call of `append` stands. -/
inductive Phase
  /-- Behind `await this.encryptPayload(…)`. -/
  | encrypting
  /-- Behind `await before`. -/
  | waiting (data : Text)
  | handed
  | failed

structure Call where
  entry : EventLogEntry
  phase : Phase

/-- The calls in call order, and what the inner adapter was handed, each with its call. -/
structure State where
  calls : List Call
  inner : List (Nat × EventLogEntry)

/-- The promise `handedOn` of a call is resolved. -/
def Phase.resolved : Phase → Bool
  | .handed => true
  | .failed => true
  | _ => false

def State.resolvedAt (s : State) (i : Nat) : Bool := (s.calls[i]?).any fun c => c.phase.resolved

/-- `before` of a call is resolved; the first call's is from the start. -/
def State.released (s : State) (i : Nat) : Bool := i == 0 || s.resolvedAt (i - 1)

/-- `{ ...entry, payload: { _encrypted: true, _data } }`. -/
def wrapped (entry : EventLogEntry) (data : Text) : EventLogEntry :=
  { entry with payload := envelope data }

def Call.put (phase : Phase) (c : Call) : Call := ⟨c.entry, phase⟩

inductive Act
  /-- `append(entry)`, up to its first `await`. -/
  | call (entry : EventLogEntry)
  /-- The encryption of a call ends. -/
  | encrypted (i : Nat) (payload : EncryptedPayload) (version : Nat)
  /-- The key lookup, the serialization or the encryption of a call threw. -/
  | fails (i : Nat)
  /-- The call behind `await before`: the push, and its `finally`. -/
  | handOn (i : Nat)

def enabled (s : State) : Act → Prop
  | .call _ => True
  | .encrypted i _ _ => ∃ entry, s.calls[i]? = some ⟨entry, .encrypting⟩
  | .fails i => ∃ entry, s.calls[i]? = some ⟨entry, .encrypting⟩
  | .handOn i => (∃ entry data, s.calls[i]? = some ⟨entry, .waiting data⟩) ∧ s.released i = true

def apply (s : State) : Act → State
  | .call entry => { s with calls := s.calls ++ [⟨entry, .encrypting⟩] }
  | .encrypted i payload version =>
    { s with calls := s.calls.modify i (Call.put (.waiting (encodeEnvelopeData payload version))) }
  -- `finally` resolves the promise whatever `before` is
  | .fails i => { s with calls := s.calls.modify i (Call.put .failed) }
  | .handOn i =>
    match s.calls[i]? with
    | some ⟨entry, .waiting data⟩ =>
      { calls := s.calls.modify i (Call.put .handed), inner := s.inner ++ [(i, wrapped entry data)] }
    | _ => s

def adapter : System State Act := ⟨⟨[], []⟩, enabled, apply⟩

/-- An encryption fails only when the call before it was handed on or failed. -/
def FailsInTurn (s : State) : Act → Prop
  | .fails i => s.released i = true
  | _ => True

/-- The adapter, where no call fails ahead of its turn. -/
def adapterInTurn : System State Act :=
  ⟨⟨[], []⟩, fun s a => enabled s a ∧ FailsInTurn s a, apply⟩

/-! ## §2. What the inner adapter saw -/

def Call.isHanded (c : Call) : Bool :=
  match c.phase with
  | .handed => true
  | _ => false

def State.handedAt (s : State) (i : Nat) : Bool := (s.calls[i]?).any Call.isHanded

/-- The inner adapter saw the handed calls in call order, each once, each with its entry in an
    envelope.  When every call is resolved those are the calls that did not fail. -/
structure Ordered (s : State) : Prop where
  order : s.inner.map Prod.fst = (List.range s.calls.length).filter s.handedAt
  entries : ∀ p ∈ s.inner, ∃ c data, s.calls[p.1]? = some c ∧ p.2 = wrapped c.entry data

/-- The steps a call still has before its promise is resolved. -/
def Phase.steps : Phase → Nat
  | .encrypting => 2
  | .waiting _ => 1
  | _ => 0

def pending (s : State) (i : Nat) : Nat := ((s.calls.take (i + 1)).map fun c => c.phase.steps).sum

/-- The call a step belongs to. -/
def Act.owner : Act → Option Nat
  | .call _ => none
  | .encrypted i _ _ => some i
  | .fails i => some i
  | .handOn i => some i

/-! ## §3. No append waits forever -/

variable {s : State} {i : Nat}

theorem resolvedAt_of_getElem? {c : Call} (h : s.calls[i]? = some c) :
    s.resolvedAt i = c.phase.resolved := by
  simp [State.resolvedAt, h]

/-- **Never stuck**: for every call that is not resolved there is one, it or an earlier one,
    whose encryption runs or whose hand-over can happen now. -/
theorem exists_ready (s : State) (i : Nat) (hi : i < s.calls.length) (h : s.resolvedAt i = false) :
    ∃ j ≤ i, (∃ entry, s.calls[j]? = some ⟨entry, .encrypting⟩) ∨ enabled s (.handOn j) := by
  induction i using Nat.strongRecOn with
  | ind i ih =>
    obtain ⟨⟨entry, phase⟩, hget⟩ : ∃ c, s.calls[i]? = some c :=
      ⟨s.calls[i], getElem?_eq_getElem hi⟩
    rw [resolvedAt_of_getElem? hget] at h
    cases phase with
    | encrypting => exact ⟨i, Nat.le_refl i, Or.inl ⟨entry, hget⟩⟩
    | waiting data =>
      by_cases hreleased : s.released i = true
      · exact ⟨i, Nat.le_refl i, Or.inr ⟨⟨entry, data, hget⟩, hreleased⟩⟩
      · -- it waits for the call before it, which is not resolved either
        simp only [State.released, Bool.or_eq_true, beq_iff_eq, not_or,
          Bool.not_eq_true] at hreleased
        obtain ⟨j, hj, hready⟩ := ih (i - 1) (by omega) (by omega) hreleased.2
        exact ⟨j, by omega, hready⟩
    | handed | failed => cases h

theorem sum_take_modify {α : Type} (w : α → Nat) (f : α → α) (l : List α) : ∀ (j n : Nat) (c : α),
    l[j]? = some c → w (f c) < w c →
    (j < n → (((l.modify j f).take n).map w).sum < ((l.take n).map w).sum) ∧
      (n ≤ j → (((l.modify j f).take n).map w).sum = ((l.take n).map w).sum) := by
  induction l with
  | nil =>
    intro j n c h
    simp at h
  | cons a l ih =>
    intro j n c h hlt
    cases n with
    | zero => simp
    | succ n =>
      cases j with
      | zero =>
        obtain rfl : a = c := by simpa using h
        simp [hlt]
      | succ j =>
        have hrest := ih j n c h hlt
        simp only [modify_succ_cons, take_succ_cons, map_cons, sum_cons]
        constructor
        · intro hjn
          have := hrest.1 (by omega)
          omega
        · intro hjn
          have := hrest.2 (by omega)
          omega

/-- **Every step of a call counts down**, for the calls from it on, and no step counts up. -/
theorem pending_step {a : Act} (hen : enabled s a) (hi : i < s.calls.length) :
    pending (apply s a) i ≤ pending s i ∧
      ∀ j, a.owner = some j → j ≤ i → pending (apply s a) i < pending s i := by
  have hsteps : ∀ (j : Nat) (c : Call) (phase : Phase), s.calls[j]? = some c →
      phase.steps < c.phase.steps →
      (((s.calls.modify j (Call.put phase)).take (i + 1)).map fun c => c.phase.steps).sum ≤
          pending s i ∧
        (j ≤ i → (((s.calls.modify j (Call.put phase)).take (i + 1)).map
          fun c => c.phase.steps).sum < pending s i) := by
    intro j c phase hc hlt
    have hsum := sum_take_modify (fun c : Call => c.phase.steps) (Call.put phase) s.calls j
      (i + 1) c hc hlt
    by_cases hj : j < i + 1
    · exact ⟨(hsum.1 hj).le, fun _ => hsum.1 hj⟩
    · exact ⟨(hsum.2 (by omega)).le, fun hle => absurd hle (by omega)⟩
  cases a with
  | call entry =>
    have htake : (apply s (.call entry)).calls.take (i + 1) = s.calls.take (i + 1) :=
      take_append_of_le_length (by omega)
    refine ⟨?_, nofun⟩
    unfold pending
    rw [htake]
  | encrypted j payload version =>
    obtain ⟨entry, hc⟩ := hen
    have hdown := hsteps j _ (.waiting (encodeEnvelopeData payload version)) hc (Nat.lt_succ_self 1)
    exact ⟨hdown.1, fun k hk hle => hdown.2 (by obtain rfl := Option.some.inj hk; exact hle)⟩
  | fails j =>
    obtain ⟨entry, hc⟩ := hen
    have hdown := hsteps j _ .failed hc (Nat.succ_pos 1)
    exact ⟨hdown.1, fun k hk hle => hdown.2 (by obtain rfl := Option.some.inj hk; exact hle)⟩
  | handOn j =>
    obtain ⟨⟨entry, data, hc⟩, -⟩ := hen
    have hdown := hsteps j _ .handed hc (Nat.lt_succ_self 0)
    have happly : (apply s (.handOn j)).calls = s.calls.modify j (Call.put .handed) := by
      simp [apply, hc]
    unfold pending at hdown ⊢
    rw [happly]
    exact ⟨hdown.1, fun k hk hle => hdown.2 (by obtain rfl := Option.some.inj hk; exact hle)⟩

/-! ## §4. Order -/

theorem State.resolvedAt_modify (s : State) (i : Nat) (phase : Phase)
    (inner : List (Nat × EventLogEntry)) (hi : i < s.calls.length) (j : Nat) :
    State.resolvedAt ⟨s.calls.modify i (Call.put phase), inner⟩ j =
      if i = j then phase.resolved else s.resolvedAt j := by
  unfold State.resolvedAt
  rw [getElem?_modify]
  by_cases hij : i = j
  · subst hij
    rw [getElem?_eq_getElem hi]
    simp [Call.put]
  · simp [hij]

theorem State.handedAt_modify (s : State) (i : Nat) (phase : Phase)
    (inner : List (Nat × EventLogEntry)) (hi : i < s.calls.length) (j : Nat) :
    State.handedAt ⟨s.calls.modify i (Call.put phase), inner⟩ j =
      if i = j then (Call.put phase s.calls[i]).isHanded else s.handedAt j := by
  unfold State.handedAt
  rw [getElem?_modify]
  by_cases hij : i = j
  · subst hij
    rw [getElem?_eq_getElem hi]
    simp
  · simp [hij]

theorem resolvedAt_of_handedAt (h : s.handedAt i = true) : s.resolvedAt i = true := by
  unfold State.handedAt at h
  unfold State.resolvedAt
  cases hc : s.calls[i]? with
  | none => simp [hc] at h
  | some c =>
    rw [hc] at h
    obtain ⟨entry, phase⟩ := c
    cases phase with
    | handed => rfl
    | _ => cases h

/-- The resolved calls are the first ones. -/
def Closed (s : State) : Prop := ∀ i, s.resolvedAt (i + 1) = true → s.resolvedAt i = true

theorem Closed.later (h : Closed s) (hi : s.resolvedAt i = false) :
    ∀ j, i ≤ j → s.resolvedAt j = false := by
  intro j hij
  induction j, hij using Nat.le_induction with
  | base => exact hi
  | succ j _ ih =>
    by_contra hres
    rw [h j (by simpa using hres)] at ih
    cases ih

theorem filter_range {p : Nat → Bool} {m n : Nat} (hmn : m ≤ n)
    (h : ∀ j, m ≤ j → p j = false) : (List.range n).filter p = (List.range m).filter p := by
  obtain ⟨k, rfl⟩ := Nat.exists_eq_add_of_le hmn
  rw [range_add, filter_append]
  have hnone : ((List.range k).map (m + ·)).filter p = [] := by
    rw [filter_eq_nil_iff]
    intro j hj
    obtain ⟨d, -, rfl⟩ := mem_map.mp hj
    simp [h (m + d) (by omega)]
  rw [hnone, append_nil]

/-- The invariant of a run in which no call fails ahead of its turn. -/
structure InTurn (s : State) : Prop where
  closed : Closed s
  ordered : Ordered s

theorem Ordered.of_same {s' : State} (h : Ordered s) (hinner : s'.inner = s.inner)
    (hlength : s'.calls.length = s.calls.length) (hhanded : ∀ j, s'.handedAt j = s.handedAt j)
    (hentries : ∀ (j : Nat) (c : Call), s.calls[j]? = some c →
      ∃ c' : Call, s'.calls[j]? = some c' ∧ c'.entry = c.entry) : Ordered s' := by
  constructor
  · have hsame : s'.handedAt = s.handedAt := funext hhanded
    rw [hinner, hlength, hsame]
    exact h.order
  · intro p hp
    rw [hinner] at hp
    obtain ⟨c, data, hc, hwrapped⟩ := h.entries p hp
    obtain ⟨c', hc', hentry⟩ := hentries p.1 c hc
    exact ⟨c', data, hc', by rw [hwrapped, hentry]⟩

theorem entry_modify (calls : List Call) (i : Nat) (phase : Phase) (j : Nat) (c : Call)
    (h : calls[j]? = some c) :
    ∃ c' : Call, (calls.modify i (Call.put phase))[j]? = some c' ∧ c'.entry = c.entry := by
  rw [getElem?_modify, h]
  by_cases hij : i = j
  · exact ⟨Call.put phase c, by simp [hij], rfl⟩
  · exact ⟨c, by simp [hij], rfl⟩

theorem lt_of_getElem? {c : Call} (h : s.calls[i]? = some c) : i < s.calls.length := by
  obtain ⟨hi, -⟩ := List.getElem?_eq_some_iff.mp h
  exact hi

theorem Ordered.leaves (h : Ordered s) {entry : EventLogEntry}
    (hc : s.calls[i]? = some ⟨entry, .encrypting⟩) {phase : Phase}
    (hphase : ∀ c : Call, (Call.put phase c).isHanded = false) :
    Ordered ⟨s.calls.modify i (Call.put phase), s.inner⟩ := by
  refine h.of_same rfl (length_modify ..) ?_ (entry_modify s.calls i phase)
  intro j
  rw [State.handedAt_modify s i phase s.inner (lt_of_getElem? hc), hphase]
  by_cases hij : i = j
  · subst hij
    simp [State.handedAt, hc, Call.isHanded]
  · simp [hij]

theorem InTurn.call (h : InTurn s) (entry : EventLogEntry) : InTurn (apply s (.call entry)) := by
  have hget : ∀ j, (s.calls ++ [⟨entry, .encrypting⟩])[j]? =
      if j = s.calls.length then some ⟨entry, .encrypting⟩ else s.calls[j]? := by
    intro j
    rw [getElem?_append]
    split_ifs with hlt heq heq
    · omega
    · rfl
    · simp [heq]
    · rw [getElem?_eq_none (by simp; omega), getElem?_eq_none (by omega)]
  have hresolved : ∀ j, (apply s (.call entry)).resolvedAt j = s.resolvedAt j := by
    intro j
    show ((s.calls ++ [⟨entry, .encrypting⟩])[j]?).any _ = _
    rw [hget]
    split_ifs with heq
    · simp [State.resolvedAt, heq, Phase.resolved]
    · rfl
  have hhanded : ∀ j, (apply s (.call entry)).handedAt j = s.handedAt j := by
    intro j
    show ((s.calls ++ [⟨entry, .encrypting⟩])[j]?).any _ = _
    rw [hget]
    split_ifs with heq
    · simp [State.handedAt, heq, Call.isHanded]
    · rfl
  refine ⟨?_, ?_, ?_⟩
  · intro i hi
    rw [hresolved] at hi ⊢
    exact h.closed i hi
  · show s.inner.map Prod.fst = _
    have hsame : (apply s (.call entry)).handedAt = s.handedAt := funext hhanded
    have hlast : s.handedAt s.calls.length = false := by simp [State.handedAt]
    rw [hsame, h.ordered.order]
    show _ = (List.range (s.calls ++ [_]).length).filter _
    rw [length_append, length_singleton, range_succ, filter_append]
    simp [hlast]
  · intro p hp
    obtain ⟨c, data, hc, hwrapped⟩ := h.ordered.entries p hp
    refine ⟨c, data, ?_, hwrapped⟩
    show (s.calls ++ [_])[p.1]? = some c
    rw [getElem?_append_left (lt_of_getElem? hc), hc]

theorem released_pred (h : s.released (i + 1) = true) : s.resolvedAt i = true := by
  simpa [State.released] using h

theorem Closed.resolves (h : Closed s) (hi : i < s.calls.length) (hreleased : s.released i = true)
    {phase : Phase} (hphase : phase.resolved = true) (inner : List (Nat × EventLogEntry)) :
    Closed ⟨s.calls.modify i (Call.put phase), inner⟩ := by
  intro k hk
  rw [State.resolvedAt_modify s i phase inner hi] at hk ⊢
  by_cases hik : i = k
  · rw [if_pos hik, hphase]
  rw [if_neg hik]
  by_cases hnext : i = k + 1
  · subst hnext
    exact released_pred hreleased
  · rw [if_neg hnext] at hk
    exact h k hk

theorem InTurn.encrypted (h : InTurn s) {payload : EncryptedPayload} {version : Nat}
    (hen : enabled s (.encrypted i payload version)) :
    InTurn (apply s (.encrypted i payload version)) := by
  obtain ⟨entry, hc⟩ := hen
  refine ⟨?_, h.ordered.leaves hc fun _ => rfl⟩
  intro k hk
  have hunresolved : s.resolvedAt i = false := resolvedAt_of_getElem? hc
  rw [apply, State.resolvedAt_modify s i _ s.inner (lt_of_getElem? hc)] at hk ⊢
  by_cases hnext : i = k + 1
  · rw [if_pos hnext] at hk
    cases hk
  rw [if_neg hnext] at hk
  by_cases hik : i = k
  · subst hik
    rw [h.closed i hk] at hunresolved
    cases hunresolved
  · rw [if_neg hik]
    exact h.closed k hk

theorem InTurn.fails (h : InTurn s) (hen : enabled s (.fails i)) (hturn : s.released i = true) :
    InTurn (apply s (.fails i)) := by
  obtain ⟨entry, hc⟩ := hen
  exact ⟨h.closed.resolves (lt_of_getElem? hc) hturn rfl s.inner, h.ordered.leaves hc fun _ => rfl⟩

/-- **The hand-over puts the next call behind those handed before.** -/
theorem InTurn.handOn (h : InTurn s) (hen : enabled s (.handOn i)) :
    InTurn (apply s (.handOn i)) := by
  obtain ⟨⟨entry, data, hc⟩, hreleased⟩ := hen
  have hi := lt_of_getElem? hc
  have happly : apply s (.handOn i) =
      ⟨s.calls.modify i (Call.put .handed), s.inner ++ [(i, wrapped entry data)]⟩ := by
    simp [apply, hc]
  have hunresolved : s.resolvedAt i = false := resolvedAt_of_getElem? hc
  have hlater : ∀ j, i ≤ j → s.handedAt j = false := by
    intro j hij
    by_contra hhanded
    have hres := resolvedAt_of_handedAt (by simpa using hhanded)
    rw [h.closed.later hunresolved j hij] at hres
    cases hres
  have hhanded : ∀ j, (apply s (.handOn i)).handedAt j = if i = j then true else s.handedAt j := by
    intro j
    rw [happly, State.handedAt_modify s i .handed _ hi]
    rfl
  refine ⟨?_, ?_, ?_⟩
  · rw [happly]
    exact h.closed.resolves hi hreleased rfl _
  · have hlength : (apply s (.handOn i)).calls.length = s.calls.length := by
      rw [happly]
      exact length_modify ..
    have hrest : (List.range s.calls.length).filter (apply s (.handOn i)).handedAt =
        (List.range (i + 1)).filter (apply s (.handOn i)).handedAt := by
      apply filter_range (by omega)
      intro j hj
      rw [hhanded, if_neg (by omega)]
      exact hlater j (by omega)
    have hbefore : (List.range i).filter (apply s (.handOn i)).handedAt =
        (List.range i).filter s.handedAt := by
      apply filter_congr
      intro j hj
      have hlt := List.mem_range.mp hj
      rw [hhanded, if_neg (by omega)]
    have hat : (apply s (.handOn i)).handedAt i = true := by
      rw [hhanded, if_pos rfl]
    rw [hlength, hrest, range_succ, filter_append, hbefore,
      ← filter_range (by omega : i ≤ s.calls.length) hlater, ← h.ordered.order, happly]
    rw [happly] at hat
    simp [hat]
  · intro p hp
    rw [happly] at hp ⊢
    rcases mem_append.mp hp with hp | hp
    · obtain ⟨c, data', hc', hwrapped⟩ := h.ordered.entries p hp
      obtain ⟨c', hget, hentry⟩ := entry_modify s.calls i .handed p.1 c hc'
      exact ⟨c', data', hget, by rw [hwrapped, hentry]⟩
    · rw [mem_singleton.mp hp]
      obtain ⟨c', hget, hentry⟩ := entry_modify s.calls i .handed i _ hc
      exact ⟨c', data, hget, by rw [hentry]⟩

theorem inTurn_of_reachable (h : adapterInTurn.Reachable s) : InTurn s := by
  refine System.Reachable.invariant InTurn ?_ ?_ h
  · refine ⟨fun i hi => ?_, rfl, fun p hp => ?_⟩
    · simp [adapterInTurn, State.resolvedAt] at hi
    · simp [adapterInTurn] at hp
  · rintro u a hu ⟨hen, hturn⟩
    cases a with
    | call entry => exact hu.call entry
    | encrypted => exact hu.encrypted hen
    | fails => exact hu.fails hen hturn
    | handOn => exact hu.handOn hen

/-! ## §5. Call order, and no append left waiting -/

def Call.isFailed (c : Call) : Bool :=
  match c.phase with
  | .failed => true
  | _ => false

def State.failedAt (s : State) (i : Nat) : Bool := (s.calls[i]?).any Call.isFailed

theorem handedAt_of_resolved (h : s.resolvedAt i = true) : s.handedAt i = !s.failedAt i := by
  unfold State.resolvedAt at h
  unfold State.handedAt State.failedAt
  cases hc : s.calls[i]? with
  | none => simp [hc] at h
  | some c =>
    rw [hc] at h
    obtain ⟨entry, phase⟩ := c
    cases phase with
    | encrypting | waiting => cases h
    | handed | failed => rfl

/-- What an append waits for can happen: up to each call that is not resolved some encryption
    runs or some hand-over is enabled, and the steps up to it only count down. -/
def Progress (s : State) : Prop :=
  (∀ i < s.calls.length, s.resolvedAt i = false →
    ∃ j ≤ i, (∃ entry, s.calls[j]? = some ⟨entry, .encrypting⟩) ∨ enabled s (.handOn j)) ∧
  ∀ a, enabled s a → ∀ i < s.calls.length, pending (apply s a) i ≤ pending s i ∧
    ∀ j, a.owner = some j → j ≤ i → pending (apply s a) i < pending s i

/-- **No append waits forever.** -/
theorem never_stuck (s : State) : Progress s :=
  ⟨fun i hi h => exists_ready s i hi h, fun _ hen _ hi => pending_step hen hi⟩

/-- **Appends reach the inner adapter in call order** in every run in which no call fails ahead
    of its turn; once all are resolved, those are exactly the calls that did not fail.  In every
    run no append waits forever. -/
theorem appends_in_order (s : State) :
    (adapterInTurn.Reachable s → Ordered s ∧ ((∀ i < s.calls.length, s.resolvedAt i = true) →
        s.inner.map Prod.fst = (List.range s.calls.length).filter fun i => !s.failedAt i)) ∧
    (adapter.Reachable s → Progress s) := by
  refine ⟨?_, fun _ => never_stuck s⟩
  intro hs
  have hordered := (inTurn_of_reachable hs).ordered
  refine ⟨hordered, ?_⟩
  intro hall
  rw [hordered.order]
  apply filter_congr
  intro i hi
  exact handedAt_of_resolved (hall i (List.mem_range.mp hi))

def event (id : Char) : EventLogEntry where
  event_id := toText [id]
  motebit_id := []
  device_id := none
  timestamp := 0
  event_type := []
  payload := .object []
  version_clock := 1
  tombstoned := false

/-- Two calls, the second encrypted first. -/
def twoCalls : List Act :=
  [.call (event 'a'), .call (event 'b'), .encrypted 1 sample 1, .encrypted 0 sample 1, .handOn 0,
    .handOn 1]

theorem appends_in_order_two :
    ((adapterInTurn.run adapterInTurn.init twoCalls).inner.map Prod.fst) = [0, 1] ∧
      Ordered (adapterInTurn.run adapterInTurn.init twoCalls) :=
  ⟨rfl, ((appends_in_order _).1 (adapterInTurn.reachableFrom_run _ twoCalls
    ⟨⟨trivial, trivial⟩, ⟨trivial, trivial⟩, ⟨⟨event 'b', rfl⟩, trivial⟩,
      ⟨⟨event 'a', rfl⟩, trivial⟩, ⟨⟨⟨event 'a', _, rfl⟩, rfl⟩, trivial⟩,
      ⟨⟨⟨event 'b', _, rfl⟩, rfl⟩, trivial⟩, trivial⟩)).1⟩

/-- The second of three calls fails while the first still encrypts; the third is through. -/
def overtaken : List Act :=
  [.call (event 'a'), .call (event 'b'), .call (event 'c'), .encrypted 2 sample 1, .fails 1,
    .handOn 2, .encrypted 0 sample 1, .handOn 0]

/-- The third reaches the inner adapter before the first. -/
theorem append_overtakes : ∃ s, adapter.Reachable s ∧ s.inner.map Prod.fst = [2, 0] ∧
    ¬ Ordered s := by
  refine ⟨adapter.run adapter.init overtaken, adapter.reachableFrom_run _ overtaken
    ⟨trivial, trivial, trivial, ⟨event 'c', rfl⟩, ⟨event 'b', rfl⟩, ⟨⟨event 'c', _, rfl⟩, rfl⟩,
      ⟨event 'a', rfl⟩, ⟨⟨event 'a', _, rfl⟩, rfl⟩, trivial⟩, rfl, ?_⟩
  intro hordered
  have horder := hordered.order
  cases horder

end Motebit.Sync.Appends
