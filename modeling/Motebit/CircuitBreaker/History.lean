/-
  Motebit.CircuitBreaker.History — THE BREAKER FORGETS NOTHING THAT MATTERS.

  Translated from `packages/circuit-breaker/src/index.ts` (`CircuitBreaker`).

  A peer's state is a function of its calls and their times.  The breaker keeps only some of the
  failures: what it prunes lies behind the window for good, since the clock does not run
  backwards.  The first failure of a peer is not pruned, so a negative window matters there.

  Main results: `run_tracks`, `breaker_refines`.
-/

import Mathlib.Tactic.Linarith
import Motebit.Lib.JsMap

namespace Motebit.CircuitBreaker

open Motebit.Lib List

/-! ## §1. The breaker -/

inductive CircuitState
  | closed
  | opened
  | half_open
  deriving DecidableEq

structure CircuitBreakerConfig where
  failureThreshold : ℚ
  successThreshold : ℚ
  resetTimeoutMs : ℚ
  windowMs : ℚ

structure PeerEntry where
  state : CircuitState
  failureTimestamps : List ℚ
  halfOpenSuccesses : Nat
  lastFailureAt : ℚ
  lastStateChangeAt : ℚ

variable (config : CircuitBreakerConfig)

def PeerEntry.transition (entry : PeerEntry) (newState : CircuitState) (now : ℚ) : PeerEntry :=
  { entry with
    state := newState
    lastStateChangeAt := now
    failureTimestamps := if newState = .half_open then entry.failureTimestamps else []
    halfOpenSuccesses := 0 }

def PeerEntry.pruneWindow (entry : PeerEntry) (now : ℚ) : PeerEntry :=
  { entry with
    failureTimestamps := entry.failureTimestamps.filter fun ts => ts ≥ now - config.windowMs }

/-- What each method does with the entry of its peer. -/
def recordSuccess (now : ℚ) : Option PeerEntry → Option PeerEntry
  | none => none
  | some entry =>
    match entry.state with
    | .half_open =>
      let entry := { entry with halfOpenSuccesses := entry.halfOpenSuccesses + 1 }
      if entry.halfOpenSuccesses ≥ config.successThreshold then some (entry.transition .closed now)
      else some entry
    | .closed => some (entry.pruneWindow config now)
    | .opened => some entry

def recordFailure (now : ℚ) : Option PeerEntry → Option PeerEntry
  | none =>
    let entry : PeerEntry := ⟨.closed, [now], 0, now, now⟩
    if entry.failureTimestamps.length ≥ config.failureThreshold then
      some (entry.transition .opened now)
    else some entry
  | some entry =>
    let entry := { entry with lastFailureAt := now }
    match entry.state with
    | .half_open => some (entry.transition .opened now)
    | .closed =>
      let entry := { entry with failureTimestamps := entry.failureTimestamps ++ [now] }
      let entry := entry.pruneWindow config now
      if entry.failureTimestamps.length ≥ config.failureThreshold then
        some (entry.transition .opened now)
      else some entry
    | .opened => some entry

/-- The answer, and the entry. -/
def canForward (now : ℚ) : Option PeerEntry → Bool × Option PeerEntry
  | none => (true, none)
  | some entry =>
    match entry.state with
    | .opened =>
      if now - entry.lastStateChangeAt ≥ config.resetTimeoutMs then
        (true, some (entry.transition .half_open now))
      else (false, some entry)
    | _ => (true, some entry)

/-- `getState`: the entry, as it answers it. -/
def getState (now : ℚ) : Option PeerEntry → Option PeerEntry
  | none => none
  | some entry => if entry.state = .closed then some (entry.pruneWindow config now) else some entry

inductive Method
  | recordSuccess
  | recordFailure
  | canForward
  | getState
  | reset

def visit (now : ℚ) (entry : Option PeerEntry) : Method → Option PeerEntry
  | .recordSuccess => recordSuccess config now entry
  | .recordFailure => recordFailure config now entry
  | .canForward => (canForward config now entry).2
  | .getState => getState config now entry
  | .reset => none

structure Call (P : Type) where
  method : Method
  peerId : P
  now : ℚ

variable {P : Type} [DecidableEq P]

def call (peers : JsMap P PeerEntry) (c : Call P) : JsMap P PeerEntry :=
  match visit config c.now (peers.get c.peerId) c.method with
  | some entry => peers.set c.peerId entry
  | none => peers.delete c.peerId

def run (calls : List (Call P)) : JsMap P PeerEntry := calls.foldl (call config) []

/-! ## §2. What a history says -/

/-- Closed, with all the failures since; open since a time; or probing, with the successes since. -/
inductive Standing
  | closed (failures : List ℚ)
  | opened (since : ℚ)
  | probing (successes : Nat)

def Standing.state : Standing → CircuitState
  | .closed _ => .closed
  | .opened _ => .opened
  | .probing _ => .half_open

def Standing.next : Standing → Method × ℚ → Standing
  | _, (.reset, _) => .closed []
  | .closed failures, (.recordFailure, now) =>
    if config.failureThreshold ≤
        (failures ++ [now]).countP fun ts => now - config.windowMs ≤ ts then .opened now
    else .closed (failures ++ [now])
  | .opened since, (.canForward, now) =>
    if config.resetTimeoutMs ≤ now - since then .probing 0 else .opened since
  | .probing successes, (.recordSuccess, _) =>
    if config.successThreshold ≤ (successes + 1 : Nat) then .closed []
    else .probing (successes + 1)
  | .probing _, (.recordFailure, now) => .opened now
  | standing, _ => standing

/-- The calls of a peer, and their times. -/
def history (p : P) (calls : List (Call P)) : List (Method × ℚ) :=
  (calls.filter fun c => c.peerId = p).map fun c => (c.method, c.now)

def standing (events : List (Method × ℚ)) : Standing :=
  events.foldl (Standing.next config) (.closed [])

/-! ## §3. An entry and a history -/

/-- The entry shows the standing; of the failures it may lack those behind the window. -/
def Tracks (now : ℚ) : Option PeerEntry → Standing → Prop
  | none, .closed failures => failures = []
  | some entry, .closed failures => entry.state = .closed ∧
      ∃ cutoff ≤ now - config.windowMs,
        entry.failureTimestamps = failures.filter fun ts => cutoff ≤ ts
  | some entry, .opened since => entry.state = .opened ∧ entry.lastStateChangeAt = since
  | some entry, .probing successes =>
    entry.state = .half_open ∧ entry.halfOpenSuccesses = successes
  | none, _ => False

variable {config} {now : ℚ} {entry : Option PeerEntry} {st : Standing}

theorem Tracks.mono (h : Tracks config now entry st) {now' : ℚ} (hle : now ≤ now') :
    Tracks config now' entry st := by
  cases entry <;> cases st
  case some.closed entry failures =>
    obtain ⟨hstate, cutoff, hcutoff, hkept⟩ := h
    exact ⟨hstate, cutoff, by linarith, hkept⟩
  all_goals exact h

/-- **What was pruned** would be pruned again. -/
theorem prune_again {cutoff later : ℚ} (hle : cutoff ≤ later) (failures : List ℚ) :
    (failures.filter fun ts => cutoff ≤ ts).filter (fun ts => ts ≥ later) =
      failures.filter fun ts => later ≤ ts := by
  rw [filter_filter]
  refine filter_congr fun ts _ => ?_
  have hpast : later ≤ ts → cutoff ≤ ts := hle.trans
  by_cases hts : later ≤ ts <;> simp [hts, hpast]

theorem Tracks.prune {entry : PeerEntry} {failures : List ℚ}
    (h : Tracks config now (some entry) (.closed failures)) :
    Tracks config now (some (entry.pruneWindow config now)) (.closed failures) := by
  obtain ⟨hstate, cutoff, hcutoff, hkept⟩ := h
  refine ⟨hstate, _, le_refl _, ?_⟩
  show entry.failureTimestamps.filter _ = _
  rw [hkept, prune_again hcutoff]

theorem Tracks.fail (h : Tracks config now entry st)
    (hconfig : 0 ≤ config.windowMs ∨ 1 < config.failureThreshold) :
    Tracks config now (recordFailure config now entry) (st.next config (.recordFailure, now)) := by
  cases entry with
  | none =>
    cases st with
    | closed failures =>
      obtain rfl : failures = [] := h
      have hcount : config.failureThreshold ≤
          ([now].countP fun ts => now - config.windowMs ≤ ts : Nat) ↔
            config.failureThreshold ≤ (1 : Nat) := by
        rcases hconfig with hwindow | hmany
        · simp [hwindow]
        · have hle : ([now].countP fun ts => now - config.windowMs ≤ ts) ≤ 1 := countP_le_length
          have hcast : (([now].countP fun ts => now - config.windowMs ≤ ts : Nat) : ℚ) ≤ 1 := by
            exact_mod_cast hle
          constructor <;> intro h <;> push_cast at * <;> linarith
      unfold recordFailure Standing.next
      dsimp only
      split_ifs with hone hopen hopen
      · exact ⟨rfl, rfl⟩
      · exact absurd (hcount.mpr hone) hopen
      · exact absurd (hcount.mp hopen) hone
      · refine ⟨rfl, min now (now - config.windowMs), min_le_right _ _, ?_⟩
        simp
    | opened | probing => exact h.elim
  | some entry =>
    obtain ⟨state, timestamps, probes, last, change⟩ := entry
    cases st with
    | closed failures =>
      obtain ⟨rfl, cutoff, hcutoff, hkept⟩ := h
      have hwindow : (timestamps ++ [now]).filter (fun ts => ts ≥ now - config.windowMs) =
          (failures ++ [now]).filter fun ts => now - config.windowMs ≤ ts := by
        rw [filter_append, show timestamps = _ from hkept, prune_again hcutoff, filter_append]
      unfold recordFailure Standing.next PeerEntry.pruneWindow
      dsimp only
      rw [countP_eq_length_filter, hwindow]
      split_ifs
      · exact ⟨rfl, rfl⟩
      · exact ⟨rfl, _, le_refl _, rfl⟩
    | opened =>
      obtain ⟨rfl, hsince⟩ := h
      exact ⟨rfl, hsince⟩
    | probing =>
      obtain ⟨rfl, -⟩ := h
      exact ⟨rfl, rfl⟩

/-- **Every call keeps the entry on the history.** -/
theorem Tracks.visit (h : Tracks config now entry st)
    (hconfig : 0 ≤ config.windowMs ∨ 1 < config.failureThreshold) (m : Method) :
    Tracks config now (visit config now entry m) (st.next config (m, now)) := by
  cases m with
  | recordFailure => exact h.fail hconfig
  | reset => exact show ([] : List ℚ) = [] from rfl
  | recordSuccess | canForward | getState =>
    cases entry with
    | none =>
      cases st with
      | closed => exact h
      | opened | probing => exact h.elim
    | some entry =>
      obtain ⟨state, timestamps, probes, last, change⟩ := entry
      cases st with
      | closed =>
        obtain rfl : state = .closed := h.1
        first | exact h.prune | exact h
      | opened =>
        obtain ⟨rfl, rfl⟩ := h
        unfold CircuitBreaker.visit
        first
        | exact ⟨rfl, rfl⟩
        | unfold canForward Standing.next
          dsimp only [ge_iff_le]
          split_ifs
          · exact ⟨rfl, rfl⟩
          · exact ⟨rfl, rfl⟩
      | probing =>
        obtain ⟨rfl, rfl⟩ := h
        unfold CircuitBreaker.visit
        first
        | exact ⟨rfl, rfl⟩
        | unfold recordSuccess Standing.next
          dsimp only [ge_iff_le]
          split_ifs
          · exact ⟨rfl, _, le_refl _, rfl⟩
          · exact ⟨rfl, rfl⟩

theorem get_call (peers : JsMap P PeerEntry) (c : Call P) (p : P) : (call config peers c).get p =
      if p = c.peerId then CircuitBreaker.visit config c.now (peers.get p) c.method
      else peers.get p := by
  unfold call
  split <;> simp only [JsMap.get_set, JsMap.get_delete] <;> split
  · next h heq => rw [heq, h]
  · rfl
  · next h heq => rw [heq, h]
  · rfl

/-- **The breaker is on the history of every peer.** -/
theorem run_tracks (hconfig : 0 ≤ config.windowMs ∨ 1 < config.failureThreshold)
    (calls : List (Call P)) (hclock : calls.Pairwise fun a b => a.now ≤ b.now) (p : P) {now : ℚ}
    (hnow : ∀ c ∈ calls, c.now ≤ now) :
    Tracks config now ((run config calls).get p) (standing config (history p calls)) := by
  induction calls using reverseRecOn generalizing now with
  | nil => exact show ([] : List ℚ) = [] from rfl
  | append_singleton calls c ih =>
    obtain ⟨hbefore, -, hlast⟩ := pairwise_append.mp hclock
    have hc : c.now ≤ now := hnow c (by simp)
    have htracks := ih hbefore fun x hx => hlast x hx c (mem_singleton_self c)
    unfold run standing history at *
    rw [foldl_append, foldl_cons, foldl_nil, get_call, filter_append, map_append, foldl_append]
    by_cases hp : p = c.peerId
    · rw [if_pos hp, filter_cons_of_pos (by simpa using hp.symm)]
      exact (htracks.visit hconfig c.method).mono hc
    · rw [if_neg hp, filter_cons_of_neg (by simpa using Ne.symm hp)]
      exact htracks.mono hc

theorem Tracks.state_eq (h : Tracks config now entry st) :
    entry.elim .closed PeerEntry.state = st.state := by
  cases entry <;> cases st <;> first | rfl | exact h.1 | exact h.elim

theorem Tracks.answer (h : Tracks config now entry st) : (canForward config now entry).1 = true ↔
    (st.next config (.canForward, now)).state ≠ .opened := by
  cases entry with
  | none =>
    cases st with
    | closed => exact iff_of_true rfl nofun
    | opened | probing => exact h.elim
  | some entry =>
    obtain ⟨state, timestamps, probes, last, change⟩ := entry
    cases st with
    | closed failures | probing =>
      obtain rfl := h.1
      exact iff_of_true rfl nofun
    | opened =>
      obtain ⟨rfl, rfl⟩ := h
      unfold canForward Standing.next
      dsimp only [ge_iff_le]
      split_ifs
      · exact iff_of_true rfl nofun
      · exact iff_of_false nofun fun hne => hne rfl

/-- **The breaker implements its history**: the state of each peer and the answers are those of
    its calls alone. -/
theorem breaker_refines (config : CircuitBreakerConfig)
    (hconfig : 0 ≤ config.windowMs ∨ 1 < config.failureThreshold) (calls : List (Call P))
    (hclock : calls.Pairwise fun a b => a.now ≤ b.now) (p : P) :
    ((run config calls).get p).elim .closed PeerEntry.state =
        (standing config (history p calls)).state ∧
      (∀ now, (∀ c ∈ calls, c.now ≤ now) →
        ((canForward config now ((run config calls).get p)).1 = true ↔
          (standing config (history p calls ++ [(.canForward, now)])).state ≠ .opened)) ∧
      ∀ c : Call P, c.peerId ≠ p →
        (call config (run config calls) c).get p = (run config calls).get p := by
  refine ⟨?_, fun now hnow => ?_, fun c hc => ?_⟩
  · obtain ⟨now, hnow⟩ : ∃ now, ∀ c ∈ calls, c.now ≤ now := by
      induction calls with
      | nil => exact ⟨0, nofun⟩
      | cons c calls ih =>
        obtain ⟨now, hnow⟩ := ih (pairwise_cons.mp hclock).2
        refine ⟨max c.now now, forall_mem_cons.mpr ⟨le_max_left _ _, fun x hx => ?_⟩⟩
        exact (hnow x hx).trans (le_max_right _ _)
    exact (run_tracks hconfig calls hclock p hnow).state_eq
  · unfold standing
    rw [foldl_append]
    exact (run_tracks hconfig calls hclock p hnow).answer
  · rw [get_call, if_neg hc.symm]

/-- **A negative window**: the first failure opens, though none lies in the window. -/
theorem opens_at_once :
    ((run ⟨1, 1, 0, -1⟩ [⟨.recordFailure, 'p', 0⟩]).get 'p').elim .closed PeerEntry.state = .opened ∧
      (standing ⟨1, 1, 0, -1⟩ (history 'p' [⟨.recordFailure, 'p', 0⟩])).state = .closed := by
  decide +kernel

theorem breaker_refines_opened :
    ((run ⟨1, 1, 5, 9⟩ [⟨.recordFailure, 'p', 0⟩]).get 'p').elim .closed PeerEntry.state =
      (standing ⟨1, 1, 5, 9⟩ (history 'p' [⟨.recordFailure, 'p', 0⟩])).state :=
  (breaker_refines ⟨1, 1, 5, 9⟩ (.inl (by decide +kernel)) [⟨.recordFailure, 'p', 0⟩]
    (pairwise_singleton _ _) 'p').1

end Motebit.CircuitBreaker
