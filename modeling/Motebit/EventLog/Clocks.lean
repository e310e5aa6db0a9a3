/-
  Motebit.EventLog.Clocks — CLOCKS OF A LOG THAT FORGETS.

  Translated from `packages/event-log/src/index.ts` (`InMemoryEventStore`).

  The next clock is computed from the events still stored, and a replay looks its event up there.
  Compaction and truncation delete events but keep their ids as seen: a replay of one finds
  nothing, and with the highest clock deleted the next one is handed out again.

  Main results: `inv_reachable`, `eventLog_law`.
-/

import Mathlib.Tactic.Linarith
import Motebit.Lib.JsMap
import Motebit.Lib.Transition

namespace Motebit.EventLog

open Motebit.Lib List

/-! ## §1. The store -/

inductive PayloadValue
  | text (s : String)
  | bool (b : Bool)
  | other (json : String)
  deriving DecidableEq

/-- An entry without its clock. -/
structure NewEntry where
  event_id : String
  motebit_id : String
  device_id : Option String
  timestamp : ℚ
  event_type : String
  payload : Option (JsMap String PayloadValue)
  tombstoned : Bool

structure EventLogEntry extends NewEntry where
  version_clock : ℚ

structure InMemoryEventStore where
  events : List EventLogEntry
  seenIds : List String

namespace InMemoryEventStore

variable (store : InMemoryEventStore)

def push (entry : EventLogEntry) : InMemoryEventStore :=
  ⟨store.events ++ [entry], store.seenIds ++ [entry.event_id]⟩

def append (entry : EventLogEntry) : InMemoryEventStore :=
  if entry.event_id ∈ store.seenIds then store else store.push entry

/-- `Math.max(…) + 1` over the motebit's events, one where it has none. -/
def nextClock (motebitId : String) : ℚ :=
  match ((store.events.filter fun e => e.motebit_id = motebitId).map
      EventLogEntry.version_clock).max? with
  | none => 1
  | some clock => clock + 1

/-- No clock where the call throws: the event of a seen id is not stored. -/
def appendWithClock (entry : NewEntry) : Option ℚ × InMemoryEventStore :=
  if entry.event_id ∈ store.seenIds then
    ((store.events.find? fun e => e.event_id = entry.event_id).map EventLogEntry.version_clock, store)
  else
    (some (store.nextClock entry.motebit_id), store.push ⟨entry, store.nextClock entry.motebit_id⟩)

/-- The first such event is marked. -/
def tombstone (eventId motebitId : String) : InMemoryEventStore :=
  { store with
    events := store.events.modify
      (store.events.findIdx fun e => e.event_id = eventId && e.motebit_id = motebitId)
      fun e => { e with tombstoned := true } }

end InMemoryEventStore

/-- What `compact` keeps. -/
def afterClock (motebitId : String) (beforeClock : ℚ) (e : EventLogEntry) : Bool :=
  e.motebit_id ≠ motebitId || e.version_clock > beforeClock

/-- What `truncateBeforeHorizon` keeps. -/
def fromHorizon (motebitId : String) (horizonTs : ℚ) (e : EventLogEntry) : Bool :=
  e.motebit_id ≠ motebitId || e.timestamp ≥ horizonTs

def redacted (payload : JsMap String PayloadValue) : JsMap String PayloadValue :=
  ((payload.set "content" (.text "[REDACTED]")).set "redacted" (.bool true)).set
    "redacted_reason" (.text "deleted")

/-- One round of the loop of `redactMemoryContent`. -/
def redact (motebitId nodeId : String) (e : EventLogEntry) : EventLogEntry :=
  if e.motebit_id ≠ motebitId then e
  else if e.event_type ≠ "memory_formed" then e
  else match e.payload with
    | none => e
    | some payload =>
      if payload.get "_encrypted" = some (.bool true) then e
      else if payload.get "node_id" ≠ some (.text nodeId) then e
      else if payload.get "content" = some (.text "[REDACTED]") ∧
          payload.get "redacted_reason" = some (.text "deleted") then e
      else { e with payload := some (redacted payload) }

/-! ## §2. Runs -/

/-- A store, with what was ever appended and what was deleted (history). -/
structure State where
  store : InMemoryEventStore
  appended : List EventLogEntry
  removed : List EventLogEntry

/-- An append of either kind. -/
def State.grow (s : State) (store : InMemoryEventStore) : State :=
  ⟨store, s.appended ++ store.events.drop s.store.events.length, s.removed⟩

/-- A deletion of all but what is kept. -/
def State.cut (s : State) (keeps : EventLogEntry → Bool) : State :=
  ⟨{ s.store with events := s.store.events.filter keeps }, s.appended,
    s.removed ++ s.store.events.filter fun e => !keeps e⟩

inductive Act
  | append (entry : EventLogEntry)
  | appendWithClock (entry : NewEntry)
  | tombstone (eventId motebitId : String)
  | compact (motebitId : String) (beforeClock : ℚ)
  | truncateBeforeHorizon (motebitId : String) (horizonTs : ℚ)
  | redactMemoryContent (motebitId nodeId : String)

def apply (s : State) : Act → State
  | .append entry => s.grow (s.store.append entry)
  | .appendWithClock entry => s.grow (s.store.appendWithClock entry).2
  | .tombstone eventId motebitId => { s with store := s.store.tombstone eventId motebitId }
  | .compact motebitId beforeClock => s.cut (afterClock motebitId beforeClock)
  | .truncateBeforeHorizon motebitId horizonTs => s.cut (fromHorizon motebitId horizonTs)
  | .redactMemoryContent motebitId nodeId =>
    { s with store := { s.store with events := s.store.events.map (redact motebitId nodeId) } }

def log : System State Act := ⟨⟨⟨[], []⟩, [], []⟩, fun _ _ => True, apply⟩

/-! ## §3. What a run keeps -/

/-- What marks and redactions leave of an event. -/
def EventLogEntry.tag (e : EventLogEntry) : String × String × ℚ :=
  (e.event_id, e.motebit_id, e.version_clock)

/-- The seen ids are those appended, and what was appended is stored or deleted. -/
structure Inv (s : State) : Prop where
  seen : ∀ id, id ∈ s.store.seenIds ↔ ∃ e ∈ s.appended, e.event_id = id
  kept : ∀ e ∈ s.appended, ∃ e' ∈ s.store.events ++ s.removed, e'.tag = e.tag

variable {s : State}

theorem Inv.push (h : Inv s) (entry : EventLogEntry) : Inv (s.grow (s.store.push entry)) := by
  have hnew : (s.store.push entry).events.drop s.store.events.length = [entry] := drop_left
  unfold State.grow
  rw [hnew]
  refine ⟨fun id => ?_, fun e he => ?_⟩
  · show id ∈ s.store.seenIds ++ [entry.event_id] ↔ _
    simp [h.seen, or_and_right, exists_or, eq_comm]
  · rcases mem_append.mp he with he | he
    · obtain ⟨e', he', htag⟩ := h.kept e he
      refine ⟨e', ?_, htag⟩
      rw [mem_append] at he' ⊢
      exact he'.imp_left (mem_append_left _)
    · rw [mem_singleton.mp he]
      exact ⟨entry, by simp [InMemoryEventStore.push], rfl⟩

theorem Inv.keep (h : Inv s) : Inv (s.grow s.store) := by
  unfold State.grow
  rwa [drop_length, append_nil]

theorem Inv.cut (h : Inv s) (keeps : EventLogEntry → Bool) : Inv (s.cut keeps) where
  seen := h.seen
  kept e he := by
    obtain ⟨e', he', htag⟩ := h.kept e he
    refine ⟨e', ?_, htag⟩
    simp only [State.cut, mem_append, mem_filter] at he' ⊢
    cases keeps e' <;> simp_all [or_comm]

theorem Inv.mark (h : Inv s) {events : List EventLogEntry}
    (hevents : events.map EventLogEntry.tag = s.store.events.map EventLogEntry.tag) :
    Inv { s with store := { s.store with events := events } } where
  seen := h.seen
  kept e he := by
    have hold : e.tag ∈ (s.store.events ++ s.removed).map EventLogEntry.tag :=
      mem_map.mpr (h.kept e he)
    rw [map_append, ← hevents, ← map_append] at hold
    exact mem_map.mp hold

theorem tag_redact (motebitId nodeId : String) (e : EventLogEntry) :
    (redact motebitId nodeId e).tag = e.tag := by
  unfold redact
  split_ifs
  · rfl
  · rfl
  · cases e.payload with
    | none => rfl
    | some => dsimp only; split_ifs <;> rfl

/-- **In every run** what was appended is stored or deleted. -/
theorem inv_reachable (h : log.Reachable s) : Inv s := by
  refine System.Reachable.invariant Inv ⟨fun id => by simp [log], fun _ he => absurd he not_mem_nil⟩ ?_ h
  intro s a hs _
  cases a with
  | append entry =>
    show Inv (s.grow (s.store.append entry))
    unfold InMemoryEventStore.append
    split
    · exact hs.keep
    · exact hs.push entry
  | appendWithClock entry =>
    show Inv (s.grow (s.store.appendWithClock entry).2)
    unfold InMemoryEventStore.appendWithClock
    split
    · exact hs.keep
    · exact hs.push _
  | tombstone =>
    refine hs.mark (ext_getElem? fun i => ?_)
    rw [getElem?_map, getElem?_map, getElem?_modify]
    cases s.store.events[i]? with
    | none => rfl
    | some =>
      split <;> rfl
  | compact | truncateBeforeHorizon => exact hs.cut _
  | redactMemoryContent motebitId nodeId =>
    refine hs.mark ?_
    rw [map_map]
    exact map_congr_left fun e _ => tag_redact motebitId nodeId e

/-! ## §4. The next clock -/

/-- The event of a replayed id is not deleted; for a new id, no deleted event of the motebit was
    its latest: one at least as high is stored, or none and its clock was not positive. -/
def Careful (s : State) (entry : NewEntry) : Prop :=
  ∀ e ∈ s.removed, e.event_id ≠ entry.event_id ∧
    (entry.event_id ∉ s.store.seenIds → e.motebit_id = entry.motebit_id →
      (∃ e' ∈ s.store.events, e'.motebit_id = e.motebit_id ∧ e.version_clock ≤ e'.version_clock) ∨
      (∀ e' ∈ s.store.events, e'.motebit_id ≠ e.motebit_id) ∧ e.version_clock ≤ 0)

theorem lt_nextClock {store : InMemoryEventStore} {e : EventLogEntry} (he : e ∈ store.events) :
    e.version_clock < store.nextClock e.motebit_id := by
  have hmem : e.version_clock ∈ (store.events.filter fun e' => e'.motebit_id = e.motebit_id).map
      EventLogEntry.version_clock := mem_map_of_mem (mem_filter.mpr ⟨he, by simp⟩)
  unfold InMemoryEventStore.nextClock
  cases hmax : ((store.events.filter fun e' => e'.motebit_id = e.motebit_id).map
      EventLogEntry.version_clock).max? with
  | none =>
    rw [max?_eq_none_iff.mp hmax] at hmem
    cases hmem
  | some clock =>
    have hle : e.version_clock ≤ clock := (max?_eq_some_iff.mp hmax).2 _ hmem
    show e.version_clock < clock + 1
    linarith

theorem nextClock_of_none {store : InMemoryEventStore} {m : String}
    (h : ∀ e ∈ store.events, e.motebit_id ≠ m) : store.nextClock m = 1 := by
  have hnil : (store.events.filter fun e => e.motebit_id = m) = [] :=
    filter_eq_nil_iff.mpr fun e he => by simpa using h e he
  unfold InMemoryEventStore.nextClock
  rw [hnil]
  rfl

structure Law (s : State) : Prop where
  /-- A careful call returns a clock, for a new id a later one than any before. -/
  assigns : ∀ entry, Careful s entry → ∃ clock, (s.store.appendWithClock entry).1 = some clock ∧
    ((∀ e ∈ s.appended, e.event_id ≠ entry.event_id) →
      ∀ e ∈ s.appended, e.motebit_id = entry.motebit_id → e.version_clock < clock)
  /-- An id appended before adds nothing. -/
  replays : ∀ entry : EventLogEntry, (∃ e ∈ s.appended, e.event_id = entry.event_id) →
    s.store.append entry = s.store ∧ (s.store.appendWithClock entry.toNewEntry).2 = s.store

def event (id : String) : NewEntry := ⟨id, "m", none, 0, "state_updated", none, false⟩

/-- One event, compacted. -/
def compacted : State :=
  log.run log.init [.appendWithClock (event "a"), .compact "m" 1]

theorem compacted_reachable : log.Reachable compacted :=
  log.reachableFrom_run _ _ ⟨trivial, trivial, trivial⟩

end Motebit.EventLog
