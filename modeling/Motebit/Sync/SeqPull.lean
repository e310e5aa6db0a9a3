/-
  Motebit.Sync.SeqPull — PULLING BY THE RELAY'S SEQUENCE: one routine, any number of calls.

  Translated from `packages/sync-engine/src/seq-cursor.ts` (`InMemorySyncSeqCursorStore`,
  `filterUnseen`, `pullBySeq`) and `packages/event-log/src/index.ts`
  (`InMemoryEventStore.append`, `query`).  A raw and an E2E reader share one local store and one
  relay stream; the relay stores events at any time and may be restored to an earlier state of
  its log; the process may die at any `await`.

  A request that is never answered also stands for one that throws: outside `decodeEvent` the
  routine catches nothing.
-/

import Motebit.Lib.JsMap
import Motebit.Lib.Run
import Motebit.Sync.Envelope

namespace Motebit.Sync.SeqPull

open Motebit.Lib Motebit.Sync List

/-! ## §1. The local store -/

structure InMemoryEventStore where
  events : List EventLogEntry
  seenIds : List Text
  seen : seenIds = events.map EventLogEntry.event_id
  nodup : seenIds.Nodup

namespace InMemoryEventStore

def append (store : InMemoryEventStore) (entry : EventLogEntry) : InMemoryEventStore :=
  if h : entry.event_id ∈ store.seenIds then store
  else
    { events := store.events ++ [entry]
      seenIds := store.seenIds ++ [entry.event_id]
      seen := by rw [store.seen, map_append, map_singleton]
      nodup := by
        rw [nodup_append]
        refine ⟨store.nodup, nodup_singleton _, ?_⟩
        intro id hid other hother heq
        rw [heq, mem_singleton.mp hother] at hid
        exact h hid }

def query (store : InMemoryEventStore) (motebitId : Text) (afterVersionClock : Int) :
    List EventLogEntry :=
  store.events.filter fun e =>
    decide (e.motebit_id = motebitId) && decide (e.version_clock > afterVersionClock)

def Holds (store : InMemoryEventStore) (id : Text) : Prop := ∃ e ∈ store.events, e.event_id = id

end InMemoryEventStore

/-! ## §2. The cursor store -/

inductive Mode
  | raw
  | e2e
  deriving DecidableEq

/-- `seqCursorKey` of the transport, and of the adapter around it. -/
def seqCursorKey (stream : String) : Mode → String
  | .raw => "raw:" ++ stream
  | .e2e => "e2e:" ++ ("raw:" ++ stream)

/-- `SkippedSyncEvent`; its reason is always `undecryptable`. -/
structure SkippedSyncEvent where
  event_id : Text
  seq : Option Nat
  detail : Text

def SKIPPED_SYNC_EVENTS_KEPT : Nat := 1000

structure InMemorySyncSeqCursorStore where
  cursors : JsMap String Nat
  skipped : List (String × SkippedSyncEvent)
  totals : JsMap String Nat

def spliceOldest (key : String) : Nat → List (String × SkippedSyncEvent) →
    List (String × SkippedSyncEvent)
  | 0, rows => rows
  | _, [] => []
  | n + 1, row :: rows =>
    if row.1 = key then spliceOldest key n rows else row :: spliceOldest key (n + 1) rows

namespace InMemorySyncSeqCursorStore

def getSyncSeqCursor (store : InMemorySyncSeqCursorStore) (key : String) : Option Nat :=
  store.cursors.get key

def setSyncSeqCursor (store : InMemorySyncSeqCursorStore) (key : String) (seq : Nat) :
    InMemorySyncSeqCursorStore :=
  { store with cursors := store.cursors.set key seq }

def recordSkippedSyncEvent (store : InMemorySyncSeqCursorStore) (key : String)
    (skipped : SkippedSyncEvent) : InMemorySyncSeqCursorStore :=
  if store.skipped.any fun s => s.1 == key && s.2.event_id == skipped.event_id then store
  else
    let rows := store.skipped ++ [(key, skipped)]
    let mine := rows.filter fun s => s.1 == key
    { store with
      skipped := spliceOldest key (mine.length - SKIPPED_SYNC_EVENTS_KEPT) rows
      totals := store.totals.set key ((store.totals.get key).getD 0 + 1) }

@[simp] theorem recordSkippedSyncEvent_cursors (store : InMemorySyncSeqCursorStore)
    (key : String) (skipped : SkippedSyncEvent) :
    (store.recordSkippedSyncEvent key skipped).cursors = store.cursors := by
  unfold recordSkippedSyncEvent
  split <;> rfl

end InMemorySyncSeqCursorStore

/-! ## §3. The relay and the device -/

/-- An event with its sequence; `born` counts the restores before the relay stored it (history,
    read by nothing). -/
structure SeqPullEntry where
  seq : Nat
  event : EventLogEntry
  born : Nat

/-- The identity's log, and how often it was restored (history). -/
structure Relay where
  log : List SeqPullEntry
  restores : Nat

/-- The largest sequence the relay has assigned. -/
def Relay.latestSeq (relay : Relay) : Nat := (relay.log.getLast?.map SeqPullEntry.seq).getD 0

/-- The relay, and what the device keeps.  The last three fields are history: the restores each
    stored cursor accounts for, every skip ever recorded, and each return after a page without
    more behind it, with the log that page was served from. -/
structure Device where
  relay : Relay
  localStore : InMemoryEventStore
  cursorStore : InMemorySyncSeqCursorStore
  asOf : Mode → Nat
  recorded : List (Mode × Text)
  returned : List (Mode × List SeqPullEntry)

/-- What every call on a device shares: `${baseUrl}#${motebitId}`, the identity, and whether the
    local store answers `getHeldEventIds`. -/
structure Client where
  stream : String
  motebitId : Text
  hasHeldEventIdLookup : Bool

/-- How a call stands, beside its cursor: whether it has started over, and the restores its
    cursor accounts for (history). -/
structure Standing where
  resetOnce : Bool
  asOf : Nat

inductive Ask
  /-- How the call stands is no part of the request. -/
  | pullAfterSeq (mode : Mode) (afterSeq : Nat) (fallbackAfterClock : Int) (standing : Standing)
  | decodeEvent (event : EventLogEntry)

/-- A page, beside the relay as it stood (history). -/
inductive SeqPullResult
  | seq (entries : List SeqPullEntry) (nextSeq : Nat) (hasMore : Bool) (latestSeq : Nat)
      (relay : Relay)
  | clock (events : List EventLogEntry)

/-- Decoding answers the payload, everything else of the event being copied, or a message. -/
def Answer : Ask → Type
  | .pullAfterSeq .. => SeqPullResult
  | .decodeEvent _ => Except Text Audit.JsValue

abbrev Routine := Prog Device Ask Answer

def pullAfterSeq (mode : Mode) (afterSeq : Nat) (fallbackAfterClock : Int)
    (standing : Standing) : Routine SeqPullResult :=
  .request (Ask.pullAfterSeq mode afterSeq fallbackAfterClock standing)

def decodeEvent (event : EventLogEntry) : Routine (Except Text Audit.JsValue) :=
  .request (Ask.decodeEvent event)

/-! ## §4. One page -/

/-- The smallest clock of a batch; the list is not empty. -/
def minClock : List EventLogEntry → Int
  | [] => 0
  | [e] => e.version_clock
  | e :: rest => min e.version_clock (minClock rest)

/-- The loop over `mine`: what is not held yet, once each. -/
def freshOf (held : List Text) : List EventLogEntry → List EventLogEntry
  | [] => []
  | e :: rest =>
    if e.event_id ∈ held then freshOf held rest else e :: freshOf (e.event_id :: held) rest

def filterUnseen (client : Client) (localStore : InMemoryEventStore)
    (events : List EventLogEntry) : List EventLogEntry :=
  let mine := events.filter fun e => e.motebit_id = client.motebitId
  let held :=
    if client.hasHeldEventIdLookup then
      (mine.map EventLogEntry.event_id).filter fun id => id ∈ localStore.seenIds
    else (localStore.query client.motebitId (minClock mine - 1)).map EventLogEntry.event_id
  freshOf held mine

/-- `SeqPullOutcome`, without its `mode`. -/
structure Outcome where
  fresh : List EventLogEntry
  skipped : List SkippedSyncEvent
  encryptedOnRawPath : Nat

def Device.append (entry : EventLogEntry) (d : Device) : Device :=
  { d with localStore := d.localStore.append entry }

def Device.record (client : Client) (mode : Mode) (skipped : SkippedSyncEvent) (d : Device) :
    Device :=
  { d with
    cursorStore :=
      d.cursorStore.recordSkippedSyncEvent (seqCursorKey client.stream mode) skipped
    recorded := d.recorded ++ [(mode, skipped.event_id)] }

def appendFresh (entry : EventLogEntry) (out : Outcome) : Routine Outcome :=
  .run fun d => ({ out with fresh := out.fresh ++ [entry] }, d.append entry)

def skip (client : Client) (mode : Mode) (skipped : SkippedSyncEvent) (out : Outcome) :
    Routine Outcome :=
  .run fun d =>
    ({ out with skipped := out.skipped ++ [skipped] }, d.record client mode skipped)

/-- The body of `apply`'s loop. -/
def applyOne (client : Client) (mode : Mode) (seqOf : Text → Option Nat)
    (transport : EventLogEntry) (out : Outcome) : Routine Outcome :=
  match mode with
  | .e2e =>
    .bind (decodeEvent transport) fun
      | .ok payload => appendFresh { transport with payload := payload } out
      | .error detail => skip client .e2e ⟨transport.event_id, seqOf transport.event_id, detail⟩ out
  | .raw =>
    if classifyEventPayload transport.payload ≠ .plaintext then
      .done { out with encryptedOnRawPath := out.encryptedOnRawPath + 1 }
    else appendFresh transport out

def applyUnseen (client : Client) (mode : Mode) (seqOf : Text → Option Nat) :
    List EventLogEntry → Outcome → Routine Outcome
  | [], out => .done out
  | transport :: rest, out =>
    .bind (applyOne client mode seqOf transport out) fun out =>
      applyUnseen client mode seqOf rest out

def applyEvents (client : Client) (mode : Mode) (seqOf : Text → Option Nat)
    (events : List EventLogEntry) (out : Outcome) : Routine Outcome :=
  .bind (.run fun d => (filterUnseen client d.localStore events, d)) fun unseen =>
    applyUnseen client mode seqOf unseen out

/-- `seqs.get(id)`: of two entries of one id the later. -/
def seqOf (entries : List SeqPullEntry) (id : Text) : Option Nat :=
  (entries.reverse.find? fun x => x.event.event_id = id).map SeqPullEntry.seq

def Device.setCursor (client : Client) (mode : Mode) (seq asOf : Nat) (d : Device) : Device :=
  { d with
    cursorStore := d.cursorStore.setSyncSeqCursor (seqCursorKey client.stream mode) seq
    asOf := Function.update d.asOf mode asOf }

/-- The cursor after a page, written before it counts. -/
def advance (client : Client) (mode : Mode) (cursor : Nat) (standing : Standing)
    (nextSeq : Nat) (relay : Relay) : Routine (Nat × Standing) :=
  if nextSeq > cursor then
    .run fun d => ((nextSeq, { standing with asOf := relay.restores }),
      d.setCursor client mode nextSeq relay.restores)
  else if standing.resetOnce = true ∧ nextSeq = 0 then
    .run fun d => ((cursor, standing), d.setCursor client mode 0 relay.restores)
  else .done (cursor, standing)

/-- The return after a page with nothing behind it. -/
def Device.finish (mode : Mode) (relay : Relay) (d : Device) : Device :=
  { d with returned := d.returned ++ [(mode, relay.log)] }

/-- What the loop does with an answer it does not start over for; `again` is the next turn. -/
def served (client : Client) (mode : Mode)
    (again : Nat → Standing → Outcome → Routine Outcome) (cursor : Nat) (standing : Standing)
    (out : Outcome) : SeqPullResult → Routine Outcome
  | .clock events => applyEvents client mode (fun _ => none) events out
  | .seq entries nextSeq hasMore _ relay =>
    .bind (applyEvents client mode (seqOf entries) (entries.map SeqPullEntry.event) out) fun out =>
      .bind (advance client mode cursor standing nextSeq relay) fun next =>
        if hasMore then again next.1 next.2 out
        else .run fun d => (out, d.finish mode relay)

/-! ## §5. The routine -/

/-- `res.latestSeq < cursor && !resetOnce`: how the call stands when it starts over. -/
def startsOver (cursor : Nat) (standing : Standing) : SeqPullResult → Option Standing
  | .clock _ => none
  | .seq _ _ _ latestSeq relay =>
    if latestSeq < cursor ∧ standing.resetOnce = false then some ⟨true, relay.restores⟩ else none

/-- The loop over pages; a turn that starts over does not count, and none starts over twice. -/
def pages (client : Client) (mode : Mode) (fallbackAfterClock : Int) :
    Nat → Nat → Standing → Outcome → Routine Outcome
  | 0, _, _, out => .done out
  | n + 1, cursor, standing, out =>
    .bind (pullAfterSeq mode cursor fallbackAfterClock standing) fun res =>
      match startsOver cursor standing res with
      | some anew =>
        .bind (pullAfterSeq mode 0 fallbackAfterClock anew) fun res =>
          served client mode (pages client mode fallbackAfterClock n) 0 anew out res
      | none => served client mode (pages client mode fallbackAfterClock n) cursor standing out res

def pullBySeq (client : Client) (mode : Mode) (fallbackAfterClock : Int) (maxPages : Nat) :
    Routine Outcome :=
  .bind (.run fun d =>
      ((d.cursorStore.getSyncSeqCursor (seqCursorKey client.stream mode), d.asOf mode), d))
    fun read =>
      pages client mode fallbackAfterClock maxPages (read.1.getD 0) ⟨false, read.2⟩ ⟨[], [], 0⟩

/-! ## §6. The world -/

/-- A page is a consecutive run of the log after the requested sequence. -/
structure IsPage (relay : Relay) (afterSeq : Nat) (entries : List SeqPullEntry) (nextSeq : Nat)
    (hasMore : Bool) (latestSeq : Nat) : Prop where
  run : ∃ rest, relay.log.filter (fun x => afterSeq < x.seq) = entries ++ rest ∧
    hasMore = !rest.isEmpty
  nextSeq : nextSeq = (entries.getLast?.map SeqPullEntry.seq).getD afterSeq
  latestSeq : latestSeq = relay.latestSeq

/-- No restore is missed by the test on `latestSeq`: it starts this call over, or nothing at or
    below the cursor was stored after a restore the cursor does not account for. -/
def Caught (relay : Relay) (cursor : Nat) (standing : Standing) : Prop :=
  (relay.latestSeq < cursor ∧ standing.resetOnce = false) ∨
    ∀ x ∈ relay.log, x.seq ≤ cursor → x.born ≤ standing.asOf

/-- What may happen beside the calls.  A log holds an event once. -/
inductive Env (restores : Bool) (d : Device) : Device → Prop
  | ingest (seq : Nat) (event : EventLogEntry) (hseq : d.relay.latestSeq < seq)
      (hnew : ∀ x ∈ d.relay.log, x.event.event_id ≠ event.event_id) :
      Env restores d { d with relay :=
        { d.relay with log := d.relay.log ++ [⟨seq, event, d.relay.restores⟩] } }
  | append (entry : EventLogEntry) : Env restores d (d.append entry)
  | restore (n : Nat) (h : restores = true) :
      Env restores d { d with relay := ⟨d.relay.log.take n, d.relay.restores + 1⟩ }

/-- How a request may be answered; an older relay answers by clock. -/
def Answers (caught : Bool) (d : Device) : (ask : Ask) → Answer ask → Device → Prop
  | .pullAfterSeq _ afterSeq _ standing, .seq entries nextSeq hasMore latestSeq relay, d' =>
    d' = d ∧ relay = d.relay ∧ IsPage relay afterSeq entries nextSeq hasMore latestSeq ∧
      (caught = true → Caught relay afterSeq standing)
  | .pullAfterSeq .., .clock _, d' => d' = d
  | .decodeEvent _, _, d' => d' = d

/-- A device that holds nothing yet. -/
def Device.Blank (d : Device) : Prop :=
  d.relay = ⟨[], 0⟩ ∧ d.cursorStore.cursors = [] ∧ (∀ mode, d.asOf mode = 0) ∧ d.returned = []

/-- Any number of calls in either mode, over a relay that may be restored or not, and answers
    that miss no restore or any. -/
def device (client : Client) (restores caught : Bool) : World Device Ask Answer where
  init := Device.Blank
  entry _ p := ∃ mode fallbackAfterClock maxPages,
    p = (pullBySeq client mode fallbackAfterClock maxPages).bind fun _ => .done ()
  answer := Answers caught
  env := Env restores
  crash d d' := d' = d

end Motebit.Sync.SeqPull
