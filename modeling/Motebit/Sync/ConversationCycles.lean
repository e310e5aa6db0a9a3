/-
  Motebit.Sync.ConversationCycles — SYNC CYCLES FOR CONVERSATIONS: devices of one identity and
  their relay.

  Translated from `packages/sync-engine/src/conversation-sync.ts` (`ConversationSyncEngine.sync`)
  and `packages/persistence/src/index.ts` (`createConversation`, `appendMessage`).  A cycle pushes
  the conversations active after `lastSyncTimestamp`, then their messages one conversation at a
  time, and pulls the same way; cycles may overlap, and a request may fail before or after the
  relay has served it.

  A message travels with its conversation: one the relay holds is announced there by a version of
  its conversation that was active no earlier.

  Main results: `conversationCycles_safe`.
-/

import Motebit.Lib.StampSync
import Motebit.Lib.Transition
import Motebit.Sync.Stores

namespace Motebit.Sync.ConversationCycles

open Motebit.Lib Motebit.Lib.StampSync Motebit.Sync List Function
open InMemoryConversationSyncStore SyncConversationMessage

/-! ## §1. State -/

/-- Everything pushed. -/
structure Relay where
  conversations : List SyncConversation
  messages : List SyncConversationMessage

/-- What a cycle waits for; `rest` are the conversations whose turn has not come. -/
inductive Phase
  /-- `await pushConversations(…)`, not stored by the relay yet. -/
  | pushingConversations (localConversations : List SyncConversation)
  | pushedConversations (localConversations : List SyncConversation)
  | pushingMessages (localMessages : List SyncConversationMessage) (rest : List SyncConversation)
  | pushedMessages (rest : List SyncConversation)
  /-- `await pullConversations(…, since)`, not answered by the relay yet. -/
  | pullingConversations (since : ℚ)
  | pulledConversations (remoteConversations : List SyncConversation)
  | pullingMessages (conversation_id : String) (since : ℚ) (rest : List SyncConversation)
  | pulledMessages (remoteMessages : List SyncConversationMessage) (rest : List SyncConversation)

/-- A device: its store, its engine, the cycles in flight, and what the relay held when the last
    cycle that ended well began (history). -/
structure Device where
  store : InMemoryConversationSyncStore
  lastSyncTimestamp : ℚ
  cycles : Nat → Option (Cycle Phase Relay)
  lastBegan : Relay

/-- `issued` lists every message ever appended (history). -/
structure State where
  now : ℚ
  relay : Relay
  device : Nat → Device
  issued : List SyncConversationMessage

def State.put (s : State) (d : Nat) (dev : Device) : State :=
  { s with device := update s.device d dev }

def Device.goTo (dev : Device) (i : Nat) (began : Relay) (phase : Phase) : Device :=
  { dev with cycles := update dev.cycles i (some ⟨phase, began⟩) }

/-! ## §2. A cycle -/

/-- The messages of the conversations left, one push a conversation that has any; behind them the
    pull. -/
def pushMessages (dev : Device) : List SyncConversation → Phase
  | [] => .pullingConversations dev.lastSyncTimestamp
  | conv :: rest =>
    match dev.store.getMessagesSince conv.conversation_id dev.lastSyncTimestamp with
    | [] => pushMessages dev rest
    | localMessages => .pushingMessages localMessages rest

/-- `sync()`, up to its first `await`. -/
def pushConversations (motebitId : String) (dev : Device) : Phase :=
  match dev.store.getConversationsSince motebitId dev.lastSyncTimestamp with
  | [] => pushMessages dev []
  | localConversations => .pushingConversations localConversations

/-- The messages of the conversations left to pull; behind them the cycle ends. -/
def pullMessages (now : ℚ) (dev : Device) (i : Nat) (began : Relay) : List SyncConversation → Device
  | [] =>
    { dev with
      lastSyncTimestamp := now
      cycles := update dev.cycles i none
      lastBegan := began }
  | conv :: rest =>
    dev.goTo i began (.pullingMessages conv.conversation_id dev.lastSyncTimestamp rest)

/-- The relay's answers. -/
def Relay.conversationsSince (relay : Relay) (since : ℚ) : List SyncConversation :=
  sortOn SyncConversation.last_active_at
    (relay.conversations.filter fun c => c.last_active_at > since)

def Relay.messagesSince (relay : Relay) (conversation_id : String) (since : ℚ) :
    List SyncConversationMessage :=
  sortOn SyncConversationMessage.created_at (relay.messages.filter fun m =>
    decide (m.conversation_id = conversation_id) && decide (m.created_at > since))

def land (s : State) (d i : Nat) (dev : Device) (c : Cycle Phase Relay) : State :=
  match c.phase with
  | .pushingConversations rows =>
    { s.put d (dev.goTo i c.began (.pushedConversations rows)) with
      relay := { s.relay with conversations := s.relay.conversations ++ rows } }
  | .pushingMessages rows rest =>
    { s.put d (dev.goTo i c.began (.pushedMessages rest)) with
      relay := { s.relay with messages := s.relay.messages ++ rows } }
  | _ => s

def answerPush (dev : Device) (i : Nat) (c : Cycle Phase Relay) : Device :=
  match c.phase with
  | .pushedConversations rows => dev.goTo i c.began (pushMessages dev rows)
  | .pushedMessages rest => dev.goTo i c.began (pushMessages dev rest)
  | _ => dev

def servePull (relay : Relay) (dev : Device) (i : Nat) (c : Cycle Phase Relay) : Device :=
  match c.phase with
  | .pullingConversations since =>
    dev.goTo i c.began (.pulledConversations (relay.conversationsSince since))
  | .pullingMessages conversation_id since rest =>
    dev.goTo i c.began (.pulledMessages (relay.messagesSince conversation_id since) rest)
  | _ => dev

def answerPull (now : ℚ) (dev : Device) (i : Nat) (c : Cycle Phase Relay) : Device :=
  match c.phase with
  | .pulledConversations rows =>
    pullMessages now
      { dev with store := rows.foldl InMemoryConversationSyncStore.upsertConversation dev.store }
      i c.began rows
  | .pulledMessages rows rest =>
    pullMessages now
      { dev with store := rows.foldl InMemoryConversationSyncStore.upsertMessage dev.store }
      i c.began rest
  | _ => dev

/-! ## §3. The system -/

inductive Act
  | tick (now : ℚ)
  | createConversation (d : Nat) (conversation_id : String)
  | appendMessage (d : Nat) (msg : SyncConversationMessage)
  /-- `sync()` is called. -/
  | sync (d i : Nat)
  /-- The relay stores the push in flight. -/
  | lands (d i : Nat)
  /-- The push is answered. -/
  | pushed (d i : Nat)
  /-- The relay answers the pull in flight. -/
  | serves (d i : Nat)
  /-- The answer arrives. -/
  | pulled (d i : Nat)
  /-- The request in flight throws; the `catch` leaves `lastSyncTimestamp` as it is. -/
  | fails (d i : Nat)

def create (store : InMemoryConversationSyncStore) (motebitId conversation_id : String) (now : ℚ) :
    InMemoryConversationSyncStore :=
  { store with
    conversations := store.conversations.set conversation_id
      ⟨conversation_id, motebitId, now, now, none, none, 0⟩ }

def append (store : InMemoryConversationSyncStore) (msg : SyncConversationMessage) (now : ℚ) :
    InMemoryConversationSyncStore :=
  { messages := store.messages.set msg.message_id msg
    conversations :=
      match store.conversations.get msg.conversation_id with
      | none => store.conversations
      | some conv => store.conversations.set msg.conversation_id
          { conv with last_active_at := now, message_count := conv.message_count + 1 } }

/-- What a cycle in flight does when its request is served or answered. -/
def State.advance (s : State) (d i : Nat) (f : Device → Cycle Phase Relay → State) : State :=
  match (s.device d).cycles i with
  | some c => f (s.device d) c
  | none => s

def apply (motebitId : String) (s : State) : Act → State
  | .tick now => { s with now := now }
  | .createConversation d id =>
    s.put d { s.device d with store := create (s.device d).store motebitId id s.now }
  | .appendMessage d msg =>
    { s.put d { s.device d with store := append (s.device d).store msg s.now } with
      issued := msg :: s.issued }
  | .sync d i =>
    s.put d ((s.device d).goTo i s.relay (pushConversations motebitId (s.device d)))
  | .lands d i => s.advance d i (land s d i)
  | .pushed d i => s.advance d i fun dev c => s.put d (answerPush dev i c)
  | .serves d i => s.advance d i fun dev c => s.put d (servePull s.relay dev i c)
  | .pulled d i => s.advance d i fun dev c => s.put d (answerPull s.now dev i c)
  | .fails d i =>
    s.advance d i fun dev _ => s.put d { dev with cycles := update dev.cycles i none }

/-- The clock does not run backwards; ids are new; a message is stamped with the time it is
    appended, to a conversation of the identity; a cycle begins under an unused number. -/
def enabled (motebitId : String) (s : State) : Act → Prop
  | .tick now => s.now ≤ now
  | .createConversation d id => (s.device d).store.conversations.get id = none
  | .appendMessage d msg =>
    msg.created_at = s.now ∧ (∀ m ∈ s.issued, m.message_id ≠ msg.message_id) ∧
      ∃ conv, (s.device d).store.conversations.get msg.conversation_id = some conv ∧
        conv.motebit_id = motebitId
  | .sync d i => (s.device d).cycles i = none
  | _ => True

def blank : Device := ⟨⟨[], []⟩, 0, fun _ => none, ⟨[], []⟩⟩

def start : State := ⟨0, ⟨[], []⟩, fun _ => blank, []⟩

/-- Devices of one identity and their relay. -/
def engines (motebitId : String) : System State Act := ⟨start, enabled motebitId, apply motebitId⟩

/-! ## §4. Runs without late appends or pushes -/

/-- The messages of a conversation are still to be read, or to be asked for. -/
def Waits (rest : List SyncConversation) (m : SyncConversationMessage) : Prop :=
  m.conversation_id ∈ rest.map SyncConversation.conversation_id

/-- The cycle has the relay's answer, and will not ask for the message any more. -/
def Phase.missed : Phase → SyncConversationMessage → Prop
  | .pulledConversations rows, m => ¬ Waits rows m
  | .pullingMessages id _ rest, m => m.conversation_id ≠ id ∧ ¬ Waits rest m
  | .pulledMessages _ rest, m => ¬ Waits rest m
  | _, _ => False

/-- A device may still be told of a message: it is stamped after `lastSyncTimestamp`, and no
    cycle has missed it. -/
def StillOpen (dev : Device) (m : SyncConversationMessage) : Prop :=
  dev.lastSyncTimestamp < m.created_at ∧ ∀ i c, dev.cycles i = some c → ¬ c.phase.missed m

/-- An append waits for the cycles of its device, and for the clock to pass `lastSyncTimestamp`;
    a push lands messages the relay holds, or messages every other device may still be told of. -/
def Timely (s : State) : Act → Prop
  | .appendMessage d _ =>
    (s.device d).lastSyncTimestamp < s.now ∧ ∀ i, (s.device d).cycles i = none
  | .lands d i => ∀ c, (s.device d).cycles i = some c → ∀ e, e ≠ d →
      match c.phase with
      | .pushingMessages rows _ => ∀ m ∈ rows, m ∈ s.relay.messages ∨ StillOpen (s.device e) m
      | _ => True
  | _ => True

/-- Every append and every push is timely. -/
def timely (motebitId : String) : System State Act :=
  ⟨start, fun s a => enabled motebitId s a ∧ Timely s a, apply motebitId⟩

/-! ## §5. The invariant -/

/-- A version of a message's conversation that was active no earlier. -/
def Announces (c : SyncConversation) (m : SyncConversationMessage) : Prop :=
  c.conversation_id = m.conversation_id ∧ m.created_at ≤ c.last_active_at

def Announced (rows : List SyncConversation) (m : SyncConversationMessage) : Prop :=
  ∃ c ∈ rows, Announces c m

/-- How far a cycle is with the messages. -/
def messageLeg : Phase → Leg SyncConversationMessage ℚ
  | .pushingConversations rows => .sending (Waits rows) []
  | .pushedConversations rows => .sending (Waits rows) []
  | .pushingMessages rows rest => .sending (fun m => m ∈ rows ∨ Waits rest m) rows
  | .pushedMessages rest => .sending (Waits rest) []
  | .pullingConversations _ => .sent
  | .pulledConversations rows => .served 0 (Waits rows)
  | .pullingMessages id _ rest => .served 0 fun m => m.conversation_id = id ∨ Waits rest m
  | .pulledMessages rows rest => .served 0 fun m => m ∈ rows ∨ Waits rest m

def messageRows : Rows SyncConversationMessage (JsMap String SyncConversationMessage) ℚ :=
  additions SyncConversationMessage.message_id SyncConversationMessage.created_at

def messageView (relay : Relay) (dev : Device) :
    Replica SyncConversationMessage (JsMap String SyncConversationMessage) ℚ Nat :=
  view messageLeg Relay.messages relay dev.store.messages dev.lastSyncTimestamp dev.cycles
    dev.lastBegan

/-- What a cycle carries fits the store and the relay: the messages to push are announced, there
    or by the conversations in flight. -/
def PhaseOk (relay : Relay) (messages : JsMap String SyncConversationMessage) (last : ℚ) :
    Phase → Prop
  | .pushingConversations rows => ∀ m, messageRows.Local messages m →
      Announced relay.conversations m ∨ Announced rows m
  | .pushedConversations _ => ∀ m, messageRows.Local messages m → Announced relay.conversations m
  | .pushingMessages _ _ => ∀ m, messageRows.Local messages m → Announced relay.conversations m
  | .pushedMessages _ => ∀ m, messageRows.Local messages m → Announced relay.conversations m
  | .pullingConversations since => since ≤ last
  | .pulledConversations _ => True
  | .pullingMessages _ since _ => since ≤ last
  | .pulledMessages rows _ => ∀ m ∈ rows, m ∈ relay.messages

/-- Ids are unique, nothing is from the future, and what the relay holds is announced there. -/
structure RelayOk (now : ℚ) (issued : List SyncConversationMessage) (relay : Relay) : Prop where
  unique : ∀ m ∈ issued, ∀ n ∈ issued, m.message_id = n.message_id → m = n
  stamps : ∀ m ∈ issued, m.created_at ≤ now
  issued : ∀ m ∈ relay.messages, m ∈ issued
  announced : ∀ m ∈ relay.messages, Announced relay.conversations m

/-- The message will be announced by its conversation in the store. -/
def Covered (motebitId : String) (store : InMemoryConversationSyncStore)
    (m : SyncConversationMessage) : Prop :=
  ∃ c, store.conversations.get m.conversation_id = some c ∧ c.motebit_id = motebitId ∧
    m.created_at ≤ c.last_active_at

structure DeviceOk (motebitId : String) (now : ℚ) (issued : List SyncConversationMessage)
    (relay : Relay) (dev : Device) : Prop where
  safe : Safe messageRows (messageView relay dev)
  messages : Listed SyncConversationMessage.message_id (· ∈ issued) dev.store.messages
  conversations :
    Listed SyncConversation.conversation_id (fun _ => True) dev.store.conversations
  unsent : ∀ m, messageRows.Local dev.store.messages m →
    m ∈ relay.messages ∨ Covered motebitId dev.store m
  last_le : dev.lastSyncTimestamp ≤ now
  cycles : ∀ i c, dev.cycles i = some c →
    PhaseOk relay dev.store.messages dev.lastSyncTimestamp c.phase

/-- The invariant. -/
structure Inv (motebitId : String) (s : State) : Prop where
  relay : RelayOk s.now s.issued s.relay
  device : ∀ d, DeviceOk motebitId s.now s.issued s.relay (s.device d)

/-! ## §6. What the invariant says of a store and a phase -/

theorem Announced.mono {rows rows' : List SyncConversation} {m : SyncConversationMessage}
    (h : Announced rows m) (hsub : ∀ c ∈ rows, c ∈ rows') : Announced rows' m := by
  obtain ⟨c, hc, hannounces⟩ := h
  exact ⟨c, hsub c hc, hannounces⟩

/-- Phases stay fit while the relay and `lastSyncTimestamp` grow, and new messages of the store
    are announced. -/
theorem PhaseOk.mono {relay relay' : Relay} {messages messages' : JsMap String
      SyncConversationMessage} {last last' : ℚ} {phase : Phase}
    (h : PhaseOk relay messages last phase)
    (hconversations : ∀ c ∈ relay.conversations, c ∈ relay'.conversations)
    (hmessages : ∀ m ∈ relay.messages, m ∈ relay'.messages) (hlast : last ≤ last')
    (hlocal : ∀ m, messageRows.Local messages' m →
      messageRows.Local messages m ∨ Announced relay'.conversations m) :
    PhaseOk relay' messages' last' phase := by
  have hannounced : (∀ m, messageRows.Local messages m → Announced relay.conversations m) →
      ∀ m, messageRows.Local messages' m → Announced relay'.conversations m := by
    intro hall m hm
    rcases hlocal m hm with hold | hnew
    · exact (hall m hold).mono hconversations
    · exact hnew
  cases phase
  case pushingConversations rows =>
    intro m hm
    rcases hlocal m hm with hold | hnew
    · exact (h m hold).imp_left fun hin => hin.mono hconversations
    · exact .inl hnew
  case pushedConversations rows => exact hannounced h
  case pushingMessages rows rest => exact hannounced h
  case pushedMessages rest => exact hannounced h
  case pullingConversations since => exact (show since ≤ last from h).trans hlast
  case pulledConversations rows => trivial
  case pullingMessages id since rest => exact (show since ≤ last from h).trans hlast
  case pulledMessages rows rest => exact fun m hm => hmessages m (h m hm)

section Upserts

variable (store : InMemoryConversationSyncStore)

theorem foldl_upsertConversation_messages (rows : List SyncConversation) :
    (rows.foldl upsertConversation store).messages = store.messages :=
  foldlRecOn rows _ (motive := fun st => st.messages = store.messages) rfl
    fun st h c _ => (upsertConversation_messages st c).trans h

theorem foldl_upsertMessage_conversations (rows : List SyncConversationMessage) :
    (rows.foldl upsertMessage store).conversations = store.conversations :=
  foldlRecOn rows _ (motive := fun st => st.conversations = store.conversations) rfl
    fun st h m _ => (upsertMessage_conversations st m).trans h

theorem listed_foldl_upsertMessage {ok : SyncConversationMessage → Prop}
    (rows : List SyncConversationMessage)
    (h : Listed message_id ok store.messages) (hrows : ∀ m ∈ rows, ok m) :
    Listed message_id ok (rows.foldl upsertMessage store).messages :=
  foldlRecOn rows _ (motive := fun st : InMemoryConversationSyncStore =>
    Listed message_id ok st.messages) h
    fun st hst m hm => listed_upsertMessage hst (hrows m hm)

variable {m : SyncConversationMessage}

theorem get_foldl_upsertMessage_of_some (rows : List SyncConversationMessage) {id : String}
    (hget : store.messages.get id = some m) :
    (rows.foldl upsertMessage store).messages.get id = some m := by
  refine foldlRecOn rows _ (motive := fun st : InMemoryConversationSyncStore =>
    st.messages.get id = some m) hget fun st hst r _ => ?_
  rw [get_upsertMessage]
  split
  · rw [hst, Option.getD_some]
  · exact hst

theorem exists_get_foldl_upsertMessage (rows : List SyncConversationMessage) (hm : m ∈ rows) :
    ∃ n, (rows.foldl upsertMessage store).messages.get m.message_id = some n := by
  induction rows generalizing store with
  | nil => cases hm
  | cons r rows ih =>
    rcases mem_cons.mp hm with rfl | hm
    · refine ⟨(store.messages.get m.message_id).getD m, get_foldl_upsertMessage_of_some _ rows ?_⟩
      rw [get_upsertMessage, if_pos rfl]
    · exact ih _ hm

variable {store}

theorem Covered.upsertConversation {motebitId : String} (h : Covered motebitId store m)
    (conv : SyncConversation) : Covered motebitId (store.upsertConversation conv) m := by
  obtain ⟨c, hget, hmine, hle⟩ := h
  by_cases hid : conv.conversation_id = m.conversation_id
  · obtain ⟨-, howner, hrecent⟩ := merged_facts c conv
    refine ⟨merged c conv, ?_, howner.trans hmine, hle.trans hrecent⟩
    rw [get_upsertConversation, if_pos hid, hget, Option.elim_some]
  · refine ⟨c, ?_, hmine, hle⟩
    rw [get_upsertConversation, if_neg hid, hget]

theorem Covered.foldl_upsertConversation {motebitId : String} (rows : List SyncConversation)
    (h : Covered motebitId store m) :
    Covered motebitId (rows.foldl InMemoryConversationSyncStore.upsertConversation store) m :=
  foldlRecOn rows _ (motive := (Covered motebitId · m)) h fun st hst c _ => hst.upsertConversation c

theorem mem_of_get_foldl_upsertMessage (rows : List SyncConversationMessage) {id : String}
    (hget : (rows.foldl upsertMessage store).messages.get id =
      some m) : store.messages.get id = some m ∨ m ∈ rows := by
  induction rows generalizing store with
  | nil => exact .inl hget
  | cons r rows ih =>
    rcases ih hget with hone | hin
    · rw [get_upsertMessage] at hone
      split at hone
      · cases hold : store.messages.get id with
        | none =>
          rw [hold, Option.getD_none] at hone
          cases hone
          exact .inr mem_cons_self
        | some =>
          rw [hold, Option.getD_some] at hone
          exact .inl hone
      · exact .inl hone
    · exact .inr (mem_cons_of_mem _ hin)

end Upserts

/-! ## §7. Steps of a device -/

namespace DeviceOk

variable {motebitId : String} {now : ℚ} {issued : List SyncConversationMessage} {relay : Relay}
  {dev : Device}

section

variable (h : DeviceOk motebitId now issued relay dev)
include h

/-- **A cycle moves on** to a phase whose leg holds. -/
theorem goTo (i : Nat) {began : Relay}
    (hbegan : ∀ m ∈ began.messages, m ∈ relay.messages) {phase : Phase}
    (hleg : LegOk messageRows (messageView relay dev) (messageLeg phase))
    (hphase : PhaseOk relay dev.store.messages dev.lastSyncTimestamp phase) :
    DeviceOk motebitId now issued relay (dev.goTo i began phase) where
  __ := h
  safe := h.safe.goTo (c := ⟨phase, began⟩) hbegan hleg
  cycles := by
    intro j c hc
    rcases cycle_of_put hc with rfl | hc
    · exact hphase
    · exact h.cycles j c hc

theorem tick {now' : ℚ} (hle : now ≤ now') : DeviceOk motebitId now' issued relay dev :=
  { h with last_le := h.last_le.trans hle }

theorem issue (msg : SyncConversationMessage) : DeviceOk motebitId now (msg :: issued) relay dev :=
  { h with messages := h.messages.mono fun _ hm => mem_cons_of_mem msg hm }

theorem read {m : SyncConversationMessage}
    (hm : messageRows.Local dev.store.messages m) {conversation_id : String}
    (hconv : m.conversation_id = conversation_id) :
    m ∈ relay.messages ∨
      m ∈ dev.store.getMessagesSince conversation_id dev.lastSyncTimestamp := by
  rcases h.safe.unsent m hm with hsent | hlt
  · exact .inl hsent
  · right
    exact mem_getMessagesSince.mpr ⟨mem_values hm, hconv, hlt⟩

theorem pushMessages
    (hannounced : ∀ m, messageRows.Local dev.store.messages m → Announced relay.conversations m)
    (rest : List SyncConversation)
    (hrest : ∀ m, messageRows.Local dev.store.messages m → m ∈ relay.messages ∨ Waits rest m) :
    LegOk messageRows (messageView relay dev) (messageLeg (pushMessages dev rest)) ∧
      PhaseOk relay dev.store.messages dev.lastSyncTimestamp (pushMessages dev rest) := by
  induction rest with
  | nil =>
    refine ⟨?_, le_refl dev.lastSyncTimestamp⟩
    intro m hm
    exact (hrest m hm).resolve_right not_mem_nil
  | cons conv rest ih =>
    have hsplit : ∀ m, messageRows.Local dev.store.messages m → m ∈ relay.messages ∨
        m ∈ dev.store.getMessagesSince conv.conversation_id dev.lastSyncTimestamp ∨
        Waits rest m := by
      intro m hm
      rcases hrest m hm with hsent | hwaits
      · exact .inl hsent
      · rcases mem_cons.mp hwaits with hconv | hwaits
        · exact (h.read hm hconv).imp_right Or.inl
        · exact .inr (Or.inr hwaits)
    unfold ConversationCycles.pushMessages
    cases hread : dev.store.getMessagesSince conv.conversation_id dev.lastSyncTimestamp with rw [hread] at hsplit
    | nil =>
      apply ih
      intro m hm
      exact (hsplit m hm).imp_right fun hone => hone.resolve_left not_mem_nil
    | cons =>
      refine ⟨⟨hsplit, ?_⟩, hannounced⟩
      intro m hm
      rw [← hread] at hm
      exact (h.messages.get (mem_getMessagesSince.mp hm).1).1

theorem pushConversations (hrelay : RelayOk now issued relay) :
    LegOk messageRows (messageView relay dev) (messageLeg (pushConversations motebitId dev)) ∧
      PhaseOk relay dev.store.messages dev.lastSyncTimestamp (pushConversations motebitId dev) := by
  have hlisted : ∀ m, messageRows.Local dev.store.messages m → m ∈ relay.messages ∨
      ∃ c ∈ dev.store.getConversationsSince motebitId dev.lastSyncTimestamp, Announces c m := by
    intro m hm
    rcases h.safe.unsent m hm with hsent | hlt
    · exact .inl hsent
    · rcases h.unsent m hm with hsent | ⟨c, hget, hmine, hle⟩
      · exact .inl hsent
      · right
        have hactive : dev.lastSyncTimestamp < c.last_active_at := lt_of_lt_of_le hlt hle
        refine ⟨c, ?_, (h.conversations.id_of_get hget).symm, hle⟩
        exact mem_getConversationsSince.mpr ⟨mem_values hget, hmine, hactive⟩
  unfold ConversationCycles.pushConversations
  cases hread : dev.store.getConversationsSince motebitId dev.lastSyncTimestamp with rw [hread] at hlisted
  | nil =>
    refine ⟨?_, le_refl dev.lastSyncTimestamp⟩
    intro m hm
    rcases hlisted m hm with hsent | ⟨c, hc, -⟩
    · exact hsent
    · exact absurd hc not_mem_nil
  | cons =>
    refine ⟨⟨?_, by simp⟩, ?_⟩
    · intro m hm
      rcases hlisted m hm with hsent | ⟨c, hc, hid, -⟩
      · exact .inl hsent
      · exact .inr (mem_map.mpr ⟨c, hc, hid⟩)
    · intro m hm
      exact (hlisted m hm).imp_left (hrelay.announced m)

theorem create {id : String} (hnew : dev.store.conversations.get id = none) :
    DeviceOk motebitId now issued relay
      { dev with store := create dev.store motebitId id now } where
  __ := h
  conversations := by
    have hset := h.conversations.set (r := ⟨id, motebitId, now, now, none, none, 0⟩) trivial
    exact hset
  unsent := by
    intro m hm
    refine (h.unsent m hm).imp_right ?_
    rintro ⟨c, hget, hmine, hle⟩
    refine ⟨c, ?_, hmine, hle⟩
    show (dev.store.conversations.set id _).get m.conversation_id = some c
    rw [JsMap.get_set, if_neg]
    · exact hget
    · intro hid
      rw [hid, hnew] at hget
      cases hget

/-- **A message is appended.** -/
theorem append (hrelay : RelayOk now issued relay)
    {msg : SyncConversationMessage} (hnow : msg.created_at = now)
    (hnew : ∀ m ∈ issued, m.message_id ≠ msg.message_id) {conv : SyncConversation}
    (hconv : dev.store.conversations.get msg.conversation_id = some conv)
    (hmine : conv.motebit_id = motebitId) (hlast : dev.lastSyncTimestamp < now)
    (hidle : ∀ i, dev.cycles i = none) :
    DeviceOk motebitId now (msg :: issued) relay
      { dev with store := append dev.store msg now } := by
  have hfresh : dev.store.messages.get msg.message_id = none := by
    cases hget : dev.store.messages.get msg.message_id with
    | none => rfl
    | some m =>
      have hissued := (h.messages.get (mem_values hget)).2
      exact absurd (h.messages.id_of_get hget).symm (hnew m hissued)
  have hstore : (ConversationCycles.append dev.store msg now).conversations =
      dev.store.conversations.set msg.conversation_id
        { conv with last_active_at := now, message_count := conv.message_count + 1 } := by
    simp only [ConversationCycles.append, hconv]
  constructor
  · apply h.safe.append msg hfresh
    · rwa [← hnow] at hlast
    · apply view_unread
      intro i c hc
      rw [hidle i] at hc
      cases hc
  · exact (h.issue msg).messages.set mem_cons_self
  · show Listed _ _ (ConversationCycles.append dev.store msg now).conversations
    rw [hstore, h.conversations.id_of_get hconv]
    have hset := h.conversations.set
      (r := { conv with last_active_at := now, message_count := conv.message_count + 1 }) trivial
    exact hset
  · intro m hm
    by_cases hid : m.conversation_id = msg.conversation_id
    · right
      refine ⟨{ conv with last_active_at := now, message_count := conv.message_count + 1 }, ?_,
        hmine, ?_⟩
      · rw [hstore, JsMap.get_set, if_pos hid]
      · -- what the store holds was issued by now
        have hissued := (((h.issue msg).messages.set mem_cons_self).get (mem_values hm)).2
        rcases mem_cons.mp hissued with rfl | hissued
        · exact hnow.le
        · exact hrelay.stamps m hissued
    · have hother : messageRows.Local dev.store.messages m := by
        have hset : (dev.store.messages.set msg.message_id msg).get m.message_id = some m := hm
        rw [JsMap.get_set] at hset
        split at hset
        · cases hset
          exact absurd rfl hid
        · exact hset
      refine (h.unsent m hother).imp_right ?_
      rintro ⟨c, hget, howner, hle⟩
      refine ⟨c, ?_, howner, hle⟩
      rw [hstore, JsMap.get_set, if_neg hid, hget]
  · exact h.last_le
  · intro i c hc
    rw [hidle i] at hc
    cases hc

theorem growConversations
    (rows : List SyncConversation) :
    DeviceOk motebitId now issued
      { relay with conversations := relay.conversations ++ rows } dev where
  __ := h
  cycles i c hc := (h.cycles i c hc).mono (fun _ hin => mem_append_left rows hin)
    (fun _ hm => hm) (le_refl _) fun _ hm => .inl hm

theorem growMessages
    (rows : List SyncConversationMessage)
    (hrows : ∀ m ∈ rows, m ∈ relay.messages ∨ messageRows.Keeps dev.store.messages m ∨
      StillOpen dev m) :
    DeviceOk motebitId now issued { relay with messages := relay.messages ++ rows } dev where
  __ := h
  safe := by
    refine h.safe.growOpen rows fun m hm => (hrows m hm).imp_right (Or.imp_right ?_)
    refine And.imp_right fun hopen i c hc hmissed => ?_
    have hwaits := hopen i c hc
    cases hphase : c.phase <;> rw [hphase] at hmissed hwaits
    case pulledConversations remote => exact hwaits hmissed
    case pullingMessages id since rest => exact hwaits (not_or.mp hmissed)
    case pulledMessages remote rest => exact hwaits fun hw => hmissed (Or.inr hw)
    all_goals exact hmissed
  unsent m hm := (h.unsent m hm).imp_left (mem_append_left rows)
  cycles i c hc := (h.cycles i c hc).mono (fun _ hin => hin)
    (fun _ hm => mem_append_left rows hm) (le_refl _) fun _ hm => .inl hm

end

variable {i : Nat} {c : Cycle Phase Relay}

section

variable (h : DeviceOk motebitId now issued relay dev)
include h

theorem servePull (hrelay : RelayOk now issued relay) (hc : dev.cycles i = some c) :
    DeviceOk motebitId now issued relay (servePull relay dev i c) := by
  have hleg := h.safe.legOk hc
  have hok := h.cycles i c hc
  have hbegan := h.safe.beganOk hc
  unfold ConversationCycles.servePull
  cases hphase : c.phase <;> rw [hphase] at hleg hok
  case pullingConversations since =>
    apply h.goTo i hbegan
    · -- a message stamped after `since` is announced by a version active after it
      have hserved : LegOk messageRows (messageView relay dev)
          (.served since (Waits (relay.conversationsSince since))) := by
        apply h.safe.serve hleg hok
        intro m hm hlt
        obtain ⟨conv, hin, hid, hle⟩ := hrelay.announced m hm
        have hactive : since < conv.last_active_at := lt_of_lt_of_le hlt hle
        exact mem_map.mpr ⟨conv, mem_sortOn_since.mpr ⟨hin, hactive⟩, hid⟩
      exact additions_served.mpr (additions_served.mp hserved)
    · trivial
  case pullingMessages id since rest =>
    obtain ⟨hsent, hrows⟩ := additions_served.mp hleg
    apply h.goTo i hbegan
    · refine additions_served.mpr ⟨hsent, ?_⟩
      intro m hm
      rcases hrows m hm with hkept | hid | hwaits
      · exact .inl hkept
      · rcases h.safe.unseen m hm with hkept | hlt
        · exact .inl hkept
        · have hafter : since < m.created_at := lt_of_le_of_lt hok hlt
          refine .inr (Or.inl (mem_sortOn.mpr (mem_filter.mpr ⟨hm, ?_⟩)))
          simp [hid, hafter]
      · exact .inr (Or.inr hwaits)
    · intro m hm
      exact (mem_filter.mp (mem_sortOn.mp hm)).1
  all_goals exact h

theorem answerPush (hc : dev.cycles i = some c) :
    DeviceOk motebitId now issued relay (answerPush dev i c) := by
  have hleg := h.safe.legOk hc
  have hok := h.cycles i c hc
  have hbegan := h.safe.beganOk hc
  unfold ConversationCycles.answerPush
  cases hphase : c.phase <;> rw [hphase] at hleg hok
  case pushedConversations rows =>
    obtain ⟨hnext, hnextOk⟩ := h.pushMessages hok rows hleg.1
    exact h.goTo i hbegan hnext hnextOk
  case pushedMessages rest =>
    obtain ⟨hnext, hnextOk⟩ := h.pushMessages hok rest hleg.1
    exact h.goTo i hbegan hnext hnextOk
  all_goals exact h

theorem gatherConversations
    (rows : List SyncConversation) :
    DeviceOk motebitId now issued relay { dev with
      store := rows.foldl upsertConversation dev.store } := by
  have hmessages := foldl_upsertConversation_messages dev.store rows
  constructor
  · unfold messageView
    rw [hmessages]
    exact h.safe
  · dsimp only
    rw [hmessages]
    exact h.messages
  · exact foldlRecOn rows upsertConversation (motive := fun st : InMemoryConversationSyncStore =>
      Listed SyncConversation.conversation_id (fun _ => True) st.conversations) h.conversations
      fun st hst c _ => listed_upsertConversation hst trivial fun _ _ => trivial
  · dsimp only
    rw [hmessages]
    exact fun m hm => (h.unsent m hm).imp_right fun hcovered =>
      hcovered.foldl_upsertConversation rows
  · exact h.last_le
  · dsimp only
    rw [hmessages]
    exact h.cycles

variable {rows : List SyncConversationMessage}

theorem gains (hrelay : RelayOk now issued relay) (hrows : ∀ m ∈ rows, m ∈ relay.messages) :
    Gains message_id (messageView relay dev) rows
      (rows.foldl upsertMessage dev.store).messages where
  kept _ hget := get_foldl_upsertMessage_of_some dev.store rows hget
  arrived := by
    intro m hm
    have hlisted := listed_foldl_upsertMessage dev.store rows h.messages
      fun r hr => hrelay.issued r (hrows r hr)
    obtain ⟨n, hget⟩ := exists_get_foldl_upsertMessage dev.store rows hm
    have hn := (hlisted.get (mem_values hget)).2
    rw [hget, hrelay.unique m (hrelay.issued m (hrows m hm)) n hn (hlisted.id_of_get hget)]
  only _ hget := mem_of_get_foldl_upsertMessage rows hget
  relay := hrows

theorem gatherMessages
    (hrelay : RelayOk now issued relay) (hrows : ∀ m ∈ rows, m ∈ relay.messages) :
    DeviceOk motebitId now issued relay { dev with
      store := rows.foldl upsertMessage dev.store } := by
  have hgains := h.gains hrelay hrows
  have hconversations := foldl_upsertMessage_conversations dev.store rows
  constructor
  · exact h.safe.gather hgains
  · exact listed_foldl_upsertMessage dev.store rows h.messages
      fun r hr => hrelay.issued r (hrows r hr)
  · dsimp only
    rw [hconversations]
    exact h.conversations
  · intro m hm
    unfold Covered
    rw [hconversations]
    rcases hgains.only m hm with hold | hin
    · exact h.unsent m hold
    · exact .inl (hrows m hin)
  · exact h.last_le
  · intro i c hc
    apply (h.cycles i c hc).mono (fun _ hin => hin) (fun _ hm => hm) (le_refl _)
    intro m hm
    exact (hgains.only m hm).imp_right fun hin => hrelay.announced m (hrows m hin)

theorem pullMessages (hc : dev.cycles i = some c) (rest : List SyncConversation)
    (hleg : LegOk messageRows (messageView relay dev) (.served 0 (Waits rest))) :
    DeviceOk motebitId now issued relay (pullMessages now dev i c.began rest) := by
  cases rest with
  | nil =>
    have hnone : ∀ m, ¬ Waits [] m := fun _ => not_mem_nil
    refine ⟨h.safe.endCycle hc (LegOk.received hleg hnone) now, h.messages, h.conversations,
      h.unsent, le_refl now, ?_⟩
    intro j c' hc'
    exact (h.cycles j c' (cycle_of_removed hc')).mono (fun _ hin => hin) (fun _ hm => hm)
      h.last_le fun _ hm => .inl hm
  | cons =>
    apply h.goTo i (h.safe.beganOk hc)
    · obtain ⟨hsent, hrows⟩ := additions_served.mp hleg
      refine additions_served.mpr ⟨hsent, ?_⟩
      intro m hm
      exact (hrows m hm).imp_right fun hwaits => mem_cons.mp hwaits
    · exact le_refl dev.lastSyncTimestamp

theorem answerPull (hrelay : RelayOk now issued relay) (hc : dev.cycles i = some c) :
    DeviceOk motebitId now issued relay (answerPull now dev i c) := by
  have hleg := h.safe.legOk hc
  have hok := h.cycles i c hc
  unfold ConversationCycles.answerPull
  cases hphase : c.phase <;> rw [hphase] at hleg hok
  case pulledConversations rows =>
    apply (h.gatherConversations rows).pullMessages hc rows
    unfold messageView
    rw [foldl_upsertConversation_messages]
    exact hleg
  case pulledMessages rows rest =>
    apply (h.gatherMessages hrelay hok).pullMessages hc rest
    exact LegOk.gather (h.gains hrelay hok) hleg fun m hm => hm
  all_goals exact h

theorem fails (i : Nat) :
    DeviceOk motebitId now issued relay
      { dev with cycles := update dev.cycles i none } where
  __ := h
  safe := h.safe.drop i
  cycles j c hc := h.cycles j c (cycle_of_removed hc)

end

end DeviceOk

/-! ## §8. Steps of the system -/

namespace Inv

variable {motebitId : String} {s : State}

theorem put (h : Inv motebitId s) {d : Nat} {dev : Device}
    (hdev : DeviceOk motebitId s.now s.issued s.relay dev) : Inv motebitId (s.put d dev) :=
  ⟨h.relay, (forall_update_iff s.device fun _ => DeviceOk motebitId s.now s.issued s.relay).mpr
    ⟨hdev, fun e _ => h.device e⟩⟩

/-- **A push lands**: the device that pushed keeps the messages, every other may still be told of
    them, and they are announced. -/
theorem land (h : Inv motebitId s) {d i : Nat} {c : Cycle Phase Relay}
    (hc : (s.device d).cycles i = some c) (htimely : Timely s (.lands d i)) :
    Inv motebitId (land s d i (s.device d) c) := by
  have hown := h.device d
  have hbegan := hown.safe.beganOk hc
  have hleg := hown.safe.legOk hc
  have hok := hown.cycles i c hc
  have hothers := htimely c hc
  unfold ConversationCycles.land
  cases hphase : c.phase <;> rw [hphase] at hleg hok hothers
  case pushingConversations rows =>
    have hgrown : ∀ e, DeviceOk motebitId s.now s.issued
        { s.relay with conversations := s.relay.conversations ++ rows } (s.device e) :=
      fun e => (h.device e).growConversations rows
    refine ⟨⟨h.relay.unique, h.relay.stamps, h.relay.issued, ?_⟩, ?_⟩
    · intro m hm
      exact (h.relay.announced m hm).mono fun _ hin => mem_append_left rows hin
    · have hannounced : ∀ m, messageRows.Local (s.device d).store.messages m →
          Announced (s.relay.conversations ++ rows) m := by
        intro m hm
        rcases hok m hm with hold | hnew
        · exact hold.mono fun _ hin => mem_append_left rows hin
        · exact hnew.mono fun _ hin => mem_append_right s.relay.conversations hin
      exact (forall_update_iff s.device fun _ => DeviceOk motebitId s.now s.issued _).mpr
        ⟨(hgrown d).goTo i hbegan hleg hannounced, fun e _ => hgrown e⟩
  case pushingMessages rows rest =>
    have hgrown : ∀ e, DeviceOk motebitId s.now s.issued
        { s.relay with messages := s.relay.messages ++ rows } (s.device e) := by
      intro e
      apply (h.device e).growMessages rows
      intro m hm
      by_cases he : e = d
      · subst he
        exact .inr (Or.inl (hleg.2 m hm))
      · exact (hothers e he m hm).imp_right Or.inr
    refine ⟨⟨h.relay.unique, h.relay.stamps, ?_, ?_⟩, ?_⟩
    · intro m hm
      rcases mem_append.mp hm with hm | hm
      · exact h.relay.issued m hm
      · exact (hown.messages.get (mem_values (hleg.2 m hm))).2
    · intro m hm
      rcases mem_append.mp hm with hm | hm
      · exact h.relay.announced m hm
      · exact hok m (hleg.2 m hm)
    · have hstill : ∀ m, messageRows.Local (s.device d).store.messages m →
          m ∈ s.relay.messages ++ rows ∨ Waits rest m := by
        intro m hm
        rcases hleg.1 m hm with hsent | hin | hwaits
        · exact .inl (mem_append_left rows hsent)
        · exact .inl (mem_append_right s.relay.messages hin)
        · exact .inr hwaits
      exact (forall_update_iff s.device fun _ => DeviceOk motebitId s.now s.issued _).mpr
        ⟨(hgrown d).goTo i (fun m hm => mem_append_left rows (hbegan m hm))
          ⟨hstill, by simp⟩ hok, fun e _ => hgrown e⟩
  all_goals exact h

theorem advance (h : Inv motebitId s) {d i : Nat} {f : Device → Cycle Phase Relay → State}
    (hf : ∀ c, (s.device d).cycles i = some c → Inv motebitId (f (s.device d) c)) :
    Inv motebitId (s.advance d i f) := by
  unfold State.advance
  cases hc : (s.device d).cycles i with
  | none => exact h
  | some c => exact hf c hc

theorem append (h : Inv motebitId s) {d : Nat} {msg : SyncConversationMessage}
    (hen : enabled motebitId s (.appendMessage d msg)) (htimely : Timely s (.appendMessage d msg)) :
    Inv motebitId (apply motebitId s (.appendMessage d msg)) := by
  obtain ⟨hnow, hnew, conv, hconv, hmine⟩ := hen
  refine ⟨⟨?_, ?_, fun m hm => mem_cons_of_mem msg (h.relay.issued m hm), h.relay.announced⟩, ?_⟩
  · intro m hm n hn hid
    rcases mem_cons.mp hm with hm | hm <;> rcases mem_cons.mp hn with hn | hn
    · exact hm.trans hn.symm
    · exact absurd (hid.symm.trans (congrArg _ hm)) (hnew n hn)
    · exact absurd (hid.trans (congrArg _ hn)) (hnew m hm)
    · exact h.relay.unique m hm n hn hid
  · exact forall_mem_cons.mpr ⟨hnow.le, h.relay.stamps⟩
  · exact (forall_update_iff s.device
      fun _ => DeviceOk motebitId s.now (msg :: s.issued) s.relay).mpr
        ⟨(h.device d).append h.relay hnow hnew hconv hmine htimely.1 htimely.2,
          fun e _ => (h.device e).issue msg⟩

theorem advancePut (h : Inv motebitId s) {d i : Nat} {f : Device → Cycle Phase Relay → Device}
    (hf : ∀ c, (s.device d).cycles i = some c →
      DeviceOk motebitId s.now s.issued s.relay (f (s.device d) c)) :
    Inv motebitId (s.advance d i fun dev c => s.put d (f dev c)) :=
  h.advance fun c hc => h.put (hf c hc)

/-- **Every timely step keeps the invariant.** -/
theorem step (h : Inv motebitId s) {a : Act} (hen : enabled motebitId s a) (htimely : Timely s a) :
    Inv motebitId (apply motebitId s a) := by
  cases a with
  | tick now =>
    have hle : s.now ≤ now := hen
    exact ⟨⟨h.relay.unique, fun m hm => (h.relay.stamps m hm).trans hle, h.relay.issued,
      h.relay.announced⟩, fun d => (h.device d).tick hle⟩
  | createConversation d => exact h.put ((h.device d).create hen)
  | appendMessage => exact h.append hen htimely
  | sync d i =>
    obtain ⟨hleg, hok⟩ := (h.device d).pushConversations h.relay
    exact h.put ((h.device d).goTo i (fun _ hm => hm) hleg hok)
  | lands => exact h.advance fun c hc => h.land hc htimely
  | pushed d i =>
    exact h.advancePut (f := (answerPush · i)) fun c hc => (h.device d).answerPush hc
  | serves d i =>
    exact h.advancePut (f := (servePull s.relay · i)) fun c hc => (h.device d).servePull h.relay hc
  | pulled d i =>
    exact h.advancePut (f := (answerPull s.now · i)) fun c hc => (h.device d).answerPull h.relay hc
  | fails d i =>
    exact h.advancePut (f := fun dev _ => { dev with cycles := update dev.cycles i none })
      fun _ _ => (h.device d).fails i

end Inv

theorem inv_start (motebitId : String) : Inv motebitId start := by
  refine ⟨⟨forall_mem_nil _, forall_mem_nil _,
    forall_mem_nil _, forall_mem_nil _⟩, ?_⟩
  exact fun d => ⟨.blank (fun m hm => nomatch hm) rfl rfl, Listed.nil, Listed.nil,
    fun m hm => (nomatch hm), le_refl 0, fun i c hc => nomatch hc⟩

/-! ## §9. No message is lost -/

/-- Messages at or below a device's `lastSyncTimestamp` were pushed; what the relay held when its
    last successful cycle began it holds. -/
structure NoneLost (relay : Relay) (dev : Device) : Prop where
  pushed : ∀ id m, dev.store.messages.get id = some m → m.created_at ≤ dev.lastSyncTimestamp →
    m ∈ relay.messages
  pulled : ∀ m ∈ dev.lastBegan.messages, dev.store.messages.get m.message_id = some m

/-- **Timely runs lose no message.** -/
theorem conversationCycles_safe (motebitId : String) {s : State}
    (h : (timely motebitId).Reachable s) : ∀ d, NoneLost s.relay (s.device d) := by
  have hinv : Inv motebitId s :=
    System.Reachable.invariant (Inv motebitId) (inv_start motebitId)
      (fun u a hu (hen : enabled motebitId u a ∧ Timely u a) => hu.step hen.1 hen.2) h
  intro d
  refine ⟨?_, fun m hm => ((hinv.device d).safe.seen m hm).2⟩
  intro id m hget hle
  have hown : (s.device d).store.messages.get m.message_id = some m :=
    (hinv.device d).messages.id_of_get hget ▸ hget
  exact ((hinv.device d).safe.unsent m hown).resolve_right (not_lt.mpr hle)

end Motebit.Sync.ConversationCycles
