/-
  Motebit.Audit.Sink — THE CHAINED SINK OVER THE SQLITE TABLE.

  Translated from `packages/policy/src/audit.ts` (`ChainedAuditSink`) and
  `packages/persistence/src/sqlite-audit-chain-store.ts`.  A call is queued; its chain write
  reads the head, hashes and inserts, each step after an await, and a failure is swallowed.
  The hash is over the value in memory and the row keeps its JSON text, so the chain verifies
  only where the two agree.

  Main results: `storable_text`, `chain_verifies`, `undefined_breaks_chain`.
-/

import Motebit.Audit.Chain
import Motebit.Lib.Transition

namespace Motebit.Audit

open Motebit.Lib List

/-! ## §1. The table -/

structure AuditChainRow where
  entry_id : Text
  timestamp : JsonNum
  event_type : Text
  actor_id : Text
  data : List Char
  previous_hash : Text
  hash : Text
  deriving DecidableEq

/-- `rowToEntry`; an error is a throw of `JSON.parse`. -/
def rowToEntry (row : AuditChainRow) : Except String AuditEntry :=
  match Json.parse row.data with
  | some (.object members) =>
    .ok ⟨row.entry_id, row.timestamp, row.event_type, row.actor_id, ofJsonMembers members,
      row.previous_hash, row.hash⟩
  | _ => .error "SyntaxError"

def getEntries (rows : List AuditChainRow) : Except String (List AuditEntry) :=
  rows.mapM rowToEntry

def getHead (rows : List AuditChainRow) : Except String (Option AuditEntry) :=
  match rows.getLast? with
  | some row => (rowToEntry row).map some
  | none => .ok none

/-- The row `append` inserts, unless `JSON.stringify` throws.  The integer column keeps no
    sign of a zero. -/
def rowOf (entry : AuditEntry) : Except String AuditChainRow :=
  (toJson (.object entry.data)).map fun json =>
    ⟨entry.entry_id, entry.timestamp.unsigned, entry.event_type, entry.actor_id,
      (json.map Json.render).getD [], entry.previous_hash, entry.hash⟩

/-! ## §2. The sink -/

/-- `ToolAuditEntry`, as far as the chain reads it; an object is its members. -/
structure ToolAuditEntry where
  turnId : Text
  runId : Option Text
  callId : String
  tool : Text
  args : List (Text × JsValue)
  decision : List (Text × JsValue)
  result : Option (List (Text × JsValue))
  injection : Option (List (Text × JsValue))
  timestamp : JsonNum

/-- `data`, as `appendToChain` builds it. -/
def ToolAuditEntry.data (entry : ToolAuditEntry) : List (Text × JsValue) :=
  [(txt "tool", .string entry.tool), (txt "args", .object entry.args),
    (txt "decision", .object entry.decision)]
  ++ (entry.result.map fun result => (txt "result", JsValue.object result)).toList
  ++ (entry.injection.map fun injection => (txt "injection", JsValue.object injection)).toList
  ++ ((entry.runId.filter (· ≠ [])).map fun runId => (txt "run_id", JsValue.string runId)).toList
  ++ (if entry.turnId = [] then [] else [(txt "turn_id", JsValue.string entry.turnId)])

/-- The chain entry of a call, under its links. -/
def ToolAuditEntry.full (entry : ToolAuditEntry) (motebitId : String) (previousHash hash : Text) :
    AuditEntry where
  entry_id := txt entry.callId
  timestamp := entry.timestamp
  event_type := txt "tool_call"
  actor_id := txt motebitId
  data := entry.data
  previous_hash := previousHash
  hash := hash

/-- Where the chain write at the front of the queue stands. -/
inductive Writing
  /-- The head was read. -/
  | headRead (entry : ToolAuditEntry) (previousHash : Text)
  /-- The hash was computed. -/
  | hashed (entry : ToolAuditEntry) (previousHash hash : Text)

/-- The call that is being written. -/
def Writing.entry : Writing → ToolAuditEntry
  | .headRead entry _ => entry
  | .hashed entry .. => entry

def Writing.isHeadRead : Writing → Bool
  | .headRead .. => true
  | .hashed .. => false

def Writing.isHashed (w : Writing) : Bool := !w.isHeadRead

/-- A call as it was made: the sink's motebit and the entry. -/
abbrev Call := String × ToolAuditEntry

/-- The table, one process's sink over it, and what was called.  `settled` says of every call
    that left the queue whether its row was inserted. -/
structure Sink where
  motebitId : String
  rows : List AuditChainRow
  queue : List ToolAuditEntry
  writing : Option Writing
  calls : List Call
  settled : List (Call × Bool)

namespace Sink

/-- `drainChain` resolves: nothing is queued or being written. -/
def Drained (s : Sink) : Prop := s.queue = [] ∧ s.writing = none

/-- The calls whose rows were inserted. -/
def written (s : Sink) : List Call := (s.settled.filter Prod.snd).map Prod.fst

/-- The write in front is over. -/
def settle (s : Sink) (entry : ToolAuditEntry) (inserted : Bool) : Sink :=
  { s with writing := none, settled := s.settled ++ [((s.motebitId, entry), inserted)] }

/-- `verifyChain`, once the queue is drained. -/
def verifyChain (sha256 : ByteArray → ByteArray) (s : Sink) : Except String ChainVerdict := do
  let entries ← getEntries s.rows
  verifyAuditChain sha256 entries none none

end Sink

/-- What can happen next. -/
inductive SinkAct
  /-- `append` or `complete`. -/
  | call (entry : ToolAuditEntry)
  /-- The next queued write starts and reads the head. -/
  | start
  /-- It hashes its entry. -/
  | hash
  /-- It inserts its row. -/
  | insert
  /-- The database refuses the step. -/
  | refuse
  /-- A new process over the same table, after a drain. -/
  | restart (motebitId : String)

/-- What a step does; `appendAuditEntry` is its `start`, `hash` and `insert`. -/
def sinkStep (sha256 : ByteArray → ByteArray) (s : Sink) : SinkAct → Sink
  | .call entry =>
    { s with queue := s.queue ++ [entry], calls := s.calls ++ [(s.motebitId, entry)] }
  | .start =>
    match s.queue with
    | [] => s
    | entry :: rest =>
      -- `entry_id must not be empty`
      if entry.callId = "" then { s with queue := rest }.settle entry false
      else
        match getHead s.rows with
        | .error _ => { s with queue := rest }.settle entry false
        | .ok head =>
          { s with
            queue := rest
            writing := some (.headRead entry ((head.map AuditEntry.hash).getD GENESIS_HASH)) }
  | .hash =>
    match s.writing with
    | some (.headRead entry previousHash) =>
      match computeEntryHash sha256 previousHash (entry.full s.motebitId previousHash []) with
      | .error _ => s.settle entry false
      | .ok hash => { s with writing := some (.hashed entry previousHash hash) }
    | _ => s
  | .insert =>
    match s.writing with
    | some (.hashed entry previousHash hash) =>
      match rowOf (entry.full s.motebitId previousHash hash) with
      | .error _ => s.settle entry false
      | .ok row =>
        -- `hash TEXT NOT NULL UNIQUE`
        if row.hash ∈ s.rows.map AuditChainRow.hash then s.settle entry false
        else { s with rows := s.rows ++ [row] }.settle entry true
    | _ => s
  | .refuse =>
    match s.writing with
    | some w => s.settle w.entry false
    | none => s
  | .restart motebitId => { s with motebitId := motebitId }

/-- When a step can happen; `admitted` says which entries are called with. -/
def sinkEnabled (admitted : ToolAuditEntry → Prop) (s : Sink) : SinkAct → Prop
  | .call entry => admitted entry
  | .start => s.queue ≠ [] ∧ s.writing = none
  | .hash => s.writing.any Writing.isHeadRead = true
  | .insert => s.writing.any Writing.isHashed = true
  | .refuse => s.writing ≠ none
  | .restart _ => s.Drained

/-- The sink over an empty table, called with entries that are `admitted`. -/
def auditSystem (sha256 : ByteArray → ByteArray) (admitted : ToolAuditEntry → Prop)
    (motebitId : String) : System Sink SinkAct where
  init := ⟨motebitId, [], [], none, [], []⟩
  enabled := sinkEnabled admitted
  apply := sinkStep sha256

/-! ## §3. Values the table keeps -/

mutual

/-- A value, as a member of an object, that `JSON.stringify` writes as `canonicalJson` does:
    nowhere in it an undefined member, a function, a symbol or a hole, and no object that is
    written by something else than its members.  An undefined item is written as `null` by
    both, and on a BigInt both throw. -/
def Storable : JsValue → Prop
  | .undefined | .callable | .hole => False
  | .null | .bool _ | .number _ | .nonFinite | .bigint _ | .string _ => True
  | .array items => StorableItems items
  | .object members => StorableMembers members
  | .exotic members json => StorableMembers members ∧ toJson (.object members) = .ok json

def StorableItems : List JsValue → Prop
  | [] => True
  | item :: rest => (item = .undefined ∨ Storable item) ∧ StorableItems rest

def StorableMembers : List (Text × JsValue) → Prop
  | [] => True
  | (_, value) :: rest => Storable value ∧ StorableMembers rest

end

def TextAgrees (v : JsValue) : Prop :=
  ∀ text, canonicalJson v = .ok text → ∃ j, toJson v = .ok (some j) ∧ text = some j.canonical

theorem bind_ok {α β : Type} {x : Except String α} {f : α → Except String β} {b : β}
    (h : (x >>= f) = .ok b) : ∃ a, x = .ok a ∧ f a = .ok b := by
  cases x with
  | error => cases h
  | ok a => exact ⟨a, rfl, h⟩

theorem map_ok {α β : Type} {x : Except String α} {f : α → β} {b : β}
    (h : x.map f = .ok b) : ∃ a, x = .ok a ∧ f a = b := by
  cases x with
  | error => cases h
  | ok a =>
    cases h
    exact ⟨a, rfl, rfl⟩

theorem members_text {members : List (Text × JsValue)} {parts : List (Text × List Char)}
    (hvalues : ∀ m ∈ members, TextAgrees m.2) (h : canonicalMembers members = .ok parts) :
    ∃ ms, toJsonMembers members = .ok ms ∧
      parts = ms.map fun m => (m.1, Json.renderMember (m.1, m.2.sorted)) := by
  induction members generalizing parts with
  | nil =>
    cases h
    exact ⟨[], rfl, rfl⟩
  | cons m rest ih =>
    obtain ⟨key, value⟩ := m
    obtain ⟨text, htext, h⟩ := bind_ok h
    obtain ⟨others, hothers, h⟩ := bind_ok h
    cases h
    obtain ⟨j, hjson, rfl⟩ := hvalues (key, value) mem_cons_self text htext
    obtain ⟨ms, hms, rfl⟩ := ih (fun m hm => hvalues m (mem_cons_of_mem _ hm)) hothers
    refine ⟨(key, j) :: ms, ?_, rfl⟩
    rw [toJsonMembers, hjson, hms]
    rfl

theorem object_text {members : List (Text × JsValue)} {text : Option (List Char)}
    (hvalues : ∀ m ∈ members, TextAgrees m.2) (h : (canonicalMembers members).map (fun parts =>
      some ('{' :: (joinComma ((sortByKey parts).map Prod.snd) ++ ['}']))) = .ok text) :
    ∃ ms, toJsonMembers members = .ok ms ∧ text = some (Json.object ms).canonical := by
  obtain ⟨parts, hparts, rfl⟩ := map_ok h
  obtain ⟨ms, hms, rfl⟩ := members_text hvalues hparts
  exact ⟨ms, hms, by rw [Json.canonical_object]⟩

theorem items_text {items : List JsValue} {parts : List (List Char)}
    (hitems : ∀ item ∈ items, item = .undefined ∨ TextAgrees item)
    (h : canonicalItems items = .ok parts) :
    ∃ js, toJsonItems items = .ok js ∧ parts = js.map Json.canonical := by
  induction items generalizing parts with
  | nil =>
    cases h
    exact ⟨[], rfl, rfl⟩
  | cons item rest ih =>
    obtain ⟨text, htext, h⟩ := bind_ok h
    obtain ⟨others, hothers, h⟩ := bind_ok h
    cases h
    obtain ⟨js, hjs, rfl⟩ := ih (fun x hx => hitems x (mem_cons_of_mem _ hx)) hothers
    rcases hitems item mem_cons_self with rfl | hagrees
    · -- an undefined item is `null` in both texts
      cases htext
      refine ⟨.null :: js, ?_, rfl⟩
      rw [toJsonItems, hjs]
      rfl
    · obtain ⟨j, hjson, rfl⟩ := hagrees text htext
      refine ⟨j :: js, ?_, rfl⟩
      rw [toJsonItems, hjson, hjs]
      rfl

theorem storableItems_iff (items : List JsValue) :
    StorableItems items ↔ ∀ item ∈ items, item = .undefined ∨ Storable item := by
  induction items with
  | nil => simp [StorableItems]
  | cons item rest ih => rw [StorableItems, ih, forall_mem_cons]

theorem storableMembers_iff (members : List (Text × JsValue)) :
    StorableMembers members ↔ ∀ m ∈ members, Storable m.2 := by
  induction members with
  | nil => simp [StorableMembers]
  | cons m rest ih => rw [StorableMembers, ih, forall_mem_cons]

/-- **A storable value's canonical text is that of its JSON.** -/
theorem storable_text (v : JsValue) (hstorable : Storable v) : TextAgrees v := by
  induction v using JsValue.induct with
  | undefined | callable | hole => exact hstorable.elim
  | null | nonFinite => exact fun _ h => ⟨.null, rfl, (Except.ok.inj h).symm⟩
  | bool b => exact fun _ h => ⟨.bool b, rfl, (Except.ok.inj h).symm⟩
  | number n => exact fun _ h => ⟨.number n, rfl, (Except.ok.inj h).symm⟩
  | string s => exact fun _ h => ⟨.string s, rfl, (Except.ok.inj h).symm⟩
  | bigint =>
    nofun
  | array items ih =>
    intro text h
    have hitems : ∀ item ∈ items, item = .undefined ∨ TextAgrees item := fun item hitem =>
      ((storableItems_iff items).mp hstorable item hitem).imp_right (ih item hitem)
    obtain ⟨parts, hparts, rfl⟩ := map_ok h
    obtain ⟨js, hjs, rfl⟩ := items_text hitems hparts
    refine ⟨.array js, ?_, by rw [Json.canonical_array]⟩
    show (toJsonItems items).map _ = _
    rw [hjs]
    rfl
  | object members ih =>
    intro text h
    have hvalues : ∀ m ∈ members, TextAgrees m.2 := fun m hm =>
      ih m hm ((storableMembers_iff members).mp hstorable m hm)
    obtain ⟨ms, hms, rfl⟩ := object_text hvalues h
    refine ⟨.object ms, ?_, rfl⟩
    show (toJsonMembers members).map _ = _
    rw [hms]
    rfl
  | exotic members json ih =>
    intro text h
    have hvalues : ∀ m ∈ members, TextAgrees m.2 := fun m hm =>
      ih m hm ((storableMembers_iff members).mp hstorable.1 m hm)
    obtain ⟨ms, hms, rfl⟩ := object_text hvalues h
    have hjson : toJson (.object members) = .ok (some (.object ms)) := by
      show (toJsonMembers members).map _ = _
      rw [hms]
      rfl
    refine ⟨.object ms, ?_, rfl⟩
    show Except.ok json = _
    rw [← hstorable.2, hjson]

/-- A BigInt somewhere in a value. -/
inductive HasBigint : JsValue → Prop
  | here (n : Int) : HasBigint (.bigint n)
  | item {items : List JsValue} {item : JsValue} :
      item ∈ items → HasBigint item → HasBigint (.array items)
  | member {members : List (Text × JsValue)} {m : Text × JsValue} :
      m ∈ members → HasBigint m.2 → HasBigint (.object members)
  | own {members : List (Text × JsValue)} {json : Option Json} {m : Text × JsValue} :
      m ∈ members → HasBigint m.2 → HasBigint (.exotic members json)

theorem canonicalItems_throws {items : List JsValue} {item : JsValue} {message : String}
    (hmem : item ∈ items) (h : canonicalJson item = .error message) :
    ∃ message, canonicalItems items = .error message := by
  induction items with
  | nil => cases hmem
  | cons head rest ih =>
    rw [canonicalItems]
    rcases mem_cons.mp hmem with rfl | hmem
    · rw [h]
      exact ⟨message, rfl⟩
    · obtain ⟨message', hrest⟩ := ih hmem
      rw [hrest]
      cases canonicalJson head <;> exact ⟨_, rfl⟩

theorem canonicalMembers_throws {members : List (Text × JsValue)} {m : Text × JsValue}
    {message : String} (hmem : m ∈ members) (h : canonicalJson m.2 = .error message) :
    ∃ message, canonicalMembers members = .error message := by
  induction members with
  | nil => cases hmem
  | cons head rest ih =>
    rw [canonicalMembers]
    rcases mem_cons.mp hmem with rfl | hmem
    · rw [h]
      exact ⟨message, rfl⟩
    · obtain ⟨message', hrest⟩ := ih hmem
      rw [hrest]
      cases canonicalJson head.2 <;> exact ⟨_, rfl⟩

/-- **A BigInt anywhere makes `canonicalJson` throw.** -/
theorem canonicalJson_bigint {v : JsValue} (h : HasBigint v) :
    ∃ message, canonicalJson v = .error message := by
  induction h with
  | here => exact ⟨BIGINT_ERROR, rfl⟩
  | item hmem _ ih =>
    obtain ⟨message, hitem⟩ := ih
    obtain ⟨message, hitems⟩ := canonicalItems_throws hmem hitem
    exact ⟨message, by rw [canonicalJson, hitems]; rfl⟩
  | member hmem _ ih | own hmem _ ih =>
    obtain ⟨message, hvalue⟩ := ih
    obtain ⟨message, hmembers⟩ := canonicalMembers_throws hmem hvalue
    exact ⟨message, by rw [canonicalJson, hmembers]; rfl⟩

/-! ## §4. A row reads back -/

theorem hashInput_text {a b : AuditEntry} (hid : a.entry_id = b.entry_id)
    (htime : a.timestamp.unsigned = b.timestamp.unsigned) (htype : a.event_type = b.event_type)
    (hactor : a.actor_id = b.actor_id)
    (hdata : canonicalJson (.object a.data) = canonicalJson (.object b.data)) (prev : Text) :
    canonicalJson (hashInput prev a) = canonicalJson (hashInput prev b) := by
  have htext : a.timestamp.text = b.timestamp.text := by
    have hunsigned : ∀ n : JsonNum, n.unsigned.text = n.text := by
      intro n
      cases n <;> rfl
    rw [← hunsigned, htime, hunsigned]
  have hnumber : canonicalJson (.number a.timestamp) = canonicalJson (.number b.timestamp) := by
    rw [canonicalJson, canonicalJson, htext]
  unfold hashInput
  rw [canonicalJson, canonicalJson]
  simp only [canonicalMembers, hid, htype, hactor, hdata, hnumber]

/-- **A row reads back** to an entry with the same links and the same hashed text. -/
theorem row_reads_back {entry : AuditEntry} {row : AuditChainRow}
    {text : Option (List Char)} (hstorable : StorableMembers entry.data)
    (htext : canonicalJson (.object entry.data) = .ok text) (hrow : rowOf entry = .ok row) :
    ∃ read, rowToEntry row = .ok read ∧ read.previous_hash = entry.previous_hash ∧
      read.hash = entry.hash ∧
      canonicalJson (hashInput read.previous_hash read)
        = canonicalJson (hashInput entry.previous_hash entry) := by
  have hvalues : ∀ m ∈ entry.data, TextAgrees m.2 := fun m hm =>
    storable_text m.2 ((storableMembers_iff entry.data).mp hstorable m hm)
  obtain ⟨ms, hms, rfl⟩ := object_text hvalues htext
  unfold rowOf at hrow
  rw [toJson, hms] at hrow
  cases hrow
  refine ⟨⟨entry.entry_id, entry.timestamp.unsigned, entry.event_type, entry.actor_id,
    ofJsonMembers (Json.unsignedMembers ms), entry.previous_hash, entry.hash⟩, ?_, rfl, rfl, ?_⟩
  · unfold rowToEntry
    show (match Json.parse (Json.object ms).render with
      | some (.object members) => _
      | _ => _) = _
    rw [Json.parse_render]
    rfl
  · apply hashInput_text
    · rfl
    · show entry.timestamp.unsigned.unsigned = entry.timestamp.unsigned
      cases entry.timestamp <;> rfl
    · rfl
    · rfl
    · show canonicalJson (ofJson (Json.object ms).unsigned) = _
      rw [canonicalJson_ofJson, Json.canonical_unsigned, htext]

/-! ## §5. Runs -/

/-- An entry the table keeps as it was hashed: everything in it is storable, or it cannot be
    hashed at all. -/
def Survives (entry : ToolAuditEntry) : Prop :=
  StorableMembers entry.data ∨ HasBigint (.object entry.data)

def Records (row : AuditChainRow) (call : Call) : Prop :=
  row.entry_id = txt call.2.callId ∧ row.timestamp = call.2.timestamp.unsigned ∧
    row.event_type = txt "tool_call" ∧ row.actor_id = txt call.1 ∧
    ∃ json, toJson (.object call.2.data) = .ok json ∧ row.data = (json.map Json.render).getD []

def rowsHead (rows : List AuditChainRow) : Text :=
  (rows.getLast?.map AuditChainRow.hash).getD GENESIS_HASH

theorem rowToEntry_hash {row : AuditChainRow} {entry : AuditEntry}
    (h : rowToEntry row = .ok entry) : entry.hash = row.hash := by
  unfold rowToEntry at h
  split at h
  · cases h
    rfl
  · cases h

variable {rows : List AuditChainRow} {entries : List AuditEntry}

theorem getEntries_snoc {row : AuditChainRow} {entry : AuditEntry}
    (hrows : getEntries rows = .ok entries) (hrow : rowToEntry row = .ok entry) :
    getEntries (rows ++ [row]) = .ok (entries ++ [entry]) := by
  unfold getEntries at hrows ⊢
  rw [mapM_append, hrows, mapM_cons, hrow]
  rfl

theorem getEntries_inv {row : AuditChainRow} (h : getEntries (rows ++ [row]) = .ok entries) :
    ∃ before entry, entries = before ++ [entry] ∧ getEntries rows = .ok before ∧
      rowToEntry row = .ok entry := by
  unfold getEntries at h
  rw [mapM_append] at h
  obtain ⟨before, hbefore, h⟩ := bind_ok h
  obtain ⟨last, hlast, h⟩ := bind_ok h
  obtain ⟨entry, hentry, hlast⟩ := bind_ok hlast
  cases hlast
  cases h
  exact ⟨before, entry, rfl, hbefore, hentry⟩

theorem getHead_ok (h : getEntries rows = .ok entries) :
    HashChain.head AuditEntry.hash GENESIS_HASH entries = rowsHead rows ∧
      ∃ head, getHead rows = .ok head ∧
        (head.map AuditEntry.hash).getD GENESIS_HASH = rowsHead rows := by
  induction rows using List.reverseRecOn with
  | nil =>
    cases h
    exact ⟨rfl, none, rfl, rfl⟩
  | append_singleton rows row =>
    obtain ⟨before, entry, rfl, -, hrow⟩ := getEntries_inv h
    have hlast : rowsHead (rows ++ [row]) = entry.hash := by
      unfold rowsHead
      rw [getLast?_concat, rowToEntry_hash hrow]
      rfl
    refine ⟨?_, some entry, ?_, ?_⟩
    · rw [HashChain.head_snoc, hlast]
    · unfold getHead
      rw [getLast?_concat]
      dsimp only
      rw [hrow]
      rfl
    · exact hlast.symm

def Writing.Continues (sha256 : ByteArray → ByteArray) (s : Sink) : Writing → Prop
  | .headRead _ previousHash => previousHash = rowsHead s.rows
  | .hashed entry previousHash hash => previousHash = rowsHead s.rows ∧
      computeEntryHash sha256 previousHash (entry.full s.motebitId previousHash []) = .ok hash

/-- What holds in every state of a run. -/
structure SinkInv (sha256 : ByteArray → ByteArray) (s : Sink) : Prop where
  order : s.settled.map Prod.fst ++
    ((s.writing.map Writing.entry).toList ++ s.queue).map (fun e => (s.motebitId, e)) = s.calls
  survives : ∀ e, e ∈ (s.writing.map Writing.entry).toList ++ s.queue → Survives e
  chained : ∃ entries, getEntries s.rows = .ok entries ∧
    HashChain.Chained AuditEntry.previous_hash AuditEntry.hash (entryDigest sha256) GENESIS_HASH
      entries ∧ ∀ e ∈ entries, Hashable e
  recorded : List.Forall₂ Records s.rows s.written
  writing : ∀ w, s.writing = some w → w.Continues sha256 s

variable {sha256 : ByteArray → ByteArray} {s : Sink}

theorem SinkInv.giveUp {queue : List ToolAuditEntry} {entry : ToolAuditEntry}
    (hinv : SinkInv sha256 s)
    (hfront : (s.writing.map Writing.entry).toList ++ s.queue = entry :: queue) :
    SinkInv sha256 ({ s with queue := queue }.settle entry false) := by
  refine ⟨?_, ?_, hinv.chained, ?_, ?_⟩
  · have horder := hinv.order
    rw [hfront] at horder
    show (s.settled ++ [((s.motebitId, entry), false)]).map Prod.fst ++
      queue.map (fun e => (s.motebitId, e)) = s.calls
    rw [← horder]
    simp
  · intro e he
    apply hinv.survives e
    rw [hfront]
    exact mem_cons_of_mem _ he
  · have hwritten : ({ s with queue := queue }.settle entry false).written = s.written := by
      simp [Sink.written, Sink.settle]
    rw [hwritten]
    exact hinv.recorded
  · nofun

theorem SinkInv.start (hinv : SinkInv sha256 s) (hqueue : s.queue ≠ []) (hidle : s.writing = none) :
    SinkInv sha256 (sinkStep sha256 s .start) := by
  cases hq : s.queue with
  | nil => exact absurd hq hqueue
  | cons entry rest =>
    have hfront : (s.writing.map Writing.entry).toList ++ s.queue = entry :: rest := by
      rw [hidle, hq]
      rfl
    obtain ⟨entries, hentries, hchain⟩ := hinv.chained
    obtain ⟨-, head, hhead, hhash⟩ := getHead_ok hentries
    unfold sinkStep
    rw [hq]
    dsimp only
    split
    · exact hinv.giveUp hfront
    · rw [hhead]
      refine ⟨?_, ?_, hinv.chained, hinv.recorded, ?_⟩
      · rw [← hinv.order, hfront]
        rfl
      · intro e he
        apply hinv.survives e
        rw [hfront]
        exact he
      · intro w hw
        cases hw
        exact hhash

theorem SinkInv.hash (hinv : SinkInv sha256 s) : SinkInv sha256 (sinkStep sha256 s .hash) := by
  unfold sinkStep
  dsimp only
  split
  · next entry previousHash hwriting =>
    have hfront : (s.writing.map Writing.entry).toList ++ s.queue = entry :: s.queue := by
      rw [hwriting]
      rfl
    split
    · exact hinv.giveUp hfront
    next hash hcomputed =>
    refine ⟨?_, ?_, hinv.chained, hinv.recorded, ?_⟩
    · rw [← hinv.order, hfront]
      rfl
    · intro e he
      apply hinv.survives e
      rw [hfront]
      exact he
    · intro w hw
      cases hw
      exact ⟨hinv.writing _ hwriting, hcomputed⟩
  · exact hinv

/-- **An inserted row extends the chain.** -/
theorem SinkInv.insert (hinv : SinkInv sha256 s) : SinkInv sha256 (sinkStep sha256 s .insert) := by
  unfold sinkStep
  dsimp only
  split
  · next entry previousHash hash hwriting =>
    have hfront : (s.writing.map Writing.entry).toList ++ s.queue = entry :: s.queue := by
      rw [hwriting]
      rfl
    split
    · exact hinv.giveUp hfront
    next row hrow =>
    split
    · exact hinv.giveUp hfront
    · obtain ⟨hlink, hcomputed⟩ := hinv.writing _ hwriting
      have hdigest : hash = sha256hex sha256 (payload (entry.full s.motebitId previousHash hash))
          ∧ ∃ text, canonicalJson
            (hashInput previousHash (entry.full s.motebitId previousHash hash)) = .ok text := by
        obtain ⟨⟨text, htext⟩, heq⟩ := (computeEntryHash_ok sha256).mp hcomputed
        exact ⟨heq, text, htext⟩
      obtain ⟨hdigest, text, htext⟩ := hdigest
      -- the data was hashed, so nothing in it throws, and it is storable
      have hdata : ∃ dataText, canonicalJson (.object entry.data) = .ok dataText := by
        cases hobject : canonicalJson (.object entry.data) with
        | ok dataText => exact ⟨dataText, rfl⟩
        | error =>
          obtain ⟨message', hthrows⟩ := canonicalMembers_throws
            (show (txt "data", JsValue.object entry.data) ∈
              [(txt "previous_hash", JsValue.string previousHash),
                (txt "entry_id", .string (txt entry.callId)),
                (txt "timestamp", .number entry.timestamp),
                (txt "event_type", .string (txt "tool_call")),
                (txt "actor_id", .string (txt s.motebitId)), (txt "data", .object entry.data)]
              by simp) hobject
          have hno : canonicalJson (hashInput previousHash
              (entry.full s.motebitId previousHash hash)) = .error message' := by
            exact congrArg (Except.map _) hthrows
          rw [hno] at htext
          cases htext
      obtain ⟨dataText, hdataText⟩ := hdata
      have hstorable : StorableMembers entry.data := by
        have hmem : entry ∈ (s.writing.map Writing.entry).toList ++ s.queue := by
          rw [hfront]
          exact mem_cons_self
        rcases hinv.survives entry hmem with hstorable | hbigint
        · exact hstorable
        · obtain ⟨message, hthrows⟩ := canonicalJson_bigint hbigint
          rw [hthrows] at hdataText
          cases hdataText
      obtain ⟨read, hread, hprev, hhash, hinput⟩ := row_reads_back hstorable hdataText hrow
      obtain ⟨entries, hentries, hchain, hhashable⟩ := hinv.chained
      refine ⟨?_, ?_, ⟨entries ++ [read], getEntries_snoc hentries hread, ?_, ?_⟩, ?_, ?_⟩
      · have horder := hinv.order
        rw [hfront] at horder
        show (s.settled ++ [((s.motebitId, entry), true)]).map Prod.fst ++
          s.queue.map (fun e => (s.motebitId, e)) = s.calls
        rw [← horder]
        simp
      · intro e he
        apply hinv.survives e
        rw [hfront]
        exact mem_cons_of_mem _ he
      · rw [HashChain.chained_snoc]
        refine ⟨hchain, ?_, ?_⟩
        · rw [hprev, (getHead_ok hentries).1]
          exact hlink
        · rw [hhash]
          show hash = sha256hex sha256 (payload read)
          have hpayload : payload read = payload (entry.full s.motebitId previousHash hash) := by
            unfold payload
            rw [hinput]
          rw [hpayload]
          exact hdigest
      · intro e he
        rcases mem_append.mp he with he | he
        · exact hhashable e he
        · obtain rfl := mem_singleton.mp he
          exact ⟨text, hinput.trans htext⟩
      · have hwritten : ({ s with rows := s.rows ++ [row] }.settle entry true).written
            = s.written ++ [(s.motebitId, entry)] := by
          simp [Sink.written, Sink.settle]
        rw [hwritten]
        show List.Forall₂ Records (s.rows ++ [row]) (s.written ++ [(s.motebitId, entry)])
        refine rel_append hinv.recorded (List.Forall₂.cons ?_ List.Forall₂.nil)
        obtain ⟨json, hjson, rfl⟩ := map_ok hrow
        exact ⟨rfl, rfl, rfl, rfl, json, hjson, rfl⟩
      · nofun
  · exact hinv

/-- **Every step keeps it.** -/
theorem SinkInv.step (hinv : SinkInv sha256 s) (act : SinkAct)
    (henabled : sinkEnabled Survives s act) : SinkInv sha256 (sinkStep sha256 s act) := by
  cases act with
  | call entry =>
    refine ⟨?_, ?_, hinv.chained, hinv.recorded, hinv.writing⟩
    · show s.settled.map Prod.fst ++ ((s.writing.map Writing.entry).toList ++
        (s.queue ++ [entry])).map (fun e => (s.motebitId, e)) = s.calls ++ [(s.motebitId, entry)]
      rw [← hinv.order]
      simp
    · intro e he
      have he' : e ∈ ((s.writing.map Writing.entry).toList ++ s.queue) ++ [entry] := by
        rw [append_assoc]
        exact he
      rcases mem_append.mp he' with he | he
      · exact hinv.survives e he
      · obtain rfl := mem_singleton.mp he
        exact henabled
  | start => exact hinv.start henabled.1 henabled.2
  | hash => exact hinv.hash
  | insert => exact hinv.insert
  | refuse =>
    unfold sinkStep
    dsimp only
    split
    · next w hwriting =>
      apply hinv.giveUp
      rw [hwriting]
      rfl
    · exact hinv
  | restart motebitId =>
    obtain ⟨hqueue, hidle⟩ := henabled
    have horder := hinv.order
    refine ⟨?_, hinv.survives, hinv.chained, hinv.recorded, ?_⟩
    · show s.settled.map Prod.fst ++ ((s.writing.map Writing.entry).toList ++ s.queue).map
        (fun e => (motebitId, e)) = s.calls
      rw [hqueue, hidle] at horder ⊢
      exact horder
    · intro w hw
      have hw' : s.writing = some w := hw
      rw [hidle] at hw'
      cases hw'

/-- **An honestly written chain verifies.**  With entries that survive the table, in every
    state of every run `verifyChain` answers valid; and once the queue is drained every call
    was settled in order and the table holds exactly the calls whose insert was done. -/
theorem chain_verifies (sha256 : ByteArray → ByteArray) (motebitId : String) (s : Sink)
    (h : (auditSystem sha256 Survives motebitId).Reachable s) :
    s.verifyChain sha256 = .ok .valid ∧
      (s.Drained → s.settled.map Prod.fst = s.calls ∧ List.Forall₂ Records s.rows s.written) := by
  have hinv : SinkInv sha256 s := by
    refine System.Reachable.invariant (SinkInv sha256) ?_ (fun _ act hinv => hinv.step act) h
    refine ⟨rfl, ?_, ⟨[], rfl, trivial, ?_⟩, List.Forall₂.nil, ?_⟩
    · nofun
    · nofun
    · nofun
  constructor
  · obtain ⟨entries, hentries, hvalid⟩ := hinv.chained
    unfold Sink.verifyChain
    rw [hentries]
    exact (verifyAuditChain_iff sha256 entries).mpr hvalid
  · rintro ⟨hqueue, hidle⟩
    have horder := hinv.order
    rw [hqueue, hidle] at horder
    exact ⟨by simpa using horder, hinv.recorded⟩

/-- A search called with an optional argument that is present and undefined. -/
def undefinedArgument : ToolAuditEntry where
  turnId := txt "turn-1"
  runId := none
  callId := "call-1"
  tool := txt "web_search"
  args := [(txt "limit", .undefined)]
  decision := [(txt "allowed", .bool true), (txt "requiresApproval", .bool false)]
  result := none
  injection := none
  timestamp := .decimal ⟨['0'], isNumberText_zero⟩

def hashedPayload : String :=
  "\x7b\"actor_id\":\"motebit\",\"data\":\x7b\"args\":\x7b\"limit\":null\x7d"
    ++ ",\"decision\":\x7b\"allowed\":true,\"requiresApproval\":false\x7d"
    ++ ",\"tool\":\"web_search\",\"turn_id\":\"turn-1\"\x7d"
    ++ ",\"entry_id\":\"call-1\",\"event_type\":\"tool_call\",\"previous_hash\":\"genesis\",\"timestamp\":0\x7d"

/-- What the hash is checked over, once the row was read back. -/
def keptPayload : String :=
  "\x7b\"actor_id\":\"motebit\",\"data\":\x7b\"args\":\x7b\x7d"
    ++ ",\"decision\":\x7b\"allowed\":true,\"requiresApproval\":false\x7d"
    ++ ",\"tool\":\"web_search\",\"turn_id\":\"turn-1\"\x7d"
    ++ ",\"entry_id\":\"call-1\",\"event_type\":\"tool_call\",\"previous_hash\":\"genesis\",\"timestamp\":0\x7d"

def searchSha256 (bytes : ByteArray) : ByteArray :=
  if bytes = hashedPayload.toUTF8 then
    ⟨#[116, 39, 124, 0, 78, 27, 171, 242, 165, 131, 103, 48, 219, 195, 32, 131,
      54, 178, 188, 158, 204, 135, 8, 201, 234, 71, 68, 131, 141, 16, 4, 159]⟩
  else if bytes = keptPayload.toUTF8 then
    ⟨#[3, 160, 109, 192, 22, 247, 29, 23, 41, 237, 240, 235, 126, 180, 164, 6,
      69, 60, 99, 85, 62, 233, 53, 188, 67, 193, 188, 204, 213, 64, 251, 51]⟩
  else bytes

def oneCallRun (entry : ToolAuditEntry) : List SinkAct := [.call entry, .start, .hash, .insert]

/-- The same call without the undefined argument, over bytes hashed as they are. -/
theorem chain_verifies_search :
    ((auditSystem id Survives "motebit").run (auditSystem id Survives "motebit").init
      (oneCallRun { undefinedArgument with args := [] })).verifyChain id = .ok .valid := by
  refine (chain_verifies id "motebit" _ (System.reachableFrom_run _ _ _ ?_)).1
  refine ⟨.inl ?_, ⟨cons_ne_nil _ _, rfl⟩, ?_, ?_, trivial⟩
  · exact ⟨trivial, trivial, ⟨trivial, trivial, trivial⟩, trivial, trivial⟩
  · show Option.any Writing.isHeadRead _ = true
    decide +kernel
  · show Option.any Writing.isHashed _ = true
    decide +kernel

/-- **An undefined argument breaks the chain**: the call is written, the queue is drained, and
    the only entry of the chain does not verify. -/
theorem undefined_breaks_chain :
    ∃ s, (auditSystem searchSha256 (fun _ => True) "motebit").Reachable s ∧ s.Drained ∧
      s.rows.length = 1 ∧ s.verifyChain searchSha256 = .ok (.brokenAt 0) := by
  refine ⟨(auditSystem searchSha256 (fun _ => True) "motebit").run
    (auditSystem searchSha256 (fun _ => True) "motebit").init (oneCallRun undefinedArgument), ?_, ⟨rfl, ?_⟩, ?_, ?_⟩
  · apply System.reachableFrom_run
    refine ⟨trivial, ?_, ?_, ?_, trivial⟩
    · exact ⟨cons_ne_nil _ _, rfl⟩
    · show Option.any Writing.isHeadRead _ = true
      decide +kernel
    · show Option.any Writing.isHashed _ = true
      decide +kernel
  · decide +kernel
  · decide +kernel
  · unfold searchSha256
    simp only [byteArray_eq_iff]
    decide +kernel

end Motebit.Audit
