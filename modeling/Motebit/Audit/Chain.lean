/-
  Motebit.Audit.Chain — THE AUDIT CHAIN: entries hashed over their canonical JSON.

  Translated from `packages/policy/src/audit-chain.ts`.  An entry's data may hold any JavaScript
  value; `canonicalJson` writes an undefined value as `null`, where `JSON.stringify` leaves the
  member out.  SHA-256 is a parameter.

  Main results: `canonicalJson_ofJson`, `verifyAuditChain_iff`, `head_commits_to_trail`.
-/

import Mathlib
import Motebit.Lib.HashChain
import Motebit.Lib.Json

namespace Motebit.Audit

open Motebit.Lib List

/-! ## §1. Values -/

/-- A JavaScript value, as far as it can reach an entry's data. -/
inductive JsValue
  | undefined
  | null
  | bool (b : Bool)
  | number (n : JsonNum)
  /-- NaN and the infinities. -/
  | nonFinite
  | bigint (n : Int)
  /-- A function or a symbol. -/
  | callable
  | string (s : Text)
  /-- An element of an array that was never set. -/
  | hole
  | array (items : List JsValue)
  | object (members : List (Text × JsValue))
  /-- An object that `JSON.stringify` writes by something else than its own members: one with a
      `toJSON` method (a `Date`), or a boxed primitive. -/
  | exotic (members : List (Text × JsValue)) (json : Option Json)

/-- **Induction on a value**, through items and members. -/
theorem JsValue.induct {motive : JsValue → Prop} (undefined : motive .undefined)
    (null : motive .null) (bool : ∀ b, motive (.bool b)) (number : ∀ n, motive (.number n))
    (nonFinite : motive .nonFinite) (bigint : ∀ n, motive (.bigint n))
    (callable : motive .callable) (string : ∀ s, motive (.string s)) (hole : motive .hole)
    (array : ∀ items, (∀ item ∈ items, motive item) → motive (.array items))
    (object : ∀ members, (∀ m ∈ members, motive m.2) → motive (.object members))
    (exotic : ∀ members json, (∀ m ∈ members, motive m.2) → motive (.exotic members json))
    (v : JsValue) : motive v :=
  @JsValue.rec motive (fun items => ∀ item ∈ items, motive item)
    (fun members => ∀ m ∈ members, motive m.2) (fun m => motive m.2) undefined null bool number
    nonFinite bigint callable string hole array object exotic
    nofun
    (fun _ _ hhead hrest => forall_mem_cons.mpr ⟨hhead, hrest⟩)
    nofun
    (fun _ _ hhead hrest => forall_mem_cons.mpr ⟨hhead, hrest⟩)
    (fun _ _ hvalue => hvalue) v

/-- A key or another text of the source. -/
def txt (s : String) : Text := toText s.toList

/-- The message of `JSON.stringify` on a BigInt. -/
def BIGINT_ERROR : String := "Do not know how to serialize a BigInt"

mutual

/-- `canonicalJson`; an error is a throw, and `none` is the `undefined` that `JSON.stringify`
    answers for a function.  The members are rendered before they are sorted. -/
def canonicalJson : JsValue → Except String (Option (List Char))
  | .undefined => .ok (some "null".toList)
  | .null => .ok (some "null".toList)
  | .bool b => .ok (some (Json.bool b).render)
  | .number n => .ok (some n.text)
  | .nonFinite => .ok (some "null".toList)
  | .bigint _ => .error BIGINT_ERROR
  | .callable => .ok none
  | .string s => .ok (some (quote s))
  -- `map` leaves a hole a hole
  | .hole => .ok none
  | .array items => (canonicalItems items).map fun parts =>
      some ('[' :: (joinComma parts ++ [']']))
  | .object members => (canonicalMembers members).map fun parts =>
      some ('{' :: (joinComma ((sortByKey parts).map Prod.snd) ++ ['}']))
  | .exotic members _ => (canonicalMembers members).map fun parts =>
      some ('{' :: (joinComma ((sortByKey parts).map Prod.snd) ++ ['}']))

/-- `join` writes `undefined` and a hole as nothing. -/
def canonicalItems : List JsValue → Except String (List (List Char))
  | [] => .ok []
  | item :: rest => do
    let part ← canonicalJson item
    let parts ← canonicalItems rest
    .ok (part.getD [] :: parts)

/-- `JSON.stringify(key) + ":" + …`, where `+` writes `undefined` out. -/
def canonicalMembers : List (Text × JsValue) → Except String (List (Text × List Char))
  | [] => .ok []
  | (key, value) :: rest => do
    let part ← canonicalJson value
    let parts ← canonicalMembers rest
    .ok ((key, quote key ++ ':' :: part.getD "undefined".toList) :: parts)

end

mutual

/-- What `JSON.stringify` writes of a value; `none` is its `undefined`. -/
def toJson : JsValue → Except String (Option Json)
  | .undefined | .callable | .hole => .ok none
  | .null | .nonFinite => .ok (some .null)
  | .bool b => .ok (some (.bool b))
  | .number n => .ok (some (.number n))
  | .bigint _ => .error BIGINT_ERROR
  | .string s => .ok (some (.string s))
  | .array items => (toJsonItems items).map fun items => some (.array items)
  | .object members => (toJsonMembers members).map fun members => some (.object members)
  | .exotic _ json => .ok json

def toJsonItems : List JsValue → Except String (List Json)
  | [] => .ok []
  | item :: rest => do
    let json ← toJson item
    let jsons ← toJsonItems rest
    .ok (json.getD .null :: jsons)

def toJsonMembers : List (Text × JsValue) → Except String (List (Text × Json))
  | [] => .ok []
  | (key, value) :: rest => do
    let json ← toJson value
    let jsons ← toJsonMembers rest
    match json with
    | some json => .ok ((key, json) :: jsons)
    | none => .ok jsons

end

mutual

def ofJson : Json → JsValue
  | .null => .null
  | .bool b => .bool b
  | .number n => .number n
  | .string s => .string s
  | .array items => .array (ofJsonItems items)
  | .object members => .object (ofJsonMembers members)

def ofJsonItems : List Json → List JsValue
  | [] => []
  | item :: rest => ofJson item :: ofJsonItems rest

def ofJsonMembers : List (Text × Json) → List (Text × JsValue)
  | [] => []
  | (key, value) :: rest => (key, ofJson value) :: ofJsonMembers rest

end

/-- **Canonical JSON of JSON data**: the text with its members sorted. -/
theorem canonicalJson_ofJson (j : Json) : canonicalJson (ofJson j) = .ok (some j.canonical) := by
  induction j using Json.induct with
  | null | bool | number | string => rfl
  | array items ih =>
    have hitems : canonicalItems (ofJsonItems items) = .ok (items.map Json.canonical) := by
      induction items with
      | nil => rfl
      | cons item rest ihrest =>
        rw [ofJsonItems, canonicalItems, ih item mem_cons_self,
          ihrest fun x hx => ih x (mem_cons_of_mem item hx)]
        rfl
    show (canonicalItems (ofJsonItems items)).map _ = _
    rw [hitems, Json.canonical_array]
    rfl
  | object members ih =>
    have hmembers : canonicalMembers (ofJsonMembers members)
        = .ok (members.map fun m => (m.1, Json.renderMember (m.1, m.2.sorted))) := by
      induction members with
      | nil => rfl
      | cons m rest ihrest =>
        rw [ofJsonMembers, canonicalMembers, ih m mem_cons_self,
          ihrest fun x hx => ih x (mem_cons_of_mem m hx)]
        rfl
    show (canonicalMembers (ofJsonMembers members)).map _ = _
    rw [hmembers, Json.canonical_object]
    rfl

/-! ## §2. Entries -/

structure AuditEntry where
  entry_id : Text
  timestamp : JsonNum
  event_type : Text
  actor_id : Text
  data : List (Text × JsValue)
  previous_hash : Text
  hash : Text

def GENESIS_HASH : Text := txt "genesis"

section

variable (sha256 : ByteArray → ByteArray)

def sha256hex (data : List Char) : Text := toText (bytesToHex (sha256 (String.ofList data).toUTF8))

def hashInput (previousHash : Text) (entry : AuditEntry) : JsValue :=
  .object [(txt "previous_hash", .string previousHash), (txt "entry_id", .string entry.entry_id),
    (txt "timestamp", .number entry.timestamp), (txt "event_type", .string entry.event_type),
    (txt "actor_id", .string entry.actor_id), (txt "data", .object entry.data)]

/-- `computeEntryHash`; the input is an object, so its text is never `undefined`. -/
def computeEntryHash (previousHash : Text) (entry : AuditEntry) : Except String Text :=
  (canonicalJson (hashInput previousHash entry)).map fun payload =>
    sha256hex sha256 (payload.getD [])

/-- What `verifyAuditChain` answers. -/
inductive ChainVerdict
  | valid
  | brokenAt (index : Nat)
  deriving DecidableEq

def verifyEntries (index : Nat) (expectedPreviousHash : Text) :
    List AuditEntry → Except String ChainVerdict
  | [] => .ok .valid
  | entry :: rest =>
    if entry.previous_hash ≠ expectedPreviousHash then .ok (.brokenAt index)
    else do
      let computed ← computeEntryHash sha256 entry.previous_hash entry
      if entry.hash ≠ computed then .ok (.brokenAt index)
      else verifyEntries (index + 1) entry.hash rest

/-- `verifyAuditChain`; a partial range trusts the link of its first entry. -/
def verifyAuditChain (store : List AuditEntry) (fromEntry toEntry : Option Nat) :
    Except String ChainVerdict :=
  let startIndex := fromEntry.getD 0
  let entries := (store.take (toEntry.getD store.length)).drop startIndex
  match entries with
  | [] => .ok .valid
  | first :: _ =>
    verifyEntries sha256 startIndex (if startIndex = 0 then GENESIS_HASH else first.previous_hash)
      entries

def getChainHead (store : List AuditEntry) : Text :=
  (store.getLast?.map AuditEntry.hash).getD GENESIS_HASH

/-! ## §3. What the verifier accepts -/

/-- The text an entry's hash is over, when there is one. -/
def payload (entry : AuditEntry) : List Char :=
  match canonicalJson (hashInput entry.previous_hash entry) with
  | .ok text => text.getD []
  | .error _ => []

/-- The hash an entry should carry. -/
def entryDigest (entry : AuditEntry) : Text := sha256hex sha256 (payload entry)

/-- An entry whose data can be hashed at all. -/
def Hashable (entry : AuditEntry) : Prop :=
  ∃ text, canonicalJson (hashInput entry.previous_hash entry) = .ok text

variable {entry : AuditEntry}

theorem computeEntryHash_ok {computed : Text} :
    computeEntryHash sha256 entry.previous_hash entry = .ok computed ↔
      Hashable entry ∧ computed = entryDigest sha256 entry := by
  unfold computeEntryHash Hashable entryDigest payload
  cases canonicalJson (hashInput entry.previous_hash entry) with
  | error => simp [Except.map]
  | ok => simp [Except.map, eq_comm]

/-- **What the loop accepts**: hashable entries, each linked to the one before and carrying its
    own digest. -/
theorem verifyEntries_iff (index : Nat) (expected : Text) (entries : List AuditEntry) :
    verifyEntries sha256 index expected entries = .ok .valid ↔
      HashChain.Chained AuditEntry.previous_hash AuditEntry.hash (entryDigest sha256) expected
          entries ∧ ∀ e ∈ entries, Hashable e := by
  induction entries generalizing index expected with
  | nil => simp [verifyEntries, HashChain.Chained]
  | cons entry rest ih =>
    unfold verifyEntries HashChain.Chained
    by_cases hlink : entry.previous_hash = expected
    · rw [if_neg (not_not_intro hlink)]
      cases hcomputed : computeEntryHash sha256 entry.previous_hash entry with
      | error =>
        have hno : ¬ Hashable entry := by
          intro h
          rw [(computeEntryHash_ok sha256).mpr ⟨h, rfl⟩] at hcomputed
          cases hcomputed
        constructor
        · intro h
          cases h
        · rintro ⟨-, hall⟩
          exact absurd (hall entry mem_cons_self) hno
      | ok =>
        obtain ⟨hhashable, rfl⟩ := (computeEntryHash_ok sha256).mp hcomputed
        show (if entry.hash ≠ entryDigest sha256 entry then _ else _) = _ ↔ _
        by_cases hdigest : entry.hash = entryDigest sha256 entry
        · rw [if_neg (not_not_intro hdigest), ih]
          simp only [forall_mem_cons, hhashable, true_and, hlink, hdigest]
        · rw [if_pos hdigest]
          simp [hdigest]
    · rw [if_pos hlink]
      simp [hlink]

/-- **The verifier accepts exactly the hash chains** from the sentinel. -/
theorem verifyAuditChain_iff (store : List AuditEntry) :
    verifyAuditChain sha256 store (some 0) none = .ok .valid ↔
      HashChain.Chained AuditEntry.previous_hash AuditEntry.hash (entryDigest sha256) GENESIS_HASH
          store ∧ ∀ e ∈ store, Hashable e := by
  rw [← verifyEntries_iff sha256 0]
  unfold verifyAuditChain
  dsimp only [Option.getD_some, Option.getD_none]
  rw [take_length]
  cases store with
  | nil => simp [verifyEntries]
  | cons => rfl

/-- **No digest is the sentinel**, whatever is hashed. -/
theorem sha256hex_ne_genesis (data : List Char) : sha256hex sha256 data ≠ GENESIS_HASH := by
  intro h
  -- the sentinel starts with a letter that is no hexadecimal digit
  have hhead := congrArg List.head? h
  unfold sha256hex bytesToHex at hhead
  cases hbytes : (sha256 (String.ofList data).toUTF8).data.toList with rw [hbytes] at hhead
  | nil =>
    revert hhead
    decide
  | cons b =>
    have hb := b.toNat_lt
    have hfirst : ∀ n < 16, (utf16 (hexChar n)).head? ≠ GENESIS_HASH.head? := by decide
    have hne : ∀ n < 16, utf16 (hexChar n) ≠ [] := by decide
    apply hfirst (b.toNat / 16) (by omega)
    rw [← hhead]
    unfold toText
    rw [flatMap_cons, cons_append, flatMap_cons, head?_append_of_ne_nil _ (hne _ (by omega))]

/-- The data is JSON: nothing in it is undefined, and nothing else JSON does not have. -/
def AuditEntry.JsonData (entry : AuditEntry) (data : Json) : Prop :=
  JsValue.object entry.data = ofJson data

/-- The same entry: JSON data are compared as values. -/
def AuditEntry.Same (a b : AuditEntry) : Prop :=
  a.entry_id = b.entry_id ∧ a.timestamp.unsigned = b.timestamp.unsigned ∧
    a.event_type = b.event_type ∧ a.actor_id = b.actor_id ∧
    a.previous_hash = b.previous_hash ∧ a.hash = b.hash ∧
    ∃ data data' : Json, a.JsonData data ∧ b.JsonData data' ∧ data.Same data'

def hashJson (entry : AuditEntry) (data : Json) : Json :=
  .object [(txt "previous_hash", .string entry.previous_hash),
    (txt "entry_id", .string entry.entry_id), (txt "timestamp", .number entry.timestamp),
    (txt "event_type", .string entry.event_type), (txt "actor_id", .string entry.actor_id),
    (txt "data", data)]

theorem payload_json {data : Json} (h : entry.JsonData data) :
    payload entry = (hashJson entry data).canonical := by
  have hinput : hashInput entry.previous_hash entry = ofJson (hashJson entry data) := by
    unfold hashInput hashJson
    rw [h]
    rfl
  unfold payload
  rw [hinput, canonicalJson_ofJson]
  rfl

theorem sorted_hashJson (entry : AuditEntry) (data : Json) :
    (hashJson entry data).sorted = .object [(txt "actor_id", .string entry.actor_id),
      (txt "data", data.sorted), (txt "entry_id", .string entry.entry_id),
      (txt "event_type", .string entry.event_type),
      (txt "previous_hash", .string entry.previous_hash),
      (txt "timestamp", .number entry.timestamp)] := by
  rfl

theorem same_of_payload {a b : AuditEntry} {data data' : Json} (ha : a.JsonData data)
    (hb : b.JsonData data') (hhash : a.hash = b.hash) (h : payload a = payload b) :
    a.previous_hash = b.previous_hash ∧ a.Same b := by
  rw [payload_json ha, payload_json hb] at h
  have hsame := Json.canonical_inj h
  unfold Json.Same at hsame
  rw [sorted_hashJson, sorted_hashJson] at hsame
  simp only [Json.unsigned, Json.unsignedMembers, Json.object.injEq, List.cons.injEq,
    Prod.mk.injEq, Json.string.injEq, Json.number.injEq, true_and, and_true] at hsame
  obtain ⟨hactor, hdata, hid, htype, hprev, htime⟩ := hsame
  exact ⟨hprev, hid, htime, htype, hactor, hprev, hhash, data, data', ha, hb, hdata⟩

/-- **The head commits to the trail.**  Two lists of entries with JSON data that both verify
    from index 0 and have one chain head are the same list, entry by entry, where SHA-256 does
    not collide on what they hash. -/
theorem head_commits_to_trail (xs ys : List AuditEntry)
    (hcollision : ∀ x ∈ xs, ∀ y ∈ ys,
      sha256 (String.ofList (payload x)).toUTF8 = sha256 (String.ofList (payload y)).toUTF8 →
        (String.ofList (payload x)).toUTF8 = (String.ofList (payload y)).toUTF8)
    (hjson : ∀ e, e ∈ xs ∨ e ∈ ys → ∃ data, e.JsonData data)
    (hxs : verifyAuditChain sha256 xs (some 0) none = .ok .valid)
    (hys : verifyAuditChain sha256 ys (some 0) none = .ok .valid)
    (hhead : getChainHead xs = getChainHead ys) : List.Forall₂ AuditEntry.Same xs ys := by
  apply HashChain.commits ((verifyAuditChain_iff sha256 xs).mp hxs).1
    ((verifyAuditChain_iff sha256 ys).mp hys).1 (fun e => sha256hex_ne_genesis sha256 (payload e))
    _ hhead
  intro x hx y hy hdigest hx' hy'
  obtain ⟨data, hdata⟩ := hjson x (.inl hx)
  obtain ⟨data', hdata'⟩ := hjson y (.inr hy)
  -- equal digests: equal bytes, equal texts, equal entries
  have hbytes := hcollision x hx y hy (bytesToHex_inj hdigest)
  have htext : payload x = payload y := by
    have hstring := String.toByteArray_inj.mp hbytes
    exact String.ofList_injective hstring
  exact same_of_payload hdata hdata' ((hx'.trans hdigest).trans hy'.symm) htext

end

/-- What one entry's hash is over. -/
def oneCallPayload : String :=
  "\x7b\"actor_id\":\"motebit\",\"data\":\x7b\"a\":true,\"b\":null\x7d,\"entry_id\":\"call-1\","
    ++ "\"event_type\":\"tool_call\",\"previous_hash\":\"genesis\",\"timestamp\":0\x7d"

/-- SHA-256 at that payload, and something that does not collide with it elsewhere. -/
def oneCallSha256 (bytes : ByteArray) : ByteArray :=
  if bytes = oneCallPayload.toUTF8 then
    ⟨#[170, 245, 249, 41, 222, 68, 43, 12, 28, 187, 66, 199, 35, 173, 236, 170,
    56, 64, 78, 147, 15, 62, 178, 127, 61, 3, 41, 238, 156, 196, 132, 90]⟩
  else bytes

theorem byteArray_eq_iff (a b : ByteArray) :
    a = b ↔ a.data.toList.map UInt8.toNat = b.data.toList.map UInt8.toNat := by
  rw [(map_injective_iff.mpr fun _ _ => UInt8.toNat_inj.mp).eq_iff, Array.toList_inj]
  exact ByteArray.ext_iff

/-- One call whose data lists its members in the given order. -/
def oneCall (data : List (Text × JsValue)) : AuditEntry where
  entry_id := txt "call-1"
  timestamp := .decimal ⟨['0'], isNumberText_zero⟩
  event_type := txt "tool_call"
  actor_id := txt "motebit"
  data := data
  previous_hash := GENESIS_HASH
  hash := txt "aaf5f929de442b0c1cbb42c723adecaa38404e930f3eb27f3d0329ee9cc4845a"

/-- A trail of one call, its data written in either order. -/
theorem head_commits_to_trail_oneCall : List.Forall₂ AuditEntry.Same
      [oneCall [(txt "b", .null), (txt "a", .bool true)]]
      [oneCall [(txt "a", .bool true), (txt "b", .null)]] := by
  apply head_commits_to_trail oneCallSha256
  · intro x hx y hy _
    obtain rfl := mem_singleton.mp hx
    obtain rfl := mem_singleton.mp hy
    have htext : payload (oneCall [(txt "b", .null), (txt "a", .bool true)])
        = payload (oneCall [(txt "a", .bool true), (txt "b", .null)]) := by decide +kernel
    rw [htext]
  · intro e he
    rcases he with he | he
    · obtain rfl := mem_singleton.mp he
      exact ⟨.object [(txt "b", .null), (txt "a", .bool true)], rfl⟩
    · obtain rfl := mem_singleton.mp he
      exact ⟨.object [(txt "a", .bool true), (txt "b", .null)], rfl⟩
  · unfold oneCallSha256
    simp only [byteArray_eq_iff]
    decide +kernel
  · unfold oneCallSha256
    simp only [byteArray_eq_iff]
    decide +kernel
  · rfl

end Motebit.Audit
