/-
  Motebit.Sync.Envelope — THE E2E ENVELOPE: what may leave through an e2e-only transport.

  Translated from `packages/sync-engine/src/event-payload.ts`.  The classifier looks at the
  object `JSON.parse` keeps; what leaves the device is the text itself.

  Main results: `parseEnvelopeData_encode`, `classify_e2e`, `classify_plaintext`,
  `envelope_exact`.
-/

import Motebit.Audit.Chain
import Motebit.Lib.Base64
import Motebit.Lib.JsonText

namespace Motebit.Sync

open Motebit.Lib Motebit.Lib.JsonText List
open Motebit.Audit (JsValue txt)
open Base64

/-! ## §1. Envelope data -/

structure EncryptedPayload where
  ciphertext : List UInt8
  nonce : List UInt8
  tag : List UInt8

def NONCE_BYTES : Nat := 12

def TAG_BYTES : Nat := 16

structure EnvelopeData where
  ciphertext : List UInt8
  nonce : List UInt8
  tag : List UInt8
  version : Option Nat
  deriving DecidableEq

def b64Bytes : Tree → Option (List UInt8)
  | .string s => if s.length = 0 ∨ Base64.isStrict s = false then none else some (Base64.decode s)
  | _ => none

theorem isNumberText_toDigits (n : Nat) : isNumberText (Nat.toDigits 10 n) = true := by
  have hdigit : ∀ c ∈ Nat.toDigits 10 n, c.isDigit = true := fun c hc =>
    Nat.isDigit_of_mem_toDigits (by norm_num) (by norm_num) hc
  simp only [isNumberText, Bool.and_eq_true, all_eq_true]
  constructor
  · intro c hc
    simp [isNumberChar, hdigit c hc]
  · cases hdigits : Nat.toDigits 10 n with
    | nil => exact absurd hdigits Nat.toDigits_ne_nil
    | cons c =>
      have hc := hdigit c (by rw [hdigits]; exact mem_cons_self)
      simp [hc]

def natNumber (n : Nat) : JsonNum := .decimal ⟨Nat.toDigits 10 n, isNumberText_toDigits n⟩

def encodeEnvelopeData (payload : EncryptedPayload) (version : Nat) : Text :=
  toText (Json.object [(txt "c", .string (Base64.encode payload.ciphertext)),
    (txt "n", .string (Base64.encode payload.nonce)),
    (txt "t", .string (Base64.encode payload.tag)),
    (txt "v", .number (natNumber version))]).render

/-- `typeof v === "number" && Number.isSafeInteger(v) && v > 0`, answering the integer. -/
def safePositive : Tree → Option Nat
  | .number n =>
    if n.value.den = 1 ∧ n.value ≤ 2 ^ 53 - 1 ∧ n.value > 0 then some n.value.num.toNat else none
  | _ => none

/-- The version: absent, or what `v` holds; `none` outside is a refusal. -/
def readVersion (members : List (Text × Tree)) : Option (Option Nat) :=
  match lastMember members (txt "v") with
  | none => some none
  | some v => (safePositive v).map some

def parseEnvelopeData : JsValue → Option EnvelopeData
  | .string data =>
    match parse data with
    | some (.object members) => do
      let hasV := (lastMember members (txt "v")).isSome
      if (ownKeys members).length ≠ if hasV then 4 else 3 then none
      else
        let c ← lastMember members (txt "c")
        let n ← lastMember members (txt "n")
        let t ← lastMember members (txt "t")
        let version ← readVersion members
        let ciphertext ← b64Bytes c
        let nonce ← b64Bytes n
        let tag ← b64Bytes t
        if nonce.length ≠ NONCE_BYTES ∨ tag.length ≠ TAG_BYTES then none
        else some ⟨ciphertext, nonce, tag, version⟩
    | _ => none
  | _ => none

/-! ## §2. Payloads -/

inductive EventPayloadForm
  | e2e
  | plaintext
  | malformed
  deriving DecidableEq

def objectMembers : JsValue → Option (List (Text × JsValue))
  | .object members => some members
  | .exotic members _ => some members
  | _ => none

/-- `p[key]`, where `key in p`. -/
def field (members : List (Text × JsValue)) (key : String) : Option JsValue :=
  (members.find? fun m => m.1 == txt key).map Prod.snd

def classifyEventPayload (payload : JsValue) : EventPayloadForm :=
  match objectMembers payload with
  | none => .malformed
  | some members =>
    match field members "_encrypted" with
    | none => .plaintext
    | some .undefined => .plaintext
    | some (.bool true) =>
      if members.length ≠ 2 then .malformed
      else match field members "_data" with
        | none => .malformed
        | some data => if (parseEnvelopeData data).isSome then .e2e else .malformed
    | some _ => .malformed

def isEncryptedPayload (payload : JsValue) : Bool := classifyEventPayload payload == .e2e

structure EventLogEntry where
  event_id : Text
  motebit_id : Text
  device_id : Option Text
  timestamp : Int
  event_type : Text
  payload : JsValue
  version_clock : Int
  tombstoned : Bool

inductive RelayPayloadMode
  | e2e
  | raw
  deriving DecidableEq

/-- `assertPushable`; an error is the id of the refused event. -/
def assertPushable (mode : RelayPayloadMode) : List EventLogEntry → Except Text Unit
  | [] => .ok ()
  | e :: entries =>
    if mode ≠ .e2e then .ok ()
    else if !isEncryptedPayload e.payload then .error e.event_id
    else assertPushable mode entries

/-- The payload `EncryptedEventStoreAdapter` writes. -/
def envelope (data : Text) : JsValue :=
  .object [(txt "_encrypted", .bool true), (txt "_data", .string data)]

/-! ## §3. What is written reads back -/

theorem txt_c : txt "c" = [99] := by decide

theorem txt_n : txt "n" = [110] := by decide

theorem txt_t : txt "t" = [116] := by decide

theorem txt_v : txt "v" = [118] := by decide

def Strict (u : CodeUnit) : Prop := Base64.isDigit u = true ∨ u = Base64.PAD

variable {u k : CodeUnit} {version : Nat} {d : EnvelopeData}

theorem Strict.range (h : Strict u) : 43 ≤ u.val ∧ u.val ≤ 122 ∧ u.val ≠ 92 := by
  rcases h with h | rfl
  · simp only [Base64.isDigit, Bool.or_eq_true, Bool.and_eq_true, decide_eq_true_eq,
      beq_iff_eq] at h
    omega
  · decide

theorem Strict.plain (h : Strict u) : Plain u := by
  have hrange := h.range
  unfold Plain
  omega

theorem Strict.not_high (h : Strict u) : u.isHigh = false := by
  have hrange := h.range
  simp only [CodeUnit.isHigh, Bool.and_eq_false_iff, decide_eq_false_iff_not]
  omega

theorem Strict.quoteUnit (h : Strict u) : toText (quoteUnit u) = [u] := by
  have hrange := h.range
  have hhigh := h.not_high
  have hlow : u.isLow = false := by
    simp only [CodeUnit.isLow, Bool.and_eq_false_iff, decide_eq_false_iff_not]
    omega
  have hself : Lib.quoteUnit u = [Char.ofNat u.val] := by
    unfold Lib.quoteUnit
    rw [if_neg (by omega), if_neg (by omega), if_neg (by omega), if_neg (by omega),
      if_neg (by omega), if_neg (by omega), if_neg (by omega), if_neg (by simp [hhigh, hlow]; omega)]
  rw [hself]
  show utf16 (Char.ofNat u.val) ++ [] = [u]
  rw [utf16_ofNat hhigh hlow, append_nil]

theorem toText_cons (c : Char) (s : List Char) : toText (c :: s) = utf16 c ++ toText s := rfl

theorem toText_append (a b : List Char) : toText (a ++ b) = toText a ++ toText b := by
  simp [toText]

variable {s : Text}

theorem toText_quoteBody (h : ∀ u ∈ s, Strict u) : toText (quoteBody s) = s := by
  induction s with
  | nil => rfl
  | cons u s ih =>
    have hu := h u (by simp)
    have hrest := ih fun u hu => h u (mem_cons_of_mem _ hu)
    cases s with
    | nil => exact hu.quoteUnit
    | cons =>
      rw [quoteBody, if_neg (by simp [hu.not_high]), toText_append, hu.quoteUnit, hrest]
      rfl

theorem toText_quote (h : ∀ u ∈ s, Strict u) : toText (quote s) = 34 :: (s ++ [34]) := by
  show utf16 '"' ++ toText (quoteBody s ++ ['"']) = _
  rw [toText_append, toText_quoteBody h]
  rfl

/-- The envelope's text, written out. -/
def wireText (c n t v : Text) : Text :=
  123 :: 34 :: 99 :: 34 :: 58 :: 34 :: (c ++ 34 :: 44 :: 34 :: 110 :: 34 :: 58 :: 34 ::
    (n ++ 34 :: 44 :: 34 :: 116 :: 34 :: 58 :: 34 :: (t ++ 34 :: 44 :: 34 :: 118 :: 34 :: 58 ::
      (v ++ [125]))))

theorem strict_encode (bytes : List UInt8) : ∀ u ∈ encode bytes, Strict u :=
  isStrict.plain (isStrict_encode bytes)

theorem toText_name (h : Strict k) : toText (quote [k]) = [34, k, 34] :=
  toText_quote fun u hu => by rwa [mem_singleton.mp hu]

theorem encodeEnvelopeData_eq (payload : EncryptedPayload) (version : Nat) :
    encodeEnvelopeData payload version = wireText (encode payload.ciphertext)
      (encode payload.nonce) (encode payload.tag) (natText version) := by
  have hversion : toText (natNumber version).text = natText version := by
    rw [natText, Nat.toList_repr]
    rfl
  have hc : toText (quote [99]) = [34, 99, 34] := toText_name (Or.inl (by decide))
  have hn : toText (quote [110]) = [34, 110, 34] := toText_name (Or.inl (by decide))
  have ht : toText (quote [116]) = [34, 116, 34] := toText_name (Or.inl (by decide))
  have hv : toText (quote [118]) = [34, 118, 34] := toText_name (Or.inl (by decide))
  unfold encodeEnvelopeData wireText
  rw [txt_c, txt_n, txt_t, txt_v]
  simp only [Json.render, Json.renderMembers, joinComma, toText_cons, toText_append, hc, hn, ht,
    hv, toText_quote (strict_encode _), hversion]
  simp only [show utf16 '{' = [123] by decide, show utf16 '}' = [125] by decide,
    show utf16 ':' = [58] by decide, show utf16 ',' = [44] by decide, cons_append,
    nil_append, append_assoc]
  rfl

/-! ## §4. Reading the text -/

def versionLiteral (version : Nat) : NumberLiteral :=
  ⟨false, (Nat.digits 10 version).reverse, [], 0⟩

theorem plain_name (h : Strict k) : ∀ u ∈ [k], Plain u := fun u hu => by
  rw [mem_singleton.mp hu]
  exact h.plain

theorem parseMember_string (fuel : Nat) (hk : Strict k) (hs : ∀ u ∈ s, Strict u) (rest : Text) :
    parseMember (parseValue (fuel + 1)) (34 :: k :: 34 :: 58 :: 34 :: (s ++ 34 :: rest)) =
      some (([k], .string s), rest) := by
  have hmember := parseMember_plain (parseValue (fuel + 1)) (plain_name hk) (34 :: (s ++ 34 :: rest))
  rwa [parseValue_plain fuel fun u hu => (hs u hu).plain] at hmember

theorem parseMember_version (fuel : Nat) (h : 0 < version) :
    parseMember (parseValue (fuel + 1)) (34 :: 118 :: 34 :: 58 :: (natText version ++ [125])) =
      some (([118], .number (versionLiteral version)), [125]) := by
  have hv : Strict 118 := .inl (by decide)
  have hmember := parseMember_plain (parseValue (fuel + 1)) (plain_name hv) (natText version ++ [125])
  rwa [parseValue_natText fuel h [] (by decide) (by decide) (by decide)] at hmember

theorem parseElements_more {α : Type} {element : Text → Option (α × Text)} {close : Nat}
    (hclose : close ≠ 44) {text rest : Text} {x : α} (h : element text = some (x, 44 :: rest))
    (fuel : Nat) : parseElements element close (fuel + 1) text =
      (parseElements element close fuel rest).map (Prod.map (x :: ·) id) := by
  rw [parseElements, h]
  dsimp only
  rw [skip_cons (by decide)]
  dsimp only
  rw [if_neg (fun heq => hclose heq.symm), if_pos (by decide)]

/-- **The tree of the envelope's text.** -/
theorem parse_wireText {c n t : Text} (hc : ∀ u ∈ c, Strict u) (hn : ∀ u ∈ n, Strict u)
    (ht : ∀ u ∈ t, Strict u) (h : 0 < version) :
    parse (wireText c n t (natText version)) = some (.object [([99], .string c),
      ([110], .string n), ([116], .string t), ([118], .number (versionLiteral version))]) := by
  obtain ⟨k, hk⟩ : ∃ k, (wireText c n t (natText version)).length = k + 4 :=
    ⟨(wireText c n t (natText version)).length - 4, by
      have hlong : 4 ≤ (wireText c n t (natText version)).length := by
        simp only [wireText, length_cons]
        omega
      omega⟩
  have hmembers : parseElements (parseMember (parseValue (k + 4))) 125 (k + 4)
      (wireText c n t (natText version)).tail = some ([([99], .string c), ([110], .string n),
        ([116], .string t), ([118], .number (versionLiteral version))], []) := by
    show parseElements _ 125 (k + 3 + 1) (34 :: 99 :: _) = _
    rw [parseElements_more (by decide) (parseMember_string (k + 3) (Or.inl (by decide)) hc _),
      parseElements_more (by decide) (parseMember_string (k + 3) (Or.inl (by decide)) hn _),
      parseElements_more (by decide) (parseMember_string (k + 3) (Or.inl (by decide)) ht _),
      parseElements, parseMember_version (k + 3) h]
    rfl
  have hvalue : parseValue (k + 5) (wireText c n t (natText version)) =
      some (.object [([99], .string c), ([110], .string n), ([116], .string t),
        ([118], .number (versionLiteral version))], []) := by
    show parseValue (k + 4 + 1) (123 :: (wireText c n t (natText version)).tail) = _
    rw [parseValue, skip_cons (by decide)]
    dsimp only
    rw [if_neg (by decide), if_neg (by decide), if_pos (by decide), parseBracketed]
    obtain ⟨rest, hrest⟩ : ∃ rest, (wireText c n t (natText version)).tail = 34 :: rest := ⟨_, rfl⟩
    rw [hrest] at hmembers ⊢
    rw [skip_cons (by decide)]
    dsimp only
    rw [if_neg (by decide), hmembers]
    rfl
  unfold parse
  rw [hk, hvalue]
  rfl

variable {bytes : List UInt8}

theorem b64Bytes_encode (h : bytes ≠ []) : b64Bytes (.string (encode bytes)) = some bytes := by
  have hne : ¬ ((encode bytes).length = 0 ∨ isStrict (encode bytes) = false) := by
    rw [isStrict_encode]
    simpa using encode_ne_nil h
  rw [b64Bytes, if_neg hne, decode_encode]

theorem safePositive_version (h0 : 0 < version) (h : version ≤ 2 ^ 53 - 1) :
    safePositive (.number (versionLiteral version)) = some version := by
  have hvalue : (versionLiteral version).value = version := value_natText (by omega)
  have hle : (version : ℚ) ≤ 2 ^ 53 - 1 := by
    have hcast : (version : ℚ) ≤ ((2 ^ 53 - 1 : Nat) : ℚ) := by exact_mod_cast h
    norm_num at hcast ⊢
    exact hcast
  have hpos : (0 : ℚ) < version := by exact_mod_cast h0
  rw [safePositive, hvalue, if_pos ⟨Rat.den_natCast version, hle, hpos⟩]
  simp

/-- **What is written reads back.** -/
theorem parseEnvelopeData_encode {payload : EncryptedPayload} (hcipher : payload.ciphertext ≠ [])
    (hnonce : payload.nonce.length = NONCE_BYTES) (htag : payload.tag.length = TAG_BYTES)
    (h0 : 0 < version) (h : version ≤ 2 ^ 53 - 1) :
    parseEnvelopeData (.string (encodeEnvelopeData payload version)) =
      some ⟨payload.ciphertext, payload.nonce, payload.tag, some version⟩ := by
  have hnonce' : payload.nonce ≠ [] := by
    rintro heq
    simp [heq, NONCE_BYTES] at hnonce
  have htag' : payload.tag ≠ [] := by
    rintro heq
    simp [heq, TAG_BYTES] at htag
  rw [encodeEnvelopeData_eq, parseEnvelopeData,
    parse_wireText (strict_encode _) (strict_encode _) (strict_encode _) h0]
  simp [lastMember, ownKeys, readVersion, txt_c, txt_n, txt_t, txt_v, b64Bytes_encode hcipher,
    b64Bytes_encode hnonce', b64Bytes_encode htag', safePositive_version h0 h, hnonce, htag]

/-! ## §5. The three forms -/

/-- The members of the E2E envelope. -/
structure IsEnvelope (payload : JsValue) (data : Text) (d : EnvelopeData) : Prop where
  isObject : ∃ members, objectMembers payload = some members ∧ members.length = 2 ∧
    field members "_encrypted" = some (.bool true) ∧ field members "_data" = some (.string data)
  parsed : parseEnvelopeData (.string data) = some d

/-- Without the marker. -/
def Unmarked (payload : JsValue) : Prop := ∃ members, objectMembers payload = some members ∧
  (field members "_encrypted" = none ∨ field members "_encrypted" = some .undefined)

theorem string_of_parsed {v : JsValue} (h : (parseEnvelopeData v).isSome = true) :
    ∃ data, v = .string data := by
  cases v with
  | string data => exact ⟨data, rfl⟩
  | _ => cases h

/-- **What classifies as e2e is exactly the envelope.** -/
theorem classify_e2e (payload : JsValue) :
    classifyEventPayload payload = .e2e ↔ ∃ data d, IsEnvelope payload data d := by
  unfold classifyEventPayload
  constructor
  · intro h
    split at h
    · cases h
    next members hmembers =>
    split at h
    · cases h
    · cases h
    · rename_i hmarker
      split_ifs at h with hlength
      split at h
      · cases h
      next data hdata =>
      split_ifs at h with hparsed
      obtain ⟨text, rfl⟩ := string_of_parsed hparsed
      obtain ⟨d, hd⟩ := Option.isSome_iff_exists.mp hparsed
      exact ⟨text, d, ⟨members, hmembers, not_not.mp hlength, hmarker, hdata⟩, hd⟩
    · cases h
  · rintro ⟨data, d, ⟨members, hmembers, hlength, hmarker, hdata⟩, hd⟩
    simp [hmembers, hmarker, hlength, hdata, hd]

/-- **What classifies as plaintext is exactly an object without the marker.** -/
theorem classify_plaintext (payload : JsValue) :
    classifyEventPayload payload = .plaintext ↔ Unmarked payload := by
  unfold classifyEventPayload Unmarked
  constructor
  · intro h
    split at h
    · cases h
    next members hmembers =>
    split at h
    · rename_i hmarker
      exact ⟨members, hmembers, Or.inl hmarker⟩
    · rename_i hmarker
      exact ⟨members, hmembers, Or.inr hmarker⟩
    · split_ifs at h
      split at h
      · cases h
      · split_ifs at h
    · cases h
  · rintro ⟨members, hmembers, hmarker | hmarker⟩ <;> simp [hmembers, hmarker]

variable {data : Text}

theorem not_envelope_of_unmarked {payload : JsValue} (h : IsEnvelope payload data d) :
    ¬ Unmarked payload := by
  rw [← classify_plaintext, (classify_e2e payload).mpr ⟨data, d, h⟩]
  decide

/-- **Everything else is malformed.** -/
theorem classify_malformed (payload : JsValue) : classifyEventPayload payload = .malformed ↔
    (¬ ∃ data d, IsEnvelope payload data d) ∧ ¬ Unmarked payload := by
  rw [← classify_e2e, ← classify_plaintext]
  cases classifyEventPayload payload <;> simp

theorem classify_envelope (h : parseEnvelopeData (.string data) = some d) :
    classifyEventPayload (envelope data) = .e2e := by
  rw [classify_e2e]
  refine ⟨data, d, ⟨_, rfl, rfl, rfl, ?_⟩, h⟩
  have hne : txt "_encrypted" ≠ txt "_data" := by decide
  simp [field, hne]

/-! ## §6. What rides along -/

theorem textsOfMembers_eq (members : List (Text × Tree)) :
    textsOfMembers members = members.flatMap fun m => m.2.texts := by
  induction members with
  | nil => rfl
  | cons m rest ih => rw [textsOfMembers, ih, flatMap_cons]

theorem namesOfMembers_eq (members : List (Text × Tree)) :
    namesOfMembers members = members.flatMap fun m => m.1 :: m.2.names := by
  induction members with
  | nil => rfl
  | cons m rest ih =>
    rw [namesOfMembers, ih, flatMap_cons]
    rfl

theorem sublist_names (members : List (Text × Tree)) :
    (members.map Prod.fst).Sublist (Tree.object members).names := by
  show (members.map Prod.fst).Sublist (namesOfMembers members)
  induction members with
  | nil => exact List.Sublist.refl _
  | cons m rest ih =>
    rw [namesOfMembers, map_cons]
    exact (ih.trans (sublist_append_right _ _)).cons_cons _

variable {members : List (Text × Tree)}

theorem mem_of_lastMember {name : Text} {v : Tree}
    (h : lastMember members name = some v) : (name, v) ∈ members := by
  obtain ⟨m, hm, rfl⟩ := Option.map_eq_some_iff.mp h
  have hname : m.1 = name := by simpa using find?_some hm
  rw [← hname]
  exact mem_reverse.mp (mem_of_find?_eq_some hm)

theorem b64Bytes_eq_some {v : Tree} (h : b64Bytes v = some bytes) :
    ∃ s, v = .string s ∧ isStrict s = true ∧ decode s = bytes := by
  cases v with
  | string s =>
    rw [b64Bytes] at h
    split_ifs at h with hbad
    have hstrict : isStrict s = true := by
      simpa using (not_or.mp hbad).2
    exact ⟨s, rfl, hstrict, Option.some.inj h⟩
  | _ => cases h

structure Accepted (data : Text) (d : EnvelopeData) (members : List (Text × Tree))
    (c n t : Text) : Prop where
  parsed : parse data = some (.object members)
  keys : (ownKeys members).length = if (lastMember members (txt "v")).isSome then 4 else 3
  atC : lastMember members (txt "c") = some (.string c)
  atN : lastMember members (txt "n") = some (.string n)
  atT : lastMember members (txt "t") = some (.string t)
  atV : lastMember members (txt "v") = none ∧ d.version = none ∨
    ∃ v, lastMember members (txt "v") = some (.number v) ∧ d.version.isSome = true
  strict : Base64.isStrict c = true ∧ Base64.isStrict n = true ∧ Base64.isStrict t = true
  decoded : Base64.decode c = d.ciphertext ∧ Base64.decode n = d.nonce ∧ Base64.decode t = d.tag

theorem readVersion_eq_some {version : Option Nat} (h : readVersion members = some version) :
    lastMember members (txt "v") = none ∧ version = none ∨
      ∃ v, lastMember members (txt "v") = some (.number v) ∧ version.isSome = true := by
  unfold readVersion at h
  split at h
  · rename_i hnone
    exact .inl ⟨hnone, (Option.some.inj h).symm⟩
  · rename_i v hv
    obtain ⟨k, hk, rfl⟩ := Option.map_eq_some_iff.mp h
    right
    cases v with
    | number lit => exact ⟨lit, hv, rfl⟩
    | _ => cases hk

theorem accepted_of_parsed {d : EnvelopeData}
    (h : parseEnvelopeData (.string data) = some d) : ∃ members c n t, Accepted data d members c n t := by
  rw [parseEnvelopeData] at h
  split at h
  · rename_i members hparse
    have hkeys : (ownKeys members).length =
        if (lastMember members (txt "v")).isSome then 4 else 3 := by
      by_contra hne
      rw [if_pos hne] at h
      cases h
    rw [if_neg (not_not.mpr hkeys)] at h
    simp only [Option.bind_eq_bind, Option.bind_eq_some_iff] at h
    obtain ⟨vc, hc, vn, hn, vt, ht, version, hversion, ciphertext, hcipher, nonce, hnonce, tag,
      htag, h⟩ := h
    split_ifs at h
    cases h
    obtain ⟨c, rfl, hc', hdc⟩ := b64Bytes_eq_some hcipher
    obtain ⟨n, rfl, hn', hdn⟩ := b64Bytes_eq_some hnonce
    obtain ⟨t, rfl, ht', hdt⟩ := b64Bytes_eq_some htag
    exact ⟨members, c, n, t, hparse, hkeys, hc, hn, ht, readVersion_eq_some hversion,
      ⟨hc', hn', ht'⟩, ⟨hdc, hdn, hdt⟩⟩
  · cases h

def envelopeNames (d : EnvelopeData) : List Text :=
  [txt "c", txt "n", txt "t"] ++ (d.version.map fun _ => txt "v").toList

/-- The text is one object whose strings, at every depth, are the strict base64 the envelope
    decodes to, each once. -/
def HoldsOnly (data : Text) (d : EnvelopeData) : Prop :=
  ∃ members c n t, parse data = some (.object members) ∧
    (Base64.isStrict c = true ∧ Base64.isStrict n = true ∧ Base64.isStrict t = true) ∧
    (Base64.decode c = d.ciphertext ∧ Base64.decode n = d.nonce ∧ Base64.decode t = d.tag) ∧
    (Tree.object members).texts.Perm [c, n, t] ∧
    (Tree.object members).names.Perm (envelopeNames d)

/-- The object of the text repeats no member name. -/
def RepeatsNone (data : Text) : Prop :=
  ∀ members, parse data = some (.object members) → (members.map Prod.fst).Nodup

theorem nodup_envelopeNames (d : EnvelopeData) : (envelopeNames d).Nodup := by
  unfold envelopeNames
  cases d.version <;> simp [txt_c, txt_n, txt_t, txt_v]

/-- The three members every envelope has. -/
def strings (c n t : Text) : List (Text × Tree) :=
  [(txt "c", .string c), (txt "n", .string n), (txt "t", .string t)]

theorem Accepted.perm {c n t : Text}
    (h : Accepted data d members c n t) (hnodup : (members.map Prod.fst).Nodup) :
    ∃ rest, (strings c n t ++ rest).Perm members ∧
      rest.map Prod.fst = (d.version.map fun _ => txt "v").toList ∧
      ∀ m ∈ rest, ∃ v, m.2 = .number v := by
  have hlength : members.length = (ownKeys members).length := by
    unfold ownKeys
    rw [hnodup.dedup, length_map]
  have hsub : ∀ rest : List (Text × Tree), ((strings c n t ++ rest).map Prod.fst).Nodup →
      (∀ m ∈ rest, m ∈ members) → members.length = 3 + rest.length →
      (strings c n t ++ rest).Perm members := by
    intro rest hrest hmem hlen
    apply List.Subperm.perm_of_length_le
    · apply subperm_of_subset (List.Nodup.of_map _ hrest)
      intro m hm
      simp only [strings, mem_append, mem_cons, not_mem_nil, or_false] at hm
      rcases hm with (rfl | rfl | rfl) | hm
      · exact mem_of_lastMember h.atC
      · exact mem_of_lastMember h.atN
      · exact mem_of_lastMember h.atT
      · exact hmem m hm
    · simp only [strings, length_append, length_cons, length_nil]
      omega
  rcases h.atV with ⟨hnone, hversion⟩ | ⟨v, hv, hversion⟩
  · refine ⟨[], hsub [] ?_ (by simp) ?_, by simp [hversion], by simp⟩
    · simp [strings, txt_c, txt_n, txt_t]
    · rw [hlength, h.keys, hnone]
      rfl
  · obtain ⟨k, hk⟩ := Option.isSome_iff_exists.mp hversion
    refine ⟨[(txt "v", .number v)], hsub _ ?_ ?_ ?_, by simp [hk], by simp⟩
    · simp [strings, txt_c, txt_n, txt_t, txt_v]
    · intro m hm
      rw [mem_singleton.mp hm]
      exact mem_of_lastMember hv
    · rw [hlength, h.keys, hv]
      rfl

/-- **An accepted text holds nothing else exactly where it repeats no member name.** -/
theorem holdsOnly_iff (h : parseEnvelopeData (.string data) = some d) :
    HoldsOnly data d ↔ RepeatsNone data := by
  constructor
  · rintro ⟨members, c, n, t, hparse, -, -, -, hnames⟩ members' hparse'
    rw [hparse] at hparse'
    obtain rfl : members = members' := by
      simpa using hparse'
    have hnodup : (Tree.object members).names.Nodup :=
      hnames.nodup_iff.mpr (nodup_envelopeNames d)
    exact hnodup.sublist (sublist_names members)
  · intro hnone
    obtain ⟨members, c, n, t, ha⟩ := accepted_of_parsed h
    obtain ⟨rest, hperm, hnames, hnumbers⟩ := ha.perm (hnone members ha.parsed)
    refine ⟨members, c, n, t, ha.parsed, ha.strict, ha.decoded, ?_, ?_⟩
    · have htexts : ∀ m ∈ rest, m.2.texts = [] := by
        intro m hm
        obtain ⟨v, hv⟩ := hnumbers m hm
        rw [hv]
        rfl
      show (textsOfMembers members).Perm _
      rw [textsOfMembers_eq]
      refine (hperm.symm.flatMap_right _).trans ?_
      rw [flatMap_append, flatMap_eq_nil_iff.mpr htexts]
      exact List.Perm.refl _
    · have hinner : rest.flatMap (fun m => m.1 :: m.2.names) = rest.map Prod.fst := by
        rw [map_eq_flatMap]
        apply flatMap_congr
        intro m hm
        obtain ⟨v, hv⟩ := hnumbers m hm
        rw [hv]
        rfl
      show (namesOfMembers members).Perm _
      rw [namesOfMembers_eq]
      refine (hperm.symm.flatMap_right _).trans ?_
      rw [flatMap_append, hinner, hnames]
      exact List.Perm.refl _

/-- **The codec**: what is written reads back and is the envelope; the three forms exclude each
    other and leave nothing out; and the text of an accepted envelope holds its three strings
    and nothing else exactly where it repeats no member name. -/
theorem envelope_exact (p : EncryptedPayload) (version : Nat) (payload : JsValue) :
    (p.ciphertext ≠ [] → p.nonce.length = NONCE_BYTES → p.tag.length = TAG_BYTES → 0 < version →
      version ≤ 2 ^ 53 - 1 →
      parseEnvelopeData (.string (encodeEnvelopeData p version)) =
          some ⟨p.ciphertext, p.nonce, p.tag, some version⟩ ∧
        classifyEventPayload (envelope (encodeEnvelopeData p version)) = .e2e) ∧
    ((classifyEventPayload payload = .e2e ↔ ∃ data d, IsEnvelope payload data d) ∧
      (classifyEventPayload payload = .plaintext ↔ Unmarked payload) ∧
      (classifyEventPayload payload = .malformed ↔
        (¬ ∃ data d, IsEnvelope payload data d) ∧ ¬ Unmarked payload) ∧
      ¬ ((∃ data d, IsEnvelope payload data d) ∧ Unmarked payload)) ∧
    (classifyEventPayload payload = .e2e →
      ∃ data d, IsEnvelope payload data d ∧ (HoldsOnly data d ↔ RepeatsNone data)) := by
  refine ⟨?_, ?_, ?_⟩
  · intro hcipher hnonce htag h0 h
    have hparse := parseEnvelopeData_encode hcipher hnonce htag h0 h
    exact ⟨hparse, classify_envelope hparse⟩
  · refine ⟨classify_e2e payload, classify_plaintext payload, classify_malformed payload, ?_⟩
    rintro ⟨⟨data, d, henvelope⟩, hunmarked⟩
    exact not_envelope_of_unmarked henvelope hunmarked
  · intro he2e
    obtain ⟨data, d, henvelope⟩ := (classify_e2e payload).mp he2e
    exact ⟨data, d, henvelope, holdsOnly_iff henvelope.parsed⟩

def sample : EncryptedPayload := ⟨[7], List.replicate 12 0, List.replicate 16 0⟩

theorem envelope_exact_sample : parseEnvelopeData (.string (encodeEnvelopeData sample 3)) =
        some ⟨sample.ciphertext, sample.nonce, sample.tag, some 3⟩ ∧
      ∃ data d, IsEnvelope (envelope (encodeEnvelopeData sample 3)) data d ∧
        (HoldsOnly data d ↔ RepeatsNone data) :=
  have hexact := envelope_exact sample 3 (envelope (encodeEnvelopeData sample 3))
  have hwritten := hexact.1 (by decide) (by decide) (by decide) (by decide) (by decide)
  ⟨hwritten.1, hexact.2.2 hwritten.2⟩

/-- An envelope whose `c` stands twice. -/
def repeated : Text :=
  txt "\x7b\"c\":\"my secret\",\"c\":\"Bw==\",\"n\":\"AAAAAAAAAAAAAAAA\",\"t\":\"AAAAAAAAAAAAAAAAAAAAAA==\"\x7d"

/-- It passes an e2e-only transport with text aboard. -/
theorem envelope_smuggles :
    classifyEventPayload (envelope repeated) = .e2e ∧
    (∃ members, parse repeated = some (.object members) ∧
      txt "my secret" ∈ (Tree.object members).texts) ∧
    ∀ d, IsEnvelope (envelope repeated) repeated d → ¬ HoldsOnly repeated d := by
  have htexts : (parse repeated).map Tree.texts = some [txt "my secret", txt "Bw==",
      txt "AAAAAAAAAAAAAAAA", txt "AAAAAAAAAAAAAAAAAAAAAA=="] := by
    decide +kernel
  refine ⟨by decide +kernel, ?_, ?_⟩
  · obtain ⟨members, c, n, t, hparse, -⟩ := @accepted_of_parsed repeated
      ⟨[7], List.replicate 12 0, List.replicate 16 0, none⟩ (by decide +kernel)
    rw [hparse] at htexts
    refine ⟨members, hparse, ?_⟩
    rw [Option.some.inj htexts]
    exact mem_cons_self
  · rintro d - ⟨members, c, n, t, hparse, -, -, hperm, -⟩
    rw [hparse] at htexts
    rw [Option.some.inj htexts] at hperm
    simpa using hperm.length_eq

end Motebit.Sync
