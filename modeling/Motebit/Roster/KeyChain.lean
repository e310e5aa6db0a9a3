/-
  Motebit.Roster.KeyChain — THE KEY CHAIN a roster is reduced under.

  Translated from `packages/crypto/src/roster-key-chain.ts` (`resolveRosterKeyChain`), with
  `verifyKeySuccession` (`artifacts.ts`) and `verifySovereignBinding` (`index.ts`) as it calls
  them.  Loops take fuel, and `none` is a loop that runs out of it or a read of what is not
  there.  The walk is written over any way of reading links, so that one text is the code with
  its memo of verdicts and the same without.
-/

import Motebit.Audit.Chain
import Motebit.Lib.Best
import Motebit.Lib.HexText
import Motebit.Lib.Memo
import Motebit.Roster.Model

namespace Motebit.Roster

open Motebit.Lib
open Motebit.Audit (JsValue)

/-! ## §1. Records -/

def KEY_SUCCESSION_SUITE : Text := txt "motebit-jcs-ed25519-hex-v1"

def isHexSig (s : Text) : Bool := s.length == 128 && s.all isLowerHexUnit

def isSafeInteger : JsonNum → Bool
  | .negZero => false
  | .decimal text =>
    let digits := match text.val with
      | '-' :: digits => digits
      | digits => digits
    !digits.isEmpty && digits.all Char.isDigit && decide (digitsValue digits ≤ 2 ^ 53 - 1)

/-- Who signs beside the new key: the old one, or on a recovery the guardian. -/
inductive Authority
  | old_key_signature (signature : Text)
  | guardian_signature (signature : Text)
  deriving DecidableEq

structure KeySuccessionRecord where
  old_public_key : Text
  new_public_key : Text
  timestamp : JsonNum
  reason : Option Text
  new_key_signature : Text
  authority : Authority
  old_hex : isHex32 old_public_key = true
  new_hex : isHex32 new_public_key = true
  safe : isSafeInteger timestamp = true
  deriving DecidableEq

namespace KeySuccessionRecord

variable (r : KeySuccessionRecord)

def recovery : Bool :=
  match r.authority with
  | .old_key_signature _ => false
  | .guardian_signature _ => true

/-- `reason`, where there is one. -/
def reasonMember : List (Text × Json) :=
  (r.reason.map fun reason => (txt "reason", Json.string reason)).toList

/-- The value the signatures cover, of `keySuccessionPayload`. -/
def payload : Json :=
  .object ([(txt "old_public_key", .string r.old_public_key),
      (txt "new_public_key", .string r.new_public_key), (txt "timestamp", .number r.timestamp),
      (txt "suite", .string KEY_SUCCESSION_SUITE)]
    ++ r.reasonMember ++ if r.recovery then [(txt "recovery", .bool true)] else [])

def toJson : Json :=
  .object ([(txt "old_public_key", .string r.old_public_key),
      (txt "new_public_key", .string r.new_public_key), (txt "timestamp", .number r.timestamp)]
    ++ r.reasonMember ++ [(txt "suite", .string KEY_SUCCESSION_SUITE)]
    ++ match r.authority with
      | .old_key_signature signature =>
        [(txt "old_key_signature", .string signature),
          (txt "new_key_signature", .string r.new_key_signature)]
      | .guardian_signature signature =>
        [(txt "new_key_signature", .string r.new_key_signature), (txt "recovery", .bool true),
          (txt "guardian_signature", .string signature)])

/-- `canonical`, the text a candidate is told apart by. -/
def canonical : Text := toText r.toJson.canonical

end KeySuccessionRecord

def field (members : List (Text × JsValue)) (key : String) : JsValue :=
  ((members.find? fun m => m.1 == txt key).map Prod.snd).getD .undefined

def recordMembers : JsValue → Option (List (Text × JsValue))
  | .object members => some members
  | .exotic members _ => some members
  | _ => none

def stringField (members : List (Text × JsValue)) (key : String) : Option Text :=
  match field members key with
  | .string s => some s
  | _ => none

def numberField (members : List (Text × JsValue)) (key : String) : Option JsonNum :=
  match field members key with
  | .number n => some n
  | _ => none

def reasonField (members : List (Text × JsValue)) : Option (Option Text) :=
  match field members "reason" with
  | .undefined => some none
  | .string s => some (some s)
  | _ => none

def recoveryField (members : List (Text × JsValue)) : Option Bool :=
  match field members "recovery" with
  | .undefined => some false
  | .bool b => some b
  | _ => none

def normalize (value : JsValue) : Option KeySuccessionRecord := do
  let v ← recordMembers value
  let suite ← stringField v "suite"
  let old_public_key ← stringField v "old_public_key"
  let new_public_key ← stringField v "new_public_key"
  let timestamp ← numberField v "timestamp"
  let new_key_signature ← stringField v "new_key_signature"
  let reason ← reasonField v
  let recovery ← recoveryField v
  let sigField ← stringField v (if recovery then "guardian_signature" else "old_key_signature")
  if hfields : isHex32 old_public_key = true ∧ isHex32 new_public_key = true ∧
      isSafeInteger timestamp = true then
    if suite = KEY_SUCCESSION_SUITE ∧ isHexSig new_key_signature ∧ isHexSig sigField then
      some ⟨old_public_key, new_public_key, timestamp, reason, new_key_signature,
        if recovery then .guardian_signature sigField else .old_key_signature sigField,
        hfields.1, hfields.2.1, hfields.2.2⟩
    else none
  else none

/-! ## §2. Signatures and ids -/

/-- The code outside the repository: SHA-256, and the Ed25519 check of the succession suite over
    a message, a signature and a key, a throw of which is a `false`. -/
structure ChainCrypto extends Crypto where
  verifyBySuite : ByteArray → ByteArray → ByteArray → Bool

def newKeySigned (c : ChainCrypto) (r : KeySuccessionRecord) : Bool :=
  c.verifyBySuite (utf8 r.payload.canonical) (fromHex r.new_key_signature)
    (fromHex r.new_public_key)

def verifyKeySuccession (c : ChainCrypto) (r : KeySuccessionRecord)
    (guardianPublicKeyHex : Option Text) : Bool :=
  newKeySigned c r &&
    match r.authority with
    | .guardian_signature signature =>
      match guardianPublicKeyHex with
      | none => false
      | some guardian => signature ≠ [] && guardian ≠ [] &&
          c.verifyBySuite (utf8 r.payload.canonical) (fromHex signature) (fromHex guardian)
    | .old_key_signature signature => signature ≠ [] &&
        c.verifyBySuite (utf8 r.payload.canonical) (fromHex signature) (fromHex r.old_public_key)

/-- `didKeyToPublicKey`'s alphabet. -/
def BASE58_ALPHABET : Text := txt "123456789ABCDEFGHJKLMNPQRSTUVWXYZabcdefghijkmnopqrstuvwxyz"

/-- The bytes of a number, most significant first. -/
def bytesOfNat : Nat → Nat → List UInt8
  | 0, _ => []
  | fuel + 1, value =>
    if value = 0 then [] else bytesOfNat fuel (value / 256) ++ [UInt8.ofNat (value % 256)]

/-- `base58btcDecode`; `none` is a throw. -/
def base58btcDecode (str : Text) : Option (List UInt8) := do
  let digits ← str.mapM fun u =>
    if u ∈ BASE58_ALPHABET then some (BASE58_ALPHABET.idxOf u) else none
  let value := digits.foldl (fun value idx => value * 58 + idx) 0
  some (List.replicate (digits.takeWhile (· == 0)).length 0 ++ bytesOfNat digits.length value)

def DID_KEY : Text := txt "did:key:"

def didKeyToPublicKey (did : Text) : Option (List UInt8) := do
  if (txt "did:key:z").isPrefixOf did then
    let decoded ← base58btcDecode (did.drop 9)
    if decoded.length = 34 ∧ decoded.take 2 = [0xed, 0x01] then some (decoded.drop 2) else none
  else none

def deriveSovereignMotebitId (c : Crypto) (genesisPublicKeyHex : Text) : Text :=
  let h := (c.sha256 (fromHex genesisPublicKeyHex)).data.toList.take 16
  let b := (h.modify 6 fun x => 0x80 ||| (x &&& 0x0f)).modify 8 fun x => 0x80 ||| (x &&& 0x3f)
  let hex := toHex b.toByteArray
  let slice (a b : Nat) := (hex.drop a).take (b - a)
  slice 0 8 ++ txt "-" ++ slice 8 12 ++ txt "-" ++ slice 12 16 ++ txt "-" ++ slice 16 20 ++
    txt "-" ++ slice 20 32

/-- `toLowerCase`, of the hexadecimal ids it is asked for. -/
def toLowerCase (s : Text) : Text :=
  s.map fun u => if 65 ≤ u.val ∧ u.val ≤ 90 then u + 32 else u

def verifySovereignBinding (c : Crypto) (motebitId genesisPublicKeyHex : Text) : Bool :=
  if DID_KEY.isPrefixOf motebitId then
    didKeyToPublicKey motebitId == some (fromHex genesisPublicKeyHex).data.toList
  else toLowerCase motebitId == deriveSovereignMotebitId c genesisPublicKeyHex

/-- A hexadecimal digit of either case. -/
def isHexUnit (u : CodeUnit) : Bool := isLowerHexUnit u || (65 ≤ u.val && u.val ≤ 70)

def uuidV8Unit (i : Nat) (u : CodeUnit) : Bool :=
  if i = 8 ∨ i = 13 ∨ i = 18 ∨ i = 23 then u.val == 45
  else if i = 14 then u.val == 56
  else if i = 19 then u.val ∈ [56, 57, 97, 98, 65, 66]
  else isHexUnit u

def isUuidV8 (s : Text) : Bool :=
  s.length == 36 && (s.zipIdx.all fun u => uuidV8Unit u.2 u.1)

def isSovereignShaped (motebitId : Text) : Bool := DID_KEY.isPrefixOf motebitId || isUuidV8 motebitId

/-! ## §3. Links -/

inductive LinkKind
  | normal | recovery | recovery_unchecked
  deriving DecidableEq

def LinkKind.rank : LinkKind → Nat
  | .recovery => 0
  | .normal => 1
  | .recovery_unchecked => 2

/-- The body of `classify`. -/
def verdict (c : ChainCrypto) (guardianKey : Option Text) (r : KeySuccessionRecord) :
    Option LinkKind :=
  if r.recovery then
    match guardianKey with
    | some guardian => if verifyKeySuccession c r (some guardian) then some .recovery else none
    | none =>
      -- the new key stands in as the guardian, and its signature as the guardian's
      let probe := { r with authority := .guardian_signature r.new_key_signature }
      if verifyKeySuccession c probe (some r.new_public_key) then some .recovery_unchecked else none
  else if verifyKeySuccession c r none then some .normal else none

/-- The candidates of one key, told apart by their canonical texts. -/
structure Bucket where
  key : Text
  candidates : List KeySuccessionRecord

def bucketOf (index : List Bucket) (key : Text) : List KeySuccessionRecord :=
  ((index.find? fun b => b.key == key).map Bucket.candidates).getD []

def put (side : KeySuccessionRecord → Text) (index : List Bucket) (r : KeySuccessionRecord) :
    List Bucket :=
  upsertBy Bucket.key
    ⟨side r, upsertBy KeySuccessionRecord.canonical r (bucketOf index (side r))⟩ index

/-- `byNew` and `byOld`, by the side they are filled by. -/
def indexBy (side : KeySuccessionRecord → Text) (records : List JsValue) : List Bucket :=
  (records.filterMap normalize).foldl (put side) []

/-- A verified link, under the key at its other end. -/
structure Link where
  other : Text
  kind : LinkKind
  record : KeySuccessionRecord
  deriving DecidableEq

/-- The strongest kind first, then the least canonical form. -/
def Link.score (l : Link) : Nat ×ₗ Text := toLex (l.kind.rank, l.record.canonical)

def Link.checked (l : Link) : Bool := l.kind ≠ .recovery_unchecked

section

variable {m : Type → Type} [Monad m]

/-- `links`, sorted by the key at the other end, as every reader of it does. -/
def links (classify : KeySuccessionRecord → m (Option LinkKind)) (index : List Bucket) (key : Text)
    (other : KeySuccessionRecord → Text) : m (List Link) := do
  let out ← (bucketOf index key).foldlM (fun out r => do
    match ← classify r with
    | none => return out
    | some kind => return keepBetter Link.other Link.score out ⟨other r, kind, r⟩) []
  return sortOn Link.other out

/-! ## §4. The cycle through the held key -/

structure Parent where
  key : Text
  next : Text
  record : KeySuccessionRecord

structure Search where
  parent : List Parent
  seen : List Text
  queue : List Text

def unwind (held : Text) (parent : List Parent) : Nat → Text → Option (List KeySuccessionRecord)
  | 0, _ => none
  | fuel + 1, cur =>
    if cur = held then some []
    else
      match parent.find? fun p => p.key == cur with
      | none => none
      | some step => (unwind held parent fuel step.next).map (step.record :: ·)

/-- The predecessors of `k`, one after the other: the evidence of a cycle, or the search as they
    leave it. -/
def visit (fuel : Nat) (held k : Text) : List Link → Search →
    Option (Except (List KeySuccessionRecord) Search)
  | [], st => some (.ok st)
  | l :: preds, st =>
    if l.kind = .recovery_unchecked then visit fuel held k preds st
    else if l.other = held then
      (unwind held st.parent fuel k).map fun evidence => .error (l.record :: evidence)
    else if l.other ∈ st.seen then visit fuel held k preds st
    else visit fuel held k preds
      ⟨st.parent ++ [⟨l.other, k, l.record⟩], st.seen ++ [l.other], st.queue ++ [l.other]⟩

/-- The breadth-first search: the evidence, where there is a cycle. -/
def search (preds : Text → m (List Link)) (held : Text) (total : Nat) :
    Nat → Search → m (Option (Option (List KeySuccessionRecord)))
  | 0, _ => return none
  | fuel + 1, st =>
    match st.queue with
    | [] => return some none
    | k :: queue => do
      match visit total held k (← preds k) { st with queue := queue } with
      | none => return none
      | some (.error evidence) => return some (some evidence)
      | some (.ok st) => search preds held total fuel st

/-! ## §5. The backward walk -/

inductive RosterChainAncestry
  | rooted (key : Text) (predecessors : List Text)
  | unrooted (key : Text)
  | forked_below (key : Text) (predecessors : List Text)
  | recovery_limited (key : Text) (predecessors : List Text)
  | cycle_below (key : Text) (predecessors : List Text)
  deriving DecidableEq

/-- The path so far: the key the walk is at, the newer keys, and a record for each pair. -/
structure Path where
  key : Text
  newer : List Text
  links : List KeySuccessionRecord

def Path.chain (path : Path) : List Text := path.key :: path.newer

/-- How the walk ends: where it stops, or with a fork at the held key. -/
inductive WalkEnd
  | stopped (ancestry : RosterChainAncestry)
  | forked (evidence : List KeySuccessionRecord)

/-- One round of the walk: an end, or the link to go back along. -/
def stepBack (rooted : Bool) (held : Text) (path : Path) (preds : List Link) :
    Except WalkEnd Link :=
  let key := path.key
  let verified := preds.filter Link.checked
  let unchecked := preds.filter fun l => !l.checked
  let repeats := verified.filter fun l => l.other ∈ path.chain
  if rooted then
    .error (.stopped (.rooted key ((preds.map Link.other).filter (· ≠ key))))
  else if repeats ≠ [] then .error (.stopped (.cycle_below key (repeats.map Link.other)))
  else if verified.length ≥ 2 then
    if key = held then .error (.forked (verified.map Link.record))
    else .error (.stopped (.forked_below key (verified.map Link.other)))
  else if unchecked ≠ [] then
    .error (.stopped (.recovery_limited key (unchecked.map Link.other)))
  else
    match verified with
    | [] => .error (.stopped (.unrooted key))
    | prev :: _ => .ok prev

def Path.push (path : Path) (l : Link) : Path := ⟨l.other, path.chain, l.record :: path.links⟩

def walk (preds : Text → m (List Link)) (rooted : Text → Bool) (held : Text) :
    Nat → Path → m (Option (Path × WalkEnd))
  | 0, _ => return none
  | fuel + 1, path => do
    match stepBack (rooted path.key) held path (← preds path.key) with
    | .error stop => return some (path, stop)
    | .ok l => walk preds rooted held fuel (path.push l)

/-! ## §6. Branches and the result -/

structure RosterChainBranch where
  at_key : Text
  to_key : Text
  guardian_verified : Bool
  record : KeySuccessionRecord
  deriving DecidableEq

def branchesAt (key next : Text) (succ : List Link) : List RosterChainBranch :=
  (succ.filter fun l => l.other ≠ next ∧ l.other ≠ key ∧ l.checked).map fun l =>
    ⟨key, l.other, l.kind == .recovery, l.record⟩

/-- The branches at every key but the last. -/
def branchesOn (succs : Text → m (List Link)) : List Text → m (List RosterChainBranch)
  | key :: next :: rest => do
    let succ ← succs key
    let others ← branchesOn succs (next :: rest)
    return branchesAt key next succ ++ others
  | _ => return []

structure RosterKeyChainOk where
  chain : List Text
  head : Text
  links : List KeySuccessionRecord
  ancestry : RosterChainAncestry
  sovereign_id : Bool
  branches : List RosterChainBranch
  suppress_universal_claims : Bool
  deriving DecidableEq

inductive KeyChainRefusal
  | duplicate_key | fork_at_held | held_key_superseded
  deriving DecidableEq

inductive RosterKeyChainResult
  | ok (result : RosterKeyChainOk)
  | refused (reason : KeyChainRefusal) (key : Text) (evidence : List KeySuccessionRecord)
      (detail : Text)
  | malformed_input (detail : Text)
  deriving DecidableEq

/-- A call the input checks let through. -/
structure Call where
  motebitId : Text
  held : Text
  guardianKey : Option Text
  records : List JsValue
  motebit_ne : motebitId ≠ []
  held_hex : isHex32 held = true
  guardian_hex : ∀ key ∈ guardianKey, isHex32 key = true

def duplicateDetail (key : Text) : Text :=
  txt "the held key " ++ key ++
    txt " is its own ancestor (a cycle through it); a chain with a repeated key has no epoch order"

/-- The genesis key of a sovereign id. -/
def rootedAt (c : Crypto) (call : Call) (key : Text) : Bool :=
  isSovereignShaped call.motebitId && verifySovereignBinding c call.motebitId key

/-- The successors: those of the held key, and the branches below it. -/
def successors (call : Call) (succs : Text → m (List Link)) (path : Path)
    (ancestry : RosterChainAncestry) : m RosterKeyChainResult := do
  let superseding := (← succs call.held).filter Link.checked
  if superseding ≠ [] then
    return .refused .held_key_superseded call.held (superseding.map Link.record)
      (txt "a verified succession record rotates the held key away")
  else
    let branches ← branchesOn succs path.chain
    return .ok
      { chain := path.chain
        head := call.held
        links := path.links
        ancestry := ancestry
        sovereign_id := isSovereignShaped call.motebitId
        branches := branches
        suppress_universal_claims := branches.any RosterChainBranch.guardian_verified }

def resolveWalk (c : Crypto) (call : Call) (preds succs : Text → m (List Link)) (fuel : Nat) :
    m (Option RosterKeyChainResult) := do
  match ← walk preds (rootedAt c call) call.held fuel ⟨call.held, [], []⟩ with
  | none => return none
  | some (_, .forked evidence) =>
    return some (.refused .fork_at_held call.held evidence
      (txt "the held key has two verified predecessors; only its holder could sign both"))
  | some (path, .stopped ancestry) => return some (← successors call succs path ancestry)

/-- The parts of the call, over the links of a key backward and forward: first the cycle check. -/
def resolveFrom (c : Crypto) (call : Call) (preds succs : Text → m (List Link)) (fuel : Nat) :
    m (Option RosterKeyChainResult) := do
  match ← search preds call.held fuel fuel ⟨[], [call.held], [call.held]⟩ with
  | none => return none
  | some (some evidence) =>
    return some (.refused .duplicate_key call.held evidence (duplicateDetail call.held))
  | some none => resolveWalk c call preds succs fuel

/-- The call over one way of classifying a record. -/
def resolveWith (c : Crypto) (call : Call)
    (classify : KeySuccessionRecord → m (Option LinkKind)) (fuel : Nat) :
    m (Option RosterKeyChainResult) :=
  resolveFrom c call
    (fun key => links classify (indexBy KeySuccessionRecord.new_public_key call.records) key
      KeySuccessionRecord.old_public_key)
    (fun key => links classify (indexBy KeySuccessionRecord.old_public_key call.records) key
      KeySuccessionRecord.new_public_key) fuel

end

def resolveCall (c : ChainCrypto) (call : Call) (fuel : Nat) : Option RosterKeyChainResult :=
  ((resolveWith c.toCrypto call
    (memoized KeySuccessionRecord.canonical (verdict c call.guardianKey)) fuel).run []).1

/-- The input, untyped as it arrives. -/
structure KeyChainInput where
  motebitId : JsValue
  held : JsValue
  records : JsValue
  guardianKey : JsValue

def guardianField : JsValue → Option (Option Text)
  | .undefined => some none
  | .string key => if isHex32 key then some (some key) else none
  | _ => none

/-- The checks of the input; an error is the detail of `malformed_input`. -/
def checkInput (input : KeyChainInput) : Except Text Call :=
  match input.motebitId with
  | .string motebitId =>
    if hmotebit : motebitId ≠ [] then
      match input.held with
      | .string held =>
        if hheld : isHex32 held = true then
          match hguardian : guardianField input.guardianKey with
          | some guardianKey =>
            match input.records with
            | .array records => .ok
                { motebitId, held, guardianKey, records
                  motebit_ne := hmotebit
                  held_hex := hheld
                  guardian_hex := by
                    intro key hkey
                    cases hkey
                    unfold guardianField at hguardian
                    split at hguardian
                    · cases hguardian
                    · next s _ =>
                      split at hguardian
                      · next hhex =>
                        cases hguardian
                        exact hhex
                      · cases hguardian
                    · cases hguardian }
            | _ => .error (txt "records must be an array")
          | none =>
            .error (txt "guardianKey, when given, must be a 32-byte public key in lowercase hex")
        else .error (txt "held must be a 32-byte public key in lowercase hex")
      | _ => .error (txt "held must be a 32-byte public key in lowercase hex")
    else .error (txt "motebitId must be a non-empty string")
  | _ => .error (txt "motebitId must be a non-empty string")

def resolveRosterKeyChain (c : ChainCrypto) (input : KeyChainInput) (fuel : Nat) :
    Option RosterKeyChainResult :=
  match checkInput input with
  | .error detail => some (.malformed_input detail)
  | .ok call => resolveCall c call fuel

end Motebit.Roster
