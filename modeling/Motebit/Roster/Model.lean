/-
  Motebit.Roster.Model — THE MACHINE ROSTER: one reduction over enrolments and retirements.

  Translated from `packages/crypto/src/host-roster.ts` (`verifyHostRoster` and what it calls).
  The inputs are JSON values of any shape.  SHA-256 and the Ed25519 check of a suite are
  parameters; a signature's bytes are decoded inside the check.
-/

import Mathlib.Data.Prod.Lex
import Motebit.Lib.Json
import Motebit.Lib.Table

namespace Motebit.Roster

open Motebit.Lib

/-! ## §1. Artifacts -/

/-- A key or another text of the source. -/
def txt (s : String) : Text := toText s.toList

def HOST_ROSTER_SUITE : Text := txt "motebit-jcs-ed25519-b64-v1"

def HOST_ENROLLMENT_TYPE : Text := txt "motebit/host-enrollment@1"

def HOST_RETIREMENT_TYPE : Text := txt "motebit/host-retirement@1"

def ENROLLMENT_KEYS : List Text :=
  [txt "device_id", txt "enrolled_at", txt "motebit_id", txt "public_key", txt "signature",
    txt "suite", txt "type"]

def RETIREMENT_KEYS : List Text :=
  [txt "enrollment_id", txt "motebit_id", txt "public_key", txt "retired_at", txt "signature",
    txt "suite", txt "type"]

/-- The body of `HostEnrollment`: every field but the signature. -/
structure EnrollmentBody where
  motebit_id : Text
  device_id : Text
  public_key : Text
  enrolled_at : JsonNum
  deriving DecidableEq

structure RetirementBody where
  motebit_id : Text
  enrollment_id : Text
  public_key : Text
  retired_at : JsonNum
  deriving DecidableEq

structure Signed (B : Type) where
  body : B
  signature : Text
  deriving DecidableEq

def member (members : List (Text × Json)) (key : String) : Option Json :=
  (members.find? fun m => m.1 == txt key).map Prod.snd

def stringMember (members : List (Text × Json)) (key : String) : Option Text :=
  match member members key with
  | some (.string s) => some s
  | _ => none

def isLowerHexUnit (u : CodeUnit) : Bool :=
  (48 ≤ u.val && u.val ≤ 57) || (97 ≤ u.val && u.val ≤ 102)

def isHex32 (s : Text) : Bool := s.length == 64 && s.all isLowerHexUnit

def isBase64UrlUnit (u : CodeUnit) : Bool :=
  (65 ≤ u.val && u.val ≤ 90) || (97 ≤ u.val && u.val ≤ 122) || (48 ≤ u.val && u.val ≤ 57) ||
    u.val == 95 || u.val == 45

/-- `ED25519_SIG_B64URL`. -/
def isEd25519Signature (s : Text) : Bool :=
  s.length == 86 && s.all isBase64UrlUnit &&
    s.getLast?.any fun u => u.val == 65 || u.val == 81 || u.val == 103 || u.val == 119

/-- The integer a text of digits stands for. -/
def digitsValue (digits : List Char) : Nat :=
  digits.foldl (fun n c => 10 * n + (c.toNat - 48)) 0

/-- `isUnixMs`: a safe integer, at least 0 and not -0. -/
def isUnixMs : JsonNum → Bool
  | .negZero => false
  | .decimal text => text.val.all Char.isDigit && decide (digitsValue text.val ≤ 2 ^ 53 - 1)

def hasExactly (members : List (Text × Json)) (keys : List Text) : Bool :=
  (sortByKey members).map Prod.fst == keys

/-- `hasSignedShape`, answering the motebit, the key and the signature. -/
def signedShape (members : List (Text × Json)) : Option (Text × Text × Text) := do
  let motebit_id ← stringMember members "motebit_id"
  let public_key ← stringMember members "public_key"
  let suite ← stringMember members "suite"
  let signature ← stringMember members "signature"
  if motebit_id ≠ [] ∧ isHex32 public_key ∧ suite = HOST_ROSTER_SUITE ∧
      isEd25519Signature signature then
    some (motebit_id, public_key, signature)
  else none

/-- A member that holds a time. -/
def unixMsMember (members : List (Text × Json)) (key : String) : Option JsonNum :=
  match member members key with
  | some (.number n) => if isUnixMs n then some n else none
  | _ => none

/-- `isHostEnrollment`, answering the enrolment it narrows to. -/
def isHostEnrollment : Json → Option (Signed EnrollmentBody)
  | .object members => do
    if hasExactly members ENROLLMENT_KEYS ∧
        stringMember members "type" = some HOST_ENROLLMENT_TYPE then
      let (motebit_id, public_key, signature) ← signedShape members
      let device_id ← stringMember members "device_id"
      let enrolled_at ← unixMsMember members "enrolled_at"
      if device_id ≠ [] then some ⟨⟨motebit_id, device_id, public_key, enrolled_at⟩, signature⟩
      else none
    else none
  | _ => none

def isHostRetirement : Json → Option (Signed RetirementBody)
  | .object members => do
    if hasExactly members RETIREMENT_KEYS ∧
        stringMember members "type" = some HOST_RETIREMENT_TYPE then
      let (motebit_id, public_key, signature) ← signedShape members
      let enrollment_id ← stringMember members "enrollment_id"
      let retired_at ← unixMsMember members "retired_at"
      if isHex32 enrollment_id then
        some ⟨⟨motebit_id, enrollment_id, public_key, retired_at⟩, signature⟩
      else none
    else none
  | _ => none

def EnrollmentBody.toJson (b : EnrollmentBody) : Json :=
  .object [(txt "type", .string HOST_ENROLLMENT_TYPE), (txt "motebit_id", .string b.motebit_id),
    (txt "device_id", .string b.device_id), (txt "public_key", .string b.public_key),
    (txt "enrolled_at", .number b.enrolled_at), (txt "suite", .string HOST_ROSTER_SUITE)]

def RetirementBody.toJson (b : RetirementBody) : Json :=
  .object [(txt "type", .string HOST_RETIREMENT_TYPE), (txt "motebit_id", .string b.motebit_id),
    (txt "enrollment_id", .string b.enrollment_id), (txt "public_key", .string b.public_key),
    (txt "retired_at", .number b.retired_at), (txt "suite", .string HOST_ROSTER_SUITE)]

/-! ## §2. Hashes and signatures -/

/-- The code outside the repository. -/
structure Crypto where
  sha256 : ByteArray → ByteArray
  sha256_size : ∀ bytes, (sha256 bytes).size = 32
  /-- `verifyBySuite`: message, signature text and key text; a throw is a `false`. -/
  verify : ByteArray → Text → Text → Bool

def utf8 (text : List Char) : ByteArray := (String.ofList text).toUTF8

def canonicalSha256 (c : Crypto) (j : Json) : Text :=
  toText (bytesToHex (c.sha256 (utf8 j.canonical)))

def unsignedBody (members : List (Text × Json)) : Json :=
  .object (members.filter fun m => m.1 != txt "signature")

/-- `signedBodyId`, of what is a JSON object; canonical JSON of JSON data never throws. -/
def signedBodyId (c : Crypto) : Json → Option Text
  | .object members => some (canonicalSha256 c (unsignedBody members))
  | _ => none

inductive RosterKind
  | enrollment
  | retirement
  deriving DecidableEq

def RosterKind.text : RosterKind → Text
  | .enrollment => txt "enrollment"
  | .retirement => txt "retirement"

structure ArtifactKind (B : Type) where
  kind : RosterKind
  isShape : Json → Option (Signed B)
  motebit_id : B → Text
  public_key : B → Text
  toJson : B → Json

def enrollments : ArtifactKind EnrollmentBody :=
  ⟨.enrollment, isHostEnrollment, EnrollmentBody.motebit_id, EnrollmentBody.public_key,
    EnrollmentBody.toJson⟩

def retirements : ArtifactKind RetirementBody :=
  ⟨.retirement, isHostRetirement, RetirementBody.motebit_id, RetirementBody.public_key,
    RetirementBody.toJson⟩

def verifyBody {B : Type} (c : Crypto) (k : ArtifactKind B) (a : Signed B) : Bool :=
  c.verify (utf8 (k.toJson a.body).canonical) a.signature (k.public_key a.body)

/-! ## §3. Admission -/

/-- `HostRosterRejection["reason"]`. -/
inductive Refusal
  | malformed | wrong_motebit | untrusted_key | bad_signature
  deriving DecidableEq

def Refusal.text : Refusal → Text
  | .malformed => txt "malformed"
  | .wrong_motebit => txt "wrong_motebit"
  | .untrusted_key => txt "untrusted_key"
  | .bad_signature => txt "bad_signature"

structure HostRosterRejection where
  kind : RosterKind
  id : Option Text
  public_key : Option Text
  reason : Refusal
  deriving DecidableEq

/-- The key of the map of rejections, and the order they are sorted in: `kind`, `id` (a missing
    one is empty), `reason`. -/
def HostRosterRejection.key (r : HostRosterRejection) : Lex (Text × Lex (Text × Text)) :=
  toLex (r.kind.text, toLex (r.id.getD [], r.reason.text))

/-- The copies of one signed body: the key the first one claims, and the well-formed ones by
    signature. -/
structure Group (B : Type) where
  id : Text
  claimed : Option Text
  shaped : List (Signed B)

/-- `item.public_key`, where it is a string. -/
def claimedKey : Json → Option Text
  | .object members => stringMember members "public_key"
  | _ => none

section

variable {B : Type} (c : Crypto) (k : ArtifactKind B)

def groupItem (groups : List (Group B)) (id : Text) (item : Json) : List (Group B) :=
  let group := (groups.find? fun g => g.id == id).getD ⟨id, claimedKey item, []⟩
  let shaped := match k.isShape item with
    | some artifact => upsertBy Signed.signature artifact group.shaped
    | none => group.shaped
  upsertBy Group.id { group with shaped := shaped } groups

/-- The loop over the items: whether one is unidentifiable, and the groups of the others. -/
def groupItems (items : List Json) : Bool × List (Group B) :=
  items.foldl (fun acc item =>
    match signedBodyId c item with
    | none => (true, acc.2)
    | some id => (acc.1, groupItem k acc.2 id item)) (false, [])

structure Admitted (B : Type) where
  id : Text
  artifact : Signed B
  epoch : Nat

def epochOf (keyChain : List Text) (key : Text) : Option Nat :=
  if key ∈ keyChain then some (keyChain.idxOf key) else none

/-- What becomes of a group: every copy shares the sample's motebit and key. -/
def judge (motebitId : Text) (keyChain : List Text) (group : Group B) :
    Except Refusal (Admitted B) :=
  match group.shaped.head? with
  | none => .error .malformed
  | some sample =>
    if k.motebit_id sample.body ≠ motebitId then .error .wrong_motebit
    else
      match epochOf keyChain (k.public_key sample.body) with
      | none => .error .untrusted_key
      | some epoch =>
        match group.shaped.find? (verifyBody c k) with
        | none => .error .bad_signature
        | some good => .ok ⟨group.id, good, epoch⟩

/-- `admit` of the source: the admitted entries, and what is set in the map of rejections. -/
def admitItems (motebitId : Text) (keyChain : List Text) (items : List Json) :
    List (Admitted B) × List HostRosterRejection :=
  let (unidentifiable, groups) := groupItems c k items
  (groups.filterMap fun g => (judge c k motebitId keyChain g).toOption,
    (if unidentifiable then [⟨k.kind, none, none, .malformed⟩] else []) ++
      groups.filterMap fun g =>
        match judge c k motebitId keyChain g with
        | .error reason => some ⟨k.kind, some g.id, g.claimed, reason⟩
        | .ok _ => none)

end

/-! ## §4. The verdict -/

structure HostRosterEntry where
  enrollment_id : Text
  body : EnrollmentBody
  deriving DecidableEq

structure HostRosterMachine where
  device_id : Text
  epoch : Nat
  authenticated : Bool
  entries : List HostRosterEntry
  deriving DecidableEq

structure Tombstone where
  enrollment_id : Text
  epoch : Nat
  deriving DecidableEq

structure HostRosterVerdict where
  chain_head : Nat × Text
  active : List HostRosterMachine
  retired : List HostRosterMachine
  superseded : List HostRosterMachine
  tombstones : List Tombstone
  rejected : List HostRosterRejection
  deriving DecidableEq

/-- Why there is no verdict. -/
inductive Unusable
  | malformed_input | empty_chain | malformed_key | duplicate_key
  deriving DecidableEq

inductive HostRosterResult
  | unusable (reason : Unusable)
  | ok (verdict : HostRosterVerdict)
  deriving DecidableEq

/-- The input, untyped as it arrives: an absent field is one of another type. -/
structure RosterInput where
  motebitId : Option Text
  keyChain : Option (List Json)
  enrollments : Option (List Json)
  retirements : Option (List Json)

/-- `endedAtEpoch`: each target at the highest epoch that named it. -/
def endedAtEpoch (admitted : List (Admitted RetirementBody)) : List Tombstone :=
  admitted.foldl (fun ended r =>
    let target := r.artifact.body.enrollment_id
    let epoch := match ended.find? fun t => t.enrollment_id == target with
      | some t => max t.epoch r.epoch
      | none => r.epoch
    upsertBy Tombstone.enrollment_id ⟨target, epoch⟩ ended) []

/-- The enrolments of one machine. -/
structure Device where
  device_id : Text
  all : List (Admitted EnrollmentBody)

def byDevice (admitted : List (Admitted EnrollmentBody)) : List Device :=
  admitted.foldl (fun devices e =>
    let device_id := e.artifact.body.device_id
    let list := ((devices.find? fun d => d.device_id == device_id).map Device.all).getD []
    upsertBy Device.device_id ⟨device_id, list ++ [e]⟩ devices) []

/-- `H`, the highest epoch of a machine's enrolments. -/
def highestEpoch (all : List (Admitted EnrollmentBody)) : Nat :=
  all.foldl (fun h e => if h < e.epoch then e.epoch else h) 0

/-- Rule A: no retirement at an epoch at least the enrolment's names it. -/
def stands (ended : List Tombstone) (e : Admitted EnrollmentBody) : Bool :=
  match ended.find? fun t => t.enrollment_id == e.id with
  | some t => t.epoch < e.epoch
  | none => true

inductive MachineStatus
  | active | retired | superseded
  deriving DecidableEq

/-- Rule B: a machine by its highest-epoch enrolments. -/
def classify (ended : List Tombstone) (current : Nat) (d : Device) :
    MachineStatus × HostRosterMachine :=
  let H := highestEpoch d.all
  let atH := d.all.filter fun e => e.epoch == H
  let standing := atH.filter (stands ended)
  let shown := if standing.isEmpty then atH else standing
  let entries := sortOn HostRosterEntry.enrollment_id
    (shown.map fun e => ⟨e.id, e.artifact.body⟩)
  (if standing.isEmpty then .retired else if H == current then .active else .superseded,
    ⟨d.device_id, H, H == current, entries⟩)

def machinesOf (status : MachineStatus) (machines : List (MachineStatus × HostRosterMachine)) :
    List HostRosterMachine :=
  sortOn HostRosterMachine.device_id
    ((machines.filter fun m => m.1 == status).map Prod.snd)

/-- Steps 1 to 3. -/
def reduce (c : Crypto) (motebitId : Text) (keyChain : List Text)
    (enrolled retired : List Json) : HostRosterVerdict :=
  let current := keyChain.length - 1
  let (retiring, refusedRetirements) := admitItems c retirements motebitId keyChain retired
  let (enrolling, refusedEnrollments) := admitItems c enrollments motebitId keyChain enrolled
  let ended := endedAtEpoch retiring
  let devices := byDevice enrolling
  let machines := devices.map (classify ended current)
  { chain_head := (current, keyChain.getLast?.getD [])
    active := machinesOf .active machines
    retired := machinesOf .retired machines
    superseded := machinesOf .superseded machines
    tombstones := sortOn Tombstone.enrollment_id
      (ended.filter fun t => !(devices.any fun d => d.all.any fun e => e.id == t.enrollment_id))
    rejected := sortOn HostRosterRejection.key
      ((refusedRetirements ++ refusedEnrollments).foldl
        (fun map r => upsertBy HostRosterRejection.key r map) []) }

/-- The keys of the chain, where all are strings. -/
def stringKeys (keyChain : List Json) : Option (List Text) :=
  keyChain.mapM fun
    | .string key => some key
    | _ => none

def verifyHostRoster (c : Crypto) (input : RosterInput) : HostRosterResult :=
  match input.motebitId.filter (· ≠ []), input.keyChain, input.enrollments, input.retirements with
  | some motebitId, some keyChain, some enrolled, some retired =>
    if keyChain.isEmpty then .unusable .empty_chain
    else
      match (stringKeys keyChain).filter fun keys => keys.all isHex32 with
      | none => .unusable .malformed_key
      | some keys =>
        if keys.Nodup then .ok (reduce c motebitId keys enrolled retired)
        else .unusable .duplicate_key
  | _, _, _, _ => .unusable .malformed_input

end Motebit.Roster
