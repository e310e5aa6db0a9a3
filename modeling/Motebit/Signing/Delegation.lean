/-
  Motebit.Signing.Delegation — CHAINS OF DELEGATION TOKENS: authority that only shrinks.

  Translated from `packages/crypto/src/signing.ts` (`parseScopeSet`, `isScopeNarrowed`) and
  `packages/crypto/src/artifacts.ts` (`verifyDelegation`, `verifyDelegationChain`).  A scope is
  a free-form list; what it means is the set of capabilities a reader of it grants.  The Ed25519
  check of a suite is a parameter; a signature's bytes are decoded inside the check.

  Main results: `isScopeNarrowed_iff`, `chain_narrows`.
-/

import Mathlib.Algebra.Order.Field.Rat
import Mathlib.Data.List.Chain
import Mathlib.Data.Fintype.EquivFin
import Mathlib.Data.List.DropRight
import Motebit.Lib.HexText
import Motebit.Roster.Model

namespace Motebit.Signing

open Motebit.Lib List
open Motebit.Roster (txt utf8 isHex32 digitsValue)

/-! ## §1. Scopes -/

def trim (s : Text) : Text := (s.dropWhile isSpaceUnit).rdropWhile isSpaceUnit

def COMMA : CodeUnit := 44

/-- `parseScopeSet`: a set keeps the order of insertion. -/
def parseScopeSet (scope : Text) : List Text :=
  if scope = txt "*" then [txt "*"]
  else (((scope.splitOn COMMA).map trim).filter fun s => decide (s.length > 0)).eraseDups

def isScopeNarrowed (parentScope childScope : Text) : Bool :=
  let parent := parseScopeSet parentScope
  let child := parseScopeSet childScope
  -- a wildcard parent allows anything
  if parent.contains (txt "*") then true
  -- the child asks for a wildcard its parent has not
  else if child.contains (txt "*") then false
  else child.all fun cap => parent.contains cap

/-- What every reader of a scope asks of a capability. -/
def grants (scope cap : Text) : Bool :=
  (parseScopeSet scope).contains (txt "*") || (parseScopeSet scope).contains cap

/-- The capabilities of a scope, all of them where it holds the wildcard. -/
def capabilities (scope : Text) : Set Text := { cap | grants scope cap = true }

theorem mem_capabilities (scope cap : Text) : cap ∈ capabilities scope ↔
    txt "*" ∈ parseScopeSet scope ∨ cap ∈ parseScopeSet scope := by
  simp [capabilities, grants]

theorem capabilities_eq_univ {scope : Text} (h : txt "*" ∈ parseScopeSet scope) :
    capabilities scope = Set.univ := by
  apply Set.eq_univ_of_forall
  intro cap
  rw [mem_capabilities]
  exact .inl h

/-- **The comparison of spellings is inclusion of what they grant**: whatever the whitespace,
    the empties, the repetitions and the place of a wildcard. -/
theorem isScopeNarrowed_iff (parentScope childScope : Text) :
    isScopeNarrowed parentScope childScope = true ↔
      capabilities childScope ⊆ capabilities parentScope := by
  unfold isScopeNarrowed
  by_cases hparent : txt "*" ∈ parseScopeSet parentScope
  · simp [hparent, capabilities_eq_univ]
  by_cases hchild : txt "*" ∈ parseScopeSet childScope
  · -- all capabilities are not among finitely many
    obtain ⟨cap, hcap⟩ := Infinite.exists_notMem_finset (parseScopeSet parentScope).toFinset
    have hnot : cap ∉ capabilities parentScope := by
      rw [mem_capabilities]
      exact not_or.mpr ⟨hparent, by simpa using hcap⟩
    have hout : ¬ (capabilities childScope ⊆ capabilities parentScope) := by
      intro hsub
      apply hnot
      apply hsub
      rw [capabilities_eq_univ hchild]
      exact Set.mem_univ cap
    simp [hparent, hchild, hout]
  · simp [hparent, hchild, Set.subset_def, mem_capabilities]

theorem isScopeNarrowed_refl (scope : Text) : isScopeNarrowed scope scope = true := by
  rw [isScopeNarrowed_iff]

theorem isScopeNarrowed_trans {a b c : Text} (hab : isScopeNarrowed a b = true)
    (hbc : isScopeNarrowed b c = true) : isScopeNarrowed a c = true := by
  rw [isScopeNarrowed_iff] at *
  exact hbc.trans hab

/-! ## §2. Tokens -/

def DELEGATION_TOKEN_SUITE : Text := txt "motebit-jcs-ed25519-b64-v1"

structure DelegationToken where
  delegator_id : Text
  delegator_public_key : Text
  delegate_id : Text
  delegate_public_key : Text
  scope : Text
  issued_at : JsonNum
  expires_at : JsonNum
  not_before : Option JsonNum
  grant_id : Option Text
  suite : Text
  signature : Text

/-- The signed body: everything but the signature. -/
def DelegationToken.body (t : DelegationToken) : Json :=
  .object ([(txt "delegator_id", .string t.delegator_id),
      (txt "delegator_public_key", .string t.delegator_public_key),
      (txt "delegate_id", .string t.delegate_id),
      (txt "delegate_public_key", .string t.delegate_public_key),
      (txt "scope", .string t.scope), (txt "issued_at", .number t.issued_at),
      (txt "expires_at", .number t.expires_at)] ++
    (t.not_before.map fun n => (txt "not_before", Json.number n)).toList ++
    (t.grant_id.map fun s => (txt "grant_id", Json.string s)).toList ++
    [(txt "suite", .string t.suite)])

def isCanonicalPublicKeyHex (key : Text) : Bool := isHex32 key

/-- The exponent of a number's text. -/
def exponentValue : List Char → Int
  | '-' :: digits => -(digitsValue digits : Int)
  | '+' :: digits => digitsValue digits
  | digits => digitsValue digits

/-- The number an unsigned decimal text stands for. -/
def decimalValue (text : List Char) : ℚ :=
  let mantissa := text.takeWhile (· ≠ 'e')
  let fraction := (mantissa.dropWhile (· ≠ '.')).drop 1
  digitsValue (mantissa.takeWhile (· ≠ '.') ++ fraction) *
    10 ^ (exponentValue ((text.dropWhile (· ≠ 'e')).drop 1) - fraction.length)

def numberValue : JsonNum → ℚ
  | .negZero => 0
  | .decimal text =>
    match text.val with
    | '-' :: digits => -decimalValue digits
    | digits => decimalValue digits

/-- `options` of `verifyDelegation`, with the clock behind an absent `now`. -/
structure VerifyOptions where
  checkExpiry : Option Bool
  now : ℚ

section Verifying

/- `verifyBySuite` on a message, the text of a signature and the text of a key; a throw of the
   decoders is a `false`. -/
variable (verifyBySuite : ByteArray → Text → Text → Bool)

def verifyDelegation (delegation : DelegationToken) (options : VerifyOptions) : Bool :=
  if delegation.suite ≠ DELEGATION_TOKEN_SUITE then false
  else if !isCanonicalPublicKeyHex delegation.delegator_public_key ||
      !isCanonicalPublicKeyHex delegation.delegate_public_key then false
  else if options.checkExpiry.getD true &&
      decide (numberValue delegation.expires_at < options.now) then false
  else if options.checkExpiry.getD true &&
      delegation.not_before.any fun slot => decide (options.now < numberValue slot) then false
  else verifyBySuite (utf8 delegation.body.canonical) delegation.signature
    delegation.delegator_public_key

/-- `verifyDelegationChain`'s answer. -/
structure ChainResult where
  valid : Bool
  error : Option Text
  deriving DecidableEq

def indexText (i : Nat) : Text := toText (Nat.repr i).toList

/-- What stands between two adjacent tokens, the second at `i`. -/
def linkError (i : Nat) (prev delegation : DelegationToken) : Option Text :=
  if prev.delegate_id ≠ delegation.delegator_id then
    some (txt "Chain break at " ++ indexText i ++ txt ": delegate_id \"" ++ prev.delegate_id ++
      txt "\" !== delegator_id \"" ++ delegation.delegator_id ++ txt "\"")
  else if prev.delegate_public_key ≠ delegation.delegator_public_key then
    some (txt "Chain break at " ++ indexText i ++ txt ": delegate_public_key mismatch")
  else if !isScopeNarrowed prev.scope delegation.scope then
    some (txt "Delegation " ++ indexText i ++ txt " widens scope: parent=\"" ++ prev.scope ++
      txt "\", child=\"" ++ delegation.scope ++ txt "\"")
  else none

def verifyFrom (now : ℚ) (i : Nat) (prev : Option DelegationToken) :
    List DelegationToken → ChainResult
  | [] => ⟨true, none⟩
  | delegation :: rest =>
    -- historical: an expired token does not break the chain
    if verifyDelegation verifyBySuite delegation ⟨some false, now⟩ = false then
      ⟨false, some (txt "Delegation " ++ indexText i ++ txt " has invalid signature")⟩
    else match prev.bind fun prev => linkError i prev delegation with
      | some error => ⟨false, some error⟩
      | none => verifyFrom now (i + 1) (some delegation) rest

def verifyDelegationChain (now : ℚ) (chain : List DelegationToken) : ChainResult :=
  verifyFrom verifyBySuite now 0 none chain

/-! ## §3. Accepted chains -/

/-- What the loop compares of two adjacent tokens. -/
structure Follows (prev delegation : DelegationToken) : Prop where
  id : prev.delegate_id = delegation.delegator_id
  key : prev.delegate_public_key = delegation.delegator_public_key
  narrowed : isScopeNarrowed prev.scope delegation.scope = true

theorem linkError_eq_none {i : Nat} {prev delegation : DelegationToken} :
    linkError i prev delegation = none ↔ Follows prev delegation := by
  unfold linkError
  constructor
  · intro h
    split_ifs at h with hid hkey hscope
    exact ⟨not_not.mp hid, not_not.mp hkey, by simpa using hscope⟩
  · rintro ⟨hid, hkey, hnarrowed⟩
    simp [hid, hkey, hnarrowed]

/-- **The loop accepts exactly the signed tokens that follow each other.** -/
theorem verifyFrom_valid (now : ℚ) (chain : List DelegationToken) :
    ∀ (i : Nat) (prev : Option DelegationToken),
      (verifyFrom verifyBySuite now i prev chain).valid = true ↔
        (∀ t ∈ chain, verifyDelegation verifyBySuite t ⟨some false, now⟩ = true) ∧
          (prev.toList ++ chain).IsChain Follows := by
  induction chain with
  | nil =>
    intro i prev
    cases prev <;> simp [verifyFrom]
  | cons delegation rest ih =>
    intro i prev
    unfold verifyFrom
    by_cases hsigned : verifyDelegation verifyBySuite delegation ⟨some false, now⟩ = true
    · rw [if_neg (by simp [hsigned])]
      cases prev with
      | none => simp [ih, hsigned]
      | some prev =>
        show ChainResult.valid (match linkError i prev delegation with
          | some error => ⟨false, some error⟩
          | none => verifyFrom verifyBySuite now (i + 1) (some delegation) rest) = true ↔ _
        cases hlink : linkError i prev delegation with
        | none =>
          have hfollows := linkError_eq_none.mp hlink
          simp [ih, hsigned, hfollows, isChain_cons_cons]
        | some =>
          have hnot : ¬ Follows prev delegation := by
            rw [← linkError_eq_none (i := i), hlink]
            simp
          simp [hnot, isChain_cons_cons]
    · rw [if_pos (by simpa using hsigned)]
      simp [hsigned]

/-- **A capability set only shrinks along a chain of links.** -/
theorem capabilities_narrow {chain : List DelegationToken} (h : chain.IsChain Follows) :
    chain.Pairwise fun earlier later => capabilities later.scope ⊆ capabilities earlier.scope := by
  -- only neighbours are compared; inclusion is transitive
  apply List.IsChain.pairwise
  exact h.imp fun _ _ hlink => (isScopeNarrowed_iff _ _).mp hlink.narrowed

/-- **Authority only shrinks along an accepted chain**, and each delegator is the delegate
    before it. -/
theorem chain_narrows (now : ℚ) (chain : List DelegationToken)
    (h : (verifyDelegationChain verifyBySuite now chain).valid = true) :
    (∀ (i j : Nat) (hi : i < chain.length) (hj : j < chain.length), i < j →
      capabilities chain[j].scope ⊆ capabilities chain[i].scope) ∧
    (∀ (j : Nat) (hj : j + 1 < chain.length), chain[j + 1].delegator_id = chain[j].delegate_id ∧
      chain[j + 1].delegator_public_key = chain[j].delegate_public_key) ∧
    (∀ first ∈ chain.head?, ∀ last ∈ chain.getLast?, ∀ cap,
      grants last.scope cap = true → grants first.scope cap = true) ∧
    (∀ scope, isScopeNarrowed scope scope = true) ∧
    ∀ a b c, isScopeNarrowed a b = true → isScopeNarrowed b c = true →
      isScopeNarrowed a c = true := by
  have hlinks : chain.IsChain Follows :=
    ((verifyFrom_valid verifyBySuite now chain 0 none).mp h).2
  have hnarrow := capabilities_narrow hlinks
  refine ⟨?_, ?_, ?_, isScopeNarrowed_refl, fun _ _ _ => isScopeNarrowed_trans⟩
  · exact pairwise_iff_getElem.mp hnarrow
  · intro j hj
    have hlink := isChain_iff_getElem.mp hlinks j hj
    exact ⟨hlink.id.symm, hlink.key.symm⟩
  · intro first hfirst last hlast cap hcap
    cases chain with
    | nil => simp at hfirst
    | cons t rest =>
      obtain rfl : t = first := by simpa using hfirst
      have hmem : last ∈ t :: rest := mem_of_getLast? hlast
      rcases mem_cons.mp hmem with rfl | hrest
      · exact hcap
      · exact rel_of_pairwise_cons hnarrow hrest hcap

end Verifying

/-! ## §4. A chain of two -/

def keyOf (digit : Char) : Text := toText (List.replicate 64 digit)

/-- A token from one letter to another. -/
theorem isNumberText_nine : isNumberText ['9'] = true := by decide

def token (a b : Char) (scope : String) : DelegationToken where
  delegator_id := toText [a]
  delegator_public_key := keyOf a
  delegate_id := toText [b]
  delegate_public_key := keyOf b
  scope := txt scope
  issued_at := .decimal ⟨['1'], isNumberText_one⟩
  expires_at := .decimal ⟨['9'], isNumberText_nine⟩
  not_before := none
  grant_id := none
  suite := DELEGATION_TOKEN_SUITE
  signature := []

theorem chain_narrows_two :
    capabilities (txt " read_url ,, read_url") ⊆ capabilities (txt "web_search, read_url") :=
  (chain_narrows (fun _ _ _ => true) 20
    [token 'a' 'b' "web_search, read_url", token 'b' 'c' " read_url ,, read_url"]
    (by decide)).1 0 1 (by decide) (by decide) (by decide)

end Motebit.Signing
