/-
  Motebit.Signing.Grant — HOW LONG A PER-TICK TOKEN IS USABLE under a standing delegation.

  Translated from `packages/crypto/src/artifacts.ts` (`verifyStandingDelegation`,
  `verifyTokenAgainstGrant`).

  A token without `not_before` is to be active from `issued_at`, but no check reads `issued_at`
  against the clock: the TTL bounds what the token says, not when it is accepted.

  Main results: `valid_iff`, `usable_iff`.
-/

import Motebit.Signing.Delegation
import Mathlib.Tactic.Linarith

namespace Motebit.Signing

open Motebit.Lib List
open Motebit.Roster (txt utf8 isHex32)

/-! ## §1. The checks -/

/-- `members` hold what no check reads. -/
structure StandingDelegation where
  grant_id : Text
  delegator_id : Text
  delegator_public_key : Text
  delegate_id : Text
  delegate_public_key : Text
  scope : Text
  members : List (Text × Json)
  not_before : Option JsonNum
  expires_at : JsonNum
  max_token_ttl_ms : JsonNum
  suite : Text
  signature : Text

/-- The signed body: everything but the signature. -/
def StandingDelegation.body (g : StandingDelegation) : Json :=
  .object ([(txt "grant_id", .string g.grant_id), (txt "delegator_id", .string g.delegator_id),
      (txt "delegator_public_key", .string g.delegator_public_key),
      (txt "delegate_id", .string g.delegate_id),
      (txt "delegate_public_key", .string g.delegate_public_key),
      (txt "scope", .string g.scope)] ++ g.members ++
    [(txt "not_before", (g.not_before.map Json.number).getD .null),
      (txt "expires_at", .number g.expires_at),
      (txt "max_token_ttl_ms", .number g.max_token_ttl_ms), (txt "suite", .string g.suite)])

structure GrantOptions extends VerifyOptions where
  isRevoked : Option (Text → Bool)

section

variable (verifyBySuite : ByteArray → Text → Text → Bool)

def verifyStandingDelegation (grant : StandingDelegation) (options : GrantOptions) : Bool :=
  if grant.suite ≠ DELEGATION_TOKEN_SUITE then false
  else if !isCanonicalPublicKeyHex grant.delegator_public_key ||
      !isCanonicalPublicKeyHex grant.delegate_public_key then false
  else if grant.not_before.any fun start => decide (options.now < numberValue start) then false
  else if options.checkExpiry.getD true &&
      decide (numberValue grant.expires_at < options.now) then false
  else if options.isRevoked.any fun isRevoked => isRevoked grant.grant_id then false
  else verifyBySuite (utf8 grant.body.canonical) grant.signature grant.delegator_public_key

def verifyTokenAgainstGrant (token : DelegationToken) (grant : StandingDelegation)
    (isRevoked : Option (Text → Bool)) (now : ℚ) : ChainResult :=
  if !verifyDelegation verifyBySuite token ⟨none, now⟩ then
    ⟨false, some (txt "token signature or expiry invalid")⟩
  else if token.grant_id ≠ some grant.grant_id then
    ⟨false, some (txt "token.grant_id does not match grant")⟩
  else if !verifyStandingDelegation verifyBySuite grant ⟨⟨none, now⟩, isRevoked⟩ then
    ⟨false, some (txt "grant invalid, expired, or revoked")⟩
  else if token.delegator_id ≠ grant.delegator_id ∨
      token.delegator_public_key ≠ grant.delegator_public_key ∨
      token.delegate_id ≠ grant.delegate_id ∨
      token.delegate_public_key ≠ grant.delegate_public_key then
    ⟨false, some (txt "token parties do not match grant")⟩
  else if !isScopeNarrowed grant.scope token.scope then
    ⟨false, some (txt "token widens scope beyond grant: grant=\"" ++ grant.scope ++
      txt "\", token=\"" ++ token.scope ++ txt "\"")⟩
  else if numberValue token.expires_at - numberValue token.issued_at >
      numberValue grant.max_token_ttl_ms then
    ⟨false, some (txt "token TTL exceeds grant.max_token_ttl_ms")⟩
  else ⟨true, none⟩

/-! ## §2. The window -/

/-- What is checked without the clock. -/
structure Ticks (token : DelegationToken) (grant : StandingDelegation)
    (isRevoked : Option (Text → Bool)) : Prop where
  suites : token.suite = DELEGATION_TOKEN_SUITE ∧ grant.suite = DELEGATION_TOKEN_SUITE
  keys : isCanonicalPublicKeyHex token.delegator_public_key = true ∧
    isCanonicalPublicKeyHex token.delegate_public_key = true
  signed : verifyBySuite (utf8 token.body.canonical) token.signature token.delegator_public_key = true
  granted : verifyBySuite (utf8 grant.body.canonical) grant.signature grant.delegator_public_key = true
  grant_id : token.grant_id = some grant.grant_id
  unrevoked : (isRevoked.any fun isRevoked => isRevoked grant.grant_id) = false
  delegator : token.delegator_id = grant.delegator_id ∧
    token.delegator_public_key = grant.delegator_public_key
  delegate : token.delegate_id = grant.delegate_id ∧
    token.delegate_public_key = grant.delegate_public_key
  narrowed : isScopeNarrowed grant.scope token.scope = true
  ttl : numberValue token.expires_at - numberValue token.issued_at ≤
    numberValue grant.max_token_ttl_ms

end

/-- The activation times that are given. -/
def starts (token : DelegationToken) (grant : StandingDelegation) : List ℚ :=
  (token.not_before.toList ++ grant.not_before.toList).map numberValue

/-- The earlier of the two expiries. -/
def lapse (token : DelegationToken) (grant : StandingDelegation) : ℚ :=
  min (numberValue token.expires_at) (numberValue grant.expires_at)

variable {verifyBySuite : ByteArray → Text → Text → Bool} {token : DelegationToken}
  {grant : StandingDelegation} {isRevoked : Option (Text → Bool)} {now : ℚ}

theorem any_lt_eq_false {start : Option JsonNum} :
    (start.any fun start => decide (now < numberValue start)) = false ↔
      ∀ n, start = some n → numberValue n ≤ now := by
  cases start <;> simp

theorem forall_starts {P : ℚ → Prop} : (∀ s ∈ starts token grant, P s) ↔
    (∀ n, token.not_before = some n → P (numberValue n)) ∧
      ∀ n, grant.not_before = some n → P (numberValue n) := by
  simp [starts, or_imp, forall_and, Option.mem_def]

/-- **A token is valid on a window of the clock**, if the other checks pass. -/
theorem valid_iff : (verifyTokenAgainstGrant verifyBySuite token grant isRevoked now).valid = true ↔
    Ticks verifyBySuite token grant isRevoked ∧
      (∀ s ∈ starts token grant, s ≤ now) ∧ now ≤ lapse token grant := by
  rw [forall_starts, lapse, le_min_iff]
  constructor
  · intro h
    unfold verifyTokenAgainstGrant at h
    split_ifs at h with htoken hid hgrant hparties hscope httl
    unfold verifyDelegation at htoken
    unfold verifyStandingDelegation at hgrant
    simp only [Option.getD_none, Bool.true_and, not_or, Bool.not_eq_true', Bool.not_eq_false,
      not_not, not_lt, gt_iff_lt] at *
    split_ifs at htoken with h₁ h₂ h₃ h₄
    split_ifs at hgrant with g₁ g₂ g₃ g₄ g₅
    simp only [not_not, Bool.not_eq_true, Bool.or_eq_false_iff, Bool.not_eq_false',
      decide_eq_true_eq, not_lt] at *
    exact ⟨⟨⟨h₁, g₁⟩, h₂, htoken, hgrant, hid, g₅, ⟨hparties.1, hparties.2.1⟩, hparties.2.2, hscope,
      httl⟩, ⟨any_lt_eq_false.mp h₄, any_lt_eq_false.mp g₃⟩, h₃, g₄⟩
  · rintro ⟨h, ⟨hslot, hstart⟩, hexpiry, hlapse⟩
    have hkeys := h.keys
    rw [h.delegator.2, h.delegate.2] at hkeys
    have htoken : verifyDelegation verifyBySuite token ⟨none, now⟩ = true := by
      simp [verifyDelegation, h.suites.1, h.keys.1, h.keys.2, any_lt_eq_false.mpr hslot,
        not_lt.mpr hexpiry, h.signed]
    have hgrant : verifyStandingDelegation verifyBySuite grant ⟨⟨none, now⟩, isRevoked⟩ = true := by
      simp [verifyStandingDelegation, h.suites.2, hkeys.1, hkeys.2, any_lt_eq_false.mpr hstart,
        not_lt.mpr hlapse, h.unrevoked, h.granted]
    simp [verifyTokenAgainstGrant, htoken, hgrant, h.grant_id, h.delegator, h.delegate, h.narrowed,
      not_lt.mpr h.ttl]

/-! ## §3. How wide the window is -/

theorem foldr_max {P : ℚ → Prop} {q : ℚ} (hq : P q) {l : List ℚ} (hl : ∀ x ∈ l, P x) :
    P (l.foldr max q) ∧ ∀ x ∈ l, x ≤ l.foldr max q := by
  induction l with
  | nil => exact ⟨hq, nofun⟩
  | cons a l ih =>
    obtain ⟨hmax, hle⟩ := ih fun x hx => hl x (mem_cons_of_mem _ hx)
    refine ⟨?_, fun x hx => ?_⟩
    · rcases max_choice a (l.foldr max q) with heq | heq
      · exact (congrArg P heq).mpr (hl a mem_cons_self)
      · exact (congrArg P heq).mpr hmax
    · rcases mem_cons.mp hx with rfl | hx
      · exact le_max_left _ _
      · exact (hle x hx).trans (le_max_right _ _)

/-- **A token is usable for at most the grant's TTL** exactly where an activation time is given
    that stands no more than the TTL before the expiry. -/
theorem usable_iff (verifyBySuite : ByteArray → Text → Text → Bool) (token : DelegationToken)
    (grant : StandingDelegation) (isRevoked : Option (Text → Bool)) :
    (∀ t₁ t₂, (verifyTokenAgainstGrant verifyBySuite token grant isRevoked t₁).valid = true →
      (verifyTokenAgainstGrant verifyBySuite token grant isRevoked t₂).valid = true →
        |t₂ - t₁| ≤ numberValue grant.max_token_ttl_ms) ↔
    (Ticks verifyBySuite token grant isRevoked → ∃ s ∈ starts token grant, lapse token grant < s ∨
        lapse token grant - s ≤ numberValue grant.max_token_ttl_ms) := by
  simp only [valid_iff]
  constructor
  · intro husable hticks
    by_contra hnone
    have hlate : ∀ s ∈ starts token grant, s ≤ lapse token grant ∧
        numberValue grant.max_token_ttl_ms < lapse token grant - s := by
      intro s hs
      refine ⟨not_lt.mp fun hlt => hnone ⟨s, hs, .inl hlt⟩, not_le.mp fun hle => ?_⟩
      exact hnone ⟨s, hs, .inr hle⟩
    -- the earliest time it is accepted, or one long enough before the expiry
    obtain ⟨⟨hle, hwide⟩, hstarts⟩ := foldr_max (q := lapse token grant -
      (|numberValue grant.max_token_ttl_ms| + 1)) (P := fun s => s ≤ lapse token grant ∧
        numberValue grant.max_token_ttl_ms < lapse token grant - s)
      ⟨by linarith [abs_nonneg (numberValue grant.max_token_ttl_ms)],
        by linarith [le_abs_self (numberValue grant.max_token_ttl_ms)]⟩ hlate
    have hbound := husable _ _ ⟨hticks, hstarts, hle⟩
      ⟨hticks, fun s hs => (hlate s hs).1, le_refl _⟩
    exact absurd (hbound.trans_lt hwide) (not_lt.mpr (le_abs_self _))
  · rintro hcond t₁ t₂ ⟨hticks, hs₁, hl₁⟩ ⟨-, hs₂, hl₂⟩
    obtain ⟨s, hs, hshort⟩ := hcond hticks
    have h₁ := hs₁ s hs
    have h₂ := hs₂ s hs
    rcases hshort with hpast | hshort
    · linarith
    · rw [abs_le]
      constructor <;> linarith

/-- A grant whose tokens live 1 ms at most. -/
def shortLived : StandingDelegation where
  grant_id := txt "g"
  delegator_id := toText ['a']
  delegator_public_key := keyOf 'a'
  delegate_id := toText ['b']
  delegate_public_key := keyOf 'b'
  scope := txt "*"
  members := []
  not_before := none
  expires_at := .decimal ⟨['9'], isNumberText_nine⟩
  max_token_ttl_ms := .decimal ⟨['1'], isNumberText_one⟩
  suite := DELEGATION_TOKEN_SUITE
  signature := []

def perTick : DelegationToken :=
  { Signing.token 'a' 'b' "*" with
    issued_at := .decimal ⟨['8'], by decide⟩, grant_id := some (txt "g") }

/-- **Usable for longer**: the token of 8 ms to 9 ms is accepted at 2 ms already. -/
theorem usable_early :
    (verifyTokenAgainstGrant (fun _ _ _ => true) perTick shortLived none 2).valid = true ∧
      (verifyTokenAgainstGrant (fun _ _ _ => true) perTick shortLived none 9).valid = true ∧
        ¬ |(9 : ℚ) - 2| ≤ numberValue shortLived.max_token_ttl_ms := by
  decide +kernel

end Motebit.Signing
