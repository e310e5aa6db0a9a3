/-
  Motebit.Disputes.Verdict — WHAT A DISPUTE IS DECIDED TO (services/relay/src/disputes.ts).

  A verdict has an outcome, and from the outcome and the filer's role a fund action and the
  ratio the money is split by.  On the single-relay path the operator's body names the outcome;
  on the federation path the peers' votes do.

  `Math.floor(base * ratio)` is computed in doubles: an amount within the safe range times the
  ratio is the nearest double to the exact product.  Beyond that range amounts are idealised,
  and the product is exact.

  Main results: `mulFloor_nonneg`, `mulFloor_le`, `aggregateVotes_outcome`.
-/

import Mathlib.Data.Rat.Floor
import Motebit.Deposit.Model

namespace Motebit.Disputes

open List

open Motebit.Accounts (maxSafeInteger)
open Motebit.Deposit (number)

/-! ## §1. Outcomes and the money they move -/

inductive DisputeOutcome
  | upheld | overturned | split
  deriving DecidableEq

inductive DisputeFundAction
  | releaseToWorker | refundToDelegator | split
  deriving DecidableEq

/-- Filer role at filing time; `none` on a dispute filed before roles were kept. -/
inductive FilerRole
  | worker | delegator
  deriving DecidableEq

/-- The fund action of a verdict and the worker's share of the base. -/
structure Money where
  fundAction : DisputeFundAction
  splitRatio : ℚ
  deriving DecidableEq

/-- §7.2 fund-action table; without a role, `split` with the ratio encoding the verdict. -/
def mapFundAction (outcome : DisputeOutcome) (filerRole : Option FilerRole) : Money :=
  match outcome, filerRole with
  | .split, _ => ⟨.split, 1 / 2⟩
  | .upheld, none => ⟨.split, 1⟩
  | .overturned, none => ⟨.split, 0⟩
  | .upheld, some .worker => ⟨.releaseToWorker, 1⟩
  | .upheld, some .delegator => ⟨.refundToDelegator, 0⟩
  | .overturned, some .worker => ⟨.refundToDelegator, 0⟩
  | .overturned, some .delegator => ⟨.releaseToWorker, 1⟩

inductive BodyRatio
  | number (q : ℚ)
  /-- Not a number, or not a finite one. -/
  | invalid
  deriving DecidableEq

def DisputeOutcome.text : DisputeOutcome → String
  | .upheld => "upheld"
  | .overturned => "overturned"
  | .split => "split"

def DisputeFundAction.text : DisputeFundAction → String
  | .releaseToWorker => "release_to_worker"
  | .refundToDelegator => "refund_to_delegator"
  | .split => "split"

/-- How a refusal names the filer. -/
def filerText : Option FilerRole → String
  | some .worker => "worker"
  | some .delegator => "delegator"
  | none => "legacy"

/-- The operator's `/resolve` body.  `resolution = none` is any value that is no outcome, an
    empty rationale a missing one; the fund action is the text the body names. -/
structure ResolveBody where
  resolution : Option DisputeOutcome
  rationale : String
  fundAction : Option String
  splitRatio : Option BodyRatio
  deriving DecidableEq

/-- Why a body moves no money. -/
inductive MoneyRefusal
  | resolution
  | ratio
  | contradictsFundAction (given : String) (outcome : DisputeOutcome) (role : Option FilerRole)
      (derived : DisputeFundAction)
  | contradictsRatio (given : ℚ) (outcome : DisputeOutcome) (role : Option FilerRole) (derived : ℚ)
  deriving DecidableEq

/-- The message of a refusal; ratios are printed as fractions. -/
def MoneyRefusal.text : MoneyRefusal → String
  | .resolution => "resolution must be one of upheld, overturned, split"
  | .ratio => "split_ratio must be a number in [0, 1]"
  | .contradictsFundAction given outcome role derived =>
    "fund_action \"" ++ given ++ "\" contradicts the §7.2 table for " ++ outcome.text ++ " ("
      ++ filerText role ++ " filer): " ++ derived.text
  | .contradictsRatio given outcome role derived =>
    "split_ratio " ++ toString given ++ " contradicts the §7.2 table for " ++ outcome.text ++ " ("
      ++ filerText role ++ " filer): " ++ toString derived

def ResolveBody.agrees (body : ResolveBody) (derived : DisputeFundAction) : Bool :=
  body.fundAction.all fun given => given == derived.text

/-- The money a single-relay verdict moves, derived from the body's outcome. -/
def deriveSingleRelayFundAction (body : ResolveBody) (filerRole : Option FilerRole) :
    Except MoneyRefusal Money :=
  match body.resolution with
  | none => .error .resolution
  | some outcome =>
    match body.splitRatio with
    | some .invalid => .error .ratio
    | some (.number q) =>
      if q < 0 ∨ 1 < q then .error .ratio
      else
        let derived : Money :=
          if outcome = .split then ⟨.split, q⟩ else mapFundAction outcome filerRole
        if !body.agrees derived.fundAction then
          .error (.contradictsFundAction (body.fundAction.getD "") outcome filerRole
            derived.fundAction)
        else if outcome ≠ .split ∧ q ≠ derived.splitRatio then
          .error (.contradictsRatio q outcome filerRole derived.splitRatio)
        else .ok derived
    | none =>
      let derived := mapFundAction outcome filerRole
      if !body.agrees derived.fundAction then
        .error (.contradictsFundAction (body.fundAction.getD "") outcome filerRole
          derived.fundAction)
      else .ok derived

/-! ## §2. The integer split -/

def mulFloor (base : Int) (ratio : ℚ) : Int :=
  if base ≤ maxSafeInteger then
    ((number (base.toNat * ratio.num.toNat) / ratio.den : Nat) : Int)
  else ⌊(base : ℚ) * ratio⌋

theorem number_le (v : Nat) : 2 ^ 53 * number v ≤ 2 ^ 53 * v + v := by
  unfold number
  dsimp only
  have hsplit := Nat.div_add_mod v (2 ^ (v.log2 - 52))
  have hpos : 0 < 2 ^ (v.log2 - 52) := Nat.two_pow_pos _
  -- the unit in the last place is at most `v / 2 ^ 52`, or it is one
  have hulp : 2 ^ (v.log2 - 52) = 1 ∨ 2 ^ 52 * 2 ^ (v.log2 - 52) ≤ v := by
    by_cases hlog : v.log2 < 52
    · left
      rw [Nat.sub_eq_zero_of_le (by omega), Nat.pow_zero]
    · right
      rw [← Nat.pow_add, show 52 + (v.log2 - 52) = v.log2 by omega]
      by_cases hv : v = 0
      · subst hv
        simp at hlog
      · exact Nat.log2_self_le hv
  generalize 2 ^ (v.log2 - 52) = ulp at hsplit hpos hulp ⊢
  have hrest : v % ulp < ulp := Nat.mod_lt v hpos
  have hdown : v / ulp * ulp + v % ulp = v := by
    rw [Nat.mul_comm]
    exact hsplit
  split
  · omega
  · rename_i hround
    rcases hulp with hone | hbig
    · rw [hone] at hrest hround
      omega
    · have hexpand : (v / ulp + 1) * ulp = v / ulp * ulp + ulp := Nat.succ_mul _ _
      rw [hexpand]
      omega

variable {ratio : ℚ}

theorem mulFloor_nonneg {base : Int} (hb : 0 ≤ base) (hr : 0 ≤ ratio) :
    0 ≤ mulFloor base ratio := by
  unfold mulFloor
  split
  · exact Int.natCast_nonneg _
  · exact Int.floor_nonneg.mpr (mul_nonneg (by exact_mod_cast hb) hr)

theorem num_le_den (hr : ratio ≤ 1) : ratio.num.toNat ≤ ratio.den := by
  have hden : (0 : ℚ) < ratio.den := by exact_mod_cast ratio.den_pos
  have hdiv : (ratio.num : ℚ) / ratio.den ≤ 1 := by
    rw [Rat.num_div_den]
    exact hr
  have hnum : ratio.num ≤ ratio.den := by exact_mod_cast (div_le_one hden).mp hdiv
  omega

theorem mulFloor_le {base : Int} (hb : 0 ≤ base) (hr : ratio ≤ 1) : mulFloor base ratio ≤ base := by
  unfold mulFloor
  split
  · rename_i hsafe
    have hden : 0 < ratio.den := ratio.den_pos
    obtain ⟨n, rfl⟩ := Int.eq_ofNat_of_zero_le hb
    have hn : n < 2 ^ 53 := by
      unfold maxSafeInteger at hsafe
      omega
    have hv : n * ratio.num.toNat ≤ n * ratio.den := Nat.mul_le_mul_left n (num_le_den hr)
    have hround := number_le (n * ratio.num.toNat)
    have hlt : n * ratio.num.toNat < 2 ^ 53 * ratio.den :=
      Nat.lt_of_le_of_lt hv (Nat.mul_lt_mul_of_pos_right hn hden)
    have hquot : number (n * ratio.num.toNat) / ratio.den < n + 1 := by
      rw [Nat.div_lt_iff_lt_mul hden, Nat.succ_mul]
      omega
    have htoNat : ((n : Int)).toNat = n := Int.toNat_natCast n
    rw [htoNat]
    exact_mod_cast Nat.lt_succ_iff.mp hquot
  · have hle : (base : ℚ) * ratio ≤ base := mul_le_of_le_one_right (by exact_mod_cast hb) hr
    exact_mod_cast (Int.floor_le _).trans hle

example : mulFloor 101 (1 / 2) = 50 := by decide +kernel

/-! ## §3. Votes -/

inductive Round
  | first | second
  deriving DecidableEq

structure AdjudicatorVote where
  disputeId : String
  round : Round
  peerId : String
  vote : DisputeOutcome
  rationale : String
  signature : String
  deriving DecidableEq

/-- A verdict to commit: the federation's aggregate or the operator's ruling. -/
structure Verdict where
  resolution : DisputeOutcome
  rationale : String
  money : Money
  adjudicatorVotes : List AdjudicatorVote
  deriving DecidableEq

def FEDERATION_QUORUM_MIN : Nat := 3

def tally (votes : List AdjudicatorVote) (outcome : DisputeOutcome) : Nat :=
  votes.countP fun v => v.vote = outcome

def winners (votes : List AdjudicatorVote) : List DisputeOutcome :=
  let most := max (tally votes .upheld) (max (tally votes .overturned) (tally votes .split))
  [DisputeOutcome.upheld, .overturned, .split].filter fun o => tally votes o = most

/-- Majority wins; a tie, and fewer votes than the quorum, is a `split`. -/
def aggregateVotes (validVotes : List AdjudicatorVote) (attemptedPeers : Nat)
    (filerRole : Option FilerRole) : Verdict :=
  if validVotes.length < FEDERATION_QUORUM_MIN then
    { resolution := .split
      rationale := "federation quorum not met within 72h adjudication window ("
        ++ toString validVotes.length ++ " valid vote(s) of " ++ toString attemptedPeers
        ++ " peer(s) attempted; minimum 3 required per §6.2 + §6.6)"
      money := mapFundAction .split filerRole
      adjudicatorVotes := validVotes }
  else
    let resolution :=
      match winners validVotes with
      | [winner] => winner
      | _ => .split
    { resolution := resolution
      rationale := "federation adjudication: " ++ toString (tally validVotes .upheld)
        ++ " upheld, " ++ toString (tally validVotes .overturned) ++ " overturned, "
        ++ toString (tally validVotes .split) ++ " split (" ++ toString validVotes.length
        ++ " valid of " ++ toString attemptedPeers ++ " attempted)"
      money := mapFundAction resolution filerRole
      adjudicatorVotes := validVotes }

/-- More votes for `outcome` than for any other. -/
def StrictPlurality (votes : List AdjudicatorVote) (outcome : DisputeOutcome) : Prop :=
  ∀ other, other ≠ outcome → tally votes other < tally votes outcome

@[simp] theorem aggregateVotes_votes (votes : List AdjudicatorVote) (attempted : Nat)
    (role : Option FilerRole) : (aggregateVotes votes attempted role).adjudicatorVotes = votes := by
  unfold aggregateVotes
  split <;> rfl

theorem plurality_of_winners {votes : List AdjudicatorVote} {outcome : DisputeOutcome}
    (h : winners votes = [outcome]) : StrictPlurality votes outcome := by
  have hmem : ∀ o, o ∈ winners votes ↔ tally votes o =
      max (tally votes .upheld) (max (tally votes .overturned) (tally votes .split)) := by
    intro o
    unfold winners
    rw [mem_filter]
    cases o <;> simp
  intro other hne
  have hin := (hmem outcome).mp (by rw [h]; exact mem_singleton_self _)
  have hout : ¬tally votes other =
      max (tally votes .upheld) (max (tally votes .overturned) (tally votes .split)) := by
    intro heq
    have hother := (hmem other).mpr heq
    rw [h] at hother
    exact hne (mem_singleton.mp hother)
  have hle : tally votes other ≤
      max (tally votes .upheld) (max (tally votes .overturned) (tally votes .split)) := by
    cases other <;> omega
  omega

/-- **A federation verdict is the strict plurality of the votes it embeds, or a split.** -/
theorem aggregateVotes_outcome (votes : List AdjudicatorVote) (attempted : Nat)
    (role : Option FilerRole) :
    StrictPlurality votes (aggregateVotes votes attempted role).resolution ∨
      (aggregateVotes votes attempted role).resolution = .split := by
  unfold aggregateVotes
  split
  · exact .inr rfl
  · dsimp only
    split
    · rename_i winner hw
      exact .inl (plurality_of_winners hw)
    · exact .inr rfl

end Motebit.Disputes
