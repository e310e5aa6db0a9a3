/-
  Motebit.Policy.GateLaws — WHO GETS WHAT, AND WHETHER THE OFFER IS ENFORCED.

  Decisions are ordered: denied, paused for approval, executed.  The first part compares an
  owner's turn with the same turn under a remote caller; the second compares what `filterTools`
  offers with what `validate` denies.

  Main results: `remote_at_most_owner`, `offer_and_enforcement`.
-/

import Motebit.Policy.Gate

namespace Motebit.Policy

open List

open PolicyGate PolicyGate

/-! ## §1. The order of decisions -/

/-- Denied, paused for approval, executed. -/
def PolicyDecision.rank : PolicyDecision → Nat
  | .denied _ => 0
  | .allowed true .. => 1
  | .allowed false .. => 2

def TurnContext.calledBy (ctx : TurnContext) (callerMotebitId : Option String)
    (callerTrustLevel : Option AgentTrustLevel) (remoteMotebitType : Option String) : TurnContext :=
  { ctx with
    callerMotebitId := callerMotebitId, callerTrustLevel := callerTrustLevel
    remoteMotebitType := remoteMotebitType }

/-- The owner's own turn carries no caller facts. -/
def TurnContext.IsOwner (ctx : TurnContext) : Prop :=
  ctx.callerMotebitId = none ∧ ctx.callerTrustLevel = none ∧ ctx.remoteMotebitType = none

/-- Where a service's threshold is lower than the owner's: a tool of risk R1 or less, without a
    floor of its own, that the owner's turn would ask about. -/
def ServiceLowered (gate : PolicyGate) (tool : ToolDefinition) (remoteMotebitType : Option String) :
    Prop :=
  remoteMotebitType = some "service" ∧ (gate.profileOf tool).risk.atMost .R1_DRAFT = true ∧
    tool.requiresApproval ≠ some true ∧ gate.ownerApproval (gate.profileOf tool) = true

section

variable (gate : PolicyGate) (hostname : String → Option String) (now : Int) (tool : ToolDefinition)
  (args : ToolArgs) (ctx : TurnContext)

theorem turnDenial_calledBy (profile : ToolRiskProfile) (id : Option String)
    (trust : Option AgentTrustLevel) (type : Option String) :
    gate.turnDenial hostname now profile tool args (ctx.calledBy id trust type)
      = gate.turnDenial hostname now profile tool args ctx := rfl

/-- **The decision's rank**, by what denies the turn and whether it needs approval. -/
theorem rank_evaluate (profile : ToolRiskProfile) (noApprovalChannel : Bool) :
    (gate.evaluate hostname now profile tool args ctx noApprovalChannel).rank =
      match gate.turnDenial hostname now profile tool args ctx,
          gate.needsApproval profile tool ctx with
      | .ok _, some true => if noApprovalChannel then 0 else 1
      | .ok _, some false => 2
      | _, _ => 0 := by
  unfold evaluate
  cases gate.turnDenial hostname now profile tool args ctx with
  | error => rfl
  | ok =>
    cases gate.needsApproval profile tool ctx with
    | none => rfl
    | some needed => cases needed <;> cases noApprovalChannel <;> rfl

theorem moneyAdjusted_mono (profile : ToolRiskProfile) {b b' : Bool} (h : b = true → b' = true)
    (hmoney : moneyAdjusted profile tool ctx b = true) :
    moneyAdjusted profile tool ctx b' = true := by
  unfold moneyAdjusted at hmoney ⊢
  split
  · next hrisk =>
    rw [if_pos hrisk] at hmoney
    split
    · next hgrant =>
      rw [if_pos hgrant, Bool.and_eq_true] at hmoney
      rw [h hmoney.1, hmoney.2]
      rfl
    · rfl
  · next hrisk =>
    rw [if_neg hrisk] at hmoney
    exact h hmoney

/-- **A remote caller is asked whenever the owner is**, but for a service's lowered
    threshold. -/
theorem needsApproval_calledBy (howner : ctx.IsOwner) (id : Option String)
    (trust : Option AgentTrustLevel) (type : Option String) (hservice : ¬ ServiceLowered gate tool type)
    (hasked : gate.needsApproval (gate.profileOf tool) tool ctx = some true) :
    gate.needsApproval (gate.profileOf tool) tool (ctx.calledBy id trust type) ≠ some false := by
  obtain ⟨hid, htrust, htype⟩ := howner
  unfold needsApproval at hasked ⊢
  have hown : moneyAdjusted (gate.profileOf tool) tool ctx
      (gate.ownerApproval (gate.profileOf tool)) = true := by
    simpa [trustAdjusted, typeAdjusted, floored, remoteCaller, hid, htrust, htype] using hasked
  cases hadj : trustAdjusted (ctx.calledBy id trust type)
      (gate.ownerApproval (gate.profileOf tool)) with
  | none => simp
  | some needed =>
    -- the trust level only ever raises the owner's own answer
    have hraised : gate.ownerApproval (gate.profileOf tool) = true → needed = true := by
      intro hneeds
      unfold trustAdjusted at hadj
      split at hadj <;> simp_all
    have hfloor : gate.ownerApproval (gate.profileOf tool) = true →
        floored tool (ctx.calledBy id trust type)
          (typeAdjusted (gate.profileOf tool) (ctx.calledBy id trust type) needed) = true := by
      intro hneeds
      have hn := hraised hneeds
      subst hn
      unfold floored typeAdjusted
      by_cases hsvc : type = some "service"
      · by_cases hlow : (gate.profileOf tool).risk.atMost .R1_DRAFT = true
        · have hfloor : tool.requiresApproval = some true := by
            by_contra hnone
            exact hservice ⟨hsvc, hlow, hnone, hneeds⟩
          simp [TurnContext.calledBy, remoteCaller, hsvc, hfloor]
        · simp [TurnContext.calledBy, hsvc, hlow]
      · by_cases hpersonal : type = some "personal"
        · simp [TurnContext.calledBy, hpersonal]
        · simp [TurnContext.calledBy, hsvc, hpersonal]
    have hmoney := moneyAdjusted_mono tool ctx (gate.profileOf tool) hfloor hown
    have hsame : moneyAdjusted (gate.profileOf tool) tool (ctx.calledBy id trust type)
        = moneyAdjusted (gate.profileOf tool) tool ctx := rfl
    simp [hsame, hmoney]

end

/-- **A remote caller never gets more than the owner**, but for a service calling a tool of
    risk R1 or less; without an approval channel nothing pauses and nothing more is allowed;
    and without a verified grant no money moves unasked. -/
theorem remote_at_most_owner (gate : PolicyGate) (hostname : String → Option String) (now : Int)
    (tool : ToolDefinition) (args : ToolArgs) (ctx : TurnContext) :
    (ctx.IsOwner → ∀ id trust type noApprovalChannel,
      (gate.validate hostname now tool args (ctx.calledBy id trust type) noApprovalChannel).1.rank
          ≤ (gate.validate hostname now tool args ctx noApprovalChannel).1.rank ∨
        ServiceLowered gate tool type ∧
          ∃ remaining, gate.turnDenial hostname now (gate.profileOf tool) tool args ctx
            = .ok remaining) ∧
    ((gate.validate hostname now tool args ctx true).1.rank
        ≤ (gate.validate hostname now tool args ctx false).1.rank ∧
      (gate.validate hostname now tool args ctx true).1.rank ≠ 1) ∧
    (ctx.verifiedGrant = false → (gate.profileOf tool).risk.atLeast .R4_MONEY = true →
      ∀ noApprovalChannel,
        (gate.validate hostname now tool args ctx noApprovalChannel).1.rank ≠ 2) := by
  have hvalidate : ∀ c b, (gate.validate hostname now tool args c b).1
      = gate.evaluate hostname now (gate.profileOf tool) tool args c b := fun _ _ => rfl
  refine ⟨?_, ?_, ?_⟩
  · intro howner id trust type b
    rw [hvalidate, hvalidate, rank_evaluate, rank_evaluate, turnDenial_calledBy]
    by_cases hservice : ServiceLowered gate tool type
    · cases gate.turnDenial hostname now (gate.profileOf tool) tool args ctx with
      | error => exact .inl (Nat.le_refl 0)
      | ok remaining => exact .inr ⟨hservice, remaining, rfl⟩
    · left
      have hasked := needsApproval_calledBy gate tool ctx howner id trust type hservice
      obtain ⟨needed, hneeded⟩ : ∃ needed,
          gate.needsApproval (gate.profileOf tool) tool ctx = some needed := by
        obtain ⟨-, htrust, -⟩ := howner
        exact ⟨_, by simp [PolicyGate.needsApproval, trustAdjusted, htrust]; rfl⟩
      cases gate.turnDenial hostname now (gate.profileOf tool) tool args ctx with
      | error => exact Nat.le_refl 0
      | ok =>
        cases hremote : gate.needsApproval (gate.profileOf tool) tool
            (ctx.calledBy id trust type) with
        | none => exact Nat.zero_le _
        | some needed' =>
          rw [hneeded]
          cases needed with
          | true =>
            rw [hneeded] at hasked
            have hne := hasked rfl
            rw [hremote] at hne
            cases needed' with
            | true => exact Nat.le_refl _
            | false => exact absurd rfl hne
          | false =>
            cases needed' <;> cases b <;> simp
  · rw [hvalidate, hvalidate, rank_evaluate, rank_evaluate]
    cases gate.turnDenial hostname now (gate.profileOf tool) tool args ctx with
    | error => simp
    | ok =>
      cases gate.needsApproval (gate.profileOf tool) tool ctx with
      | none => simp
      | some needed => cases needed <;> simp
  · intro hgrant hrisk b
    rw [hvalidate, rank_evaluate]
    have hasked : ∀ needed, gate.needsApproval (gate.profileOf tool) tool ctx = some needed →
        needed = true := by
      intro needed hneeded
      obtain ⟨adjusted, -, hmoney⟩ := Option.map_eq_some_iff.mp hneeded
      unfold moneyAdjusted at hmoney
      rw [if_pos hrisk, hgrant] at hmoney
      exact hmoney.symm
    cases gate.turnDenial hostname now (gate.profileOf tool) tool args ctx with
    | error => simp
    | ok =>
      cases hneeded : gate.needsApproval (gate.profileOf tool) tool ctx with
      | none => simp
      | some needed =>
        rw [hasked needed hneeded]
        cases b <;> simp

/-- A gate that asks the owner about everything above R0. -/
def cautiousGate : PolicyGate where
  config := ⟨true, none, some .R0_READ, some .R3_EXECUTE, none, none, none, none, none, none⟩
  budget := DEFAULT_BUDGET
  lastResetAt := 0
  profileCache _ := none

def draftEmail : ToolDefinition := ⟨"draft_email", "Draft an email", none, none, none, none⟩

def ownerTurn : TurnContext := ⟨0, 0, 0, none, none, none, none, false⟩

/-- **A service is not asked where the owner is**: the same draft pauses on the owner's turn
    and executes for a service. -/
theorem service_above_owner :
    (cautiousGate.validate (fun _ => none) 0 draftEmail ⟨none, none⟩ ownerTurn false).1.rank = 1 ∧
    (cautiousGate.validate (fun _ => none) 0 draftEmail ⟨none, none⟩
      (ownerTurn.calledBy none none (some "service")) false).1.rank = 2 := by
  decide +kernel

/-! ## §2. What is offered -/

/-- The name is on the deny list, or off a configured allow list. -/
def PolicyGate.listedOut (gate : PolicyGate) (tool : ToolDefinition) : Bool :=
  gate.denyListed tool || gate.offAllowList tool

theorem offers_listedOut {gate : PolicyGate} {tool : ToolDefinition} {profile : ToolRiskProfile}
    {ctx : TurnContext} (h : gate.listedOut tool = true) : gate.offers profile tool ctx = false := by
  unfold listedOut at h
  unfold offers
  cases hdeny : gate.denyListed tool <;> simp_all

variable {rest : List ToolDefinition}

theorem filterTools_listedOut {gate : PolicyGate} {ctx : TurnContext} {tool : ToolDefinition}
    (h : gate.listedOut tool = true) :
    gate.filterTools ctx (tool :: rest) = gate.filterTools ctx rest := by
  unfold listedOut at h
  simp [filterTools, h]

theorem filterTools_classified {gate : PolicyGate} {ctx : TurnContext} {tool : ToolDefinition}
    (h : gate.listedOut tool = false) : gate.filterTools ctx (tool :: rest)
      = (if gate.offers (gate.profileOf tool) tool ctx then
          tool :: ((gate.classify tool).2.filterTools ctx rest).1
        else ((gate.classify tool).2.filterTools ctx rest).1,
        ((gate.classify tool).2.filterTools ctx rest).2) := by
  unfold listedOut at h
  simp only [filterTools, h, Bool.false_eq_true, if_false]
  rfl

/-- **What `filterTools` does**: it changes only the cache, never a cached profile, and offers
    each tool by the profile the cache has for its name at the end. -/
theorem filterTools_spec (ctx : TurnContext) (tools : List ToolDefinition) (gate : PolicyGate) :
    (gate.filterTools ctx tools).2.config = gate.config ∧
    (∀ name profile, gate.profileCache name = some profile →
      (gate.filterTools ctx tools).2.profileCache name = some profile) ∧
    ∀ tool, tool ∈ (gate.filterTools ctx tools).1 ↔
      tool ∈ tools ∧ gate.offers ((gate.filterTools ctx tools).2.profileOf tool) tool ctx = true := by
  induction tools generalizing gate with
  | nil => simp [filterTools]
  | cons head rest ih =>
    cases hout : gate.listedOut head with
    | true =>
      rw [filterTools_listedOut hout]
      obtain ⟨hconfig, hcache, hoffered⟩ := ih gate
      refine ⟨hconfig, hcache, fun tool => ?_⟩
      rw [hoffered tool, mem_cons]
      constructor
      · rintro ⟨hmem, hoff⟩
        exact ⟨.inr hmem, hoff⟩
      · rintro ⟨rfl | hmem, hoff⟩
        · rw [offers_listedOut hout] at hoff
          cases hoff
        · exact ⟨hmem, hoff⟩
    | false =>
      obtain ⟨hconfig, hcache, hoffered⟩ := ih (gate.classify head).2
      have hprofile : ((gate.classify head).2.filterTools ctx rest).2.profileOf head
          = gate.profileOf head := by
        have hcached := hcache head.name (gate.profileOf head) (by simp [classify])
        simp [profileOf, hcached]
      rw [filterTools_classified hout]
      refine ⟨hconfig, ?_, fun tool => ?_⟩
      · intro name profile hcached
        apply hcache name profile
        by_cases hname : name = head.name
        · subst hname
          simp [classify, profileOf, hcached]
        · simp [classify, hname, hcached]
      · have hsame : ∀ profile, (gate.classify head).2.offers profile tool ctx
            = gate.offers profile tool ctx := fun _ => rfl
        have hrest := hoffered tool
        rw [mem_cons]
        constructor
        · intro hmem
          split at hmem
          · next hoff =>
            rcases mem_cons.mp hmem with rfl | hmem
            · exact ⟨.inl rfl, by rw [hprofile]; exact hoff⟩
            · exact ⟨.inr (hrest.mp hmem).1, (hrest.mp hmem).2⟩
          · exact ⟨.inr (hrest.mp hmem).1, (hrest.mp hmem).2⟩
        · rintro ⟨rfl | hmem, hoff⟩
          · rw [hprofile] at hoff
            rw [if_pos hoff]
            exact mem_cons_self
          · have hmem' := hrest.mpr ⟨hmem, hoff⟩
            split
            · exact mem_cons_of_mem _ hmem'
            · exact hmem'

theorem filterTools_cached (ctx : TurnContext) (tools : List ToolDefinition) (gate : PolicyGate)
    (tool : ToolDefinition) (hmem : tool ∈ tools) (hin : gate.listedOut tool = false) :
    ∃ profile, (gate.filterTools ctx tools).2.profileCache tool.name = some profile := by
  induction tools generalizing gate with
  | nil => cases hmem
  | cons head rest ih =>
    cases hout : gate.listedOut head with
    | true =>
      rw [filterTools_listedOut hout]
      rcases mem_cons.mp hmem with rfl | hmem
      · rw [hin] at hout
        cases hout
      · exact ih gate hmem hin
    | false =>
      rw [filterTools_classified hout]
      rcases mem_cons.mp hmem with rfl | hmem
      · obtain ⟨-, hcache, -⟩ := filterTools_spec ctx rest (gate.classify tool).2
        exact ⟨gate.profileOf tool, hcache _ _ (by simp [classify])⟩
      · exact ih (gate.classify head).2 hmem hin

/-! ## §3. What is denied -/

/-- The denials by deny list, allow list, scope and risk level.  No denial names the allow
    list. -/
def Denial.ByListScopeOrRisk : Denial → Prop
  | .denyList _ | .scope .. | .denyThreshold .. | .maxRisk .. => True
  | _ => False

/-- The scope, when there is one, covers the tool. -/
def InScope (tool : ToolDefinition) (ctx : TurnContext) : Prop :=
  ∀ scope, ctx.delegationScope = some scope → scopeCovers scope tool.name = true

def CoveringGrant (tool : ToolDefinition) (ctx : TurnContext) : Prop :=
  ctx.verifiedGrant = true ∧ grantCoversTool ctx tool.name = true

/-- Above the ceiling that is enforced: the deny band where the bands are set, and the maximum
    risk where they are not. -/
def PolicyGate.AboveCeiling (gate : PolicyGate) (risk : Risk) : Prop :=
  match gate.config.requireApprovalAbove, gate.config.denyAbove with
  | some _, some denyAbove => risk.above denyAbove = true
  | _, _ => risk.atMost gate.getEffectiveMaxRisk = false

/-- `gate'` is `gate` after more tools were classified. -/
structure PolicyGate.Later (gate gate' : PolicyGate) : Prop where
  config : gate'.config = gate.config
  cached : ∀ name profile, gate.profileCache name = some profile →
    gate'.profileCache name = some profile

section

variable (gate : PolicyGate) (hostname : String → Option String) (now : Int)
  (profile : ToolRiskProfile) (tool : ToolDefinition) (args : ToolArgs) (ctx : TurnContext)
  (noApprovalChannel : Bool)

theorem listOrScopeDenial_isSome :
    (gate.listOrScopeDenial tool ctx).isSome ↔ gate.denyListed tool = true ∨ ¬ InScope tool ctx := by
  unfold listOrScopeDenial InScope
  cases hdeny : gate.denyListed tool with
  | true => simp
  | false =>
    cases hscope : ctx.delegationScope with
    | none => simp
    | some scope => cases hcov : scopeCovers scope tool.name <;> simp [hcov]

theorem riskDenial_isSome :
    (gate.riskDenial profile tool).isSome ↔ gate.AboveCeiling profile.risk := by
  unfold riskDenial PolicyGate.AboveCeiling isToolAllowed
  cases gate.config.requireApprovalAbove <;> cases gate.config.denyAbove <;> simp

variable {denial : Denial}

theorem byListScopeOrRisk
    (h : gate.listOrScopeDenial tool ctx = some denial ∨ gate.riskDenial profile tool = some denial) :
    denial.ByListScopeOrRisk := by
  rcases h with hlist | hrisk
  · unfold listOrScopeDenial at hlist
    split at hlist
    · cases hlist; trivial
    · split at hlist
      · split at hlist <;> cases hlist; trivial
      · cases hlist
  · unfold riskDenial at hrisk
    split at hrisk <;> split at hrisk <;> cases hrisk <;> trivial

theorem not_byListScopeOrRisk
    (h : (gate.checkBudget now ctx).1 = .error denial ∨
      (gate.pathDenial args).or (gate.domainDenial hostname args) = some denial) :
    ¬ denial.ByListScopeOrRisk := by
  rcases h with hbudget | hargs
  · obtain ⟨reason, remaining, rfl⟩ : ∃ reason remaining, denial = .budget reason remaining := by
      unfold checkBudget at hbudget
      grind
    exact id
  · rcases Option.or_eq_some_iff.mp hargs with hpath | ⟨-, hdomain⟩
    · unfold pathDenial at hpath
      split at hpath
      · split at hpath <;> cases hpath; exact id
      · cases hpath
    · unfold domainDenial at hdomain
      split at hdomain
      · split at hdomain
        · cases hdomain; exact id
        · split at hdomain <;> cases hdomain; exact id
      · cases hdomain

/-- **The call is denied by list, scope or risk** exactly when the tool is on the deny list, out
    of the scope, or above the ceiling. -/
theorem fenced_iff : (∃ denial, gate.evaluate hostname now profile tool args ctx noApprovalChannel
        = .denied denial ∧ denial.ByListScopeOrRisk) ↔
      gate.denyListed tool = true ∨ ¬ InScope tool ctx ∨ gate.AboveCeiling profile.risk := by
  rw [← riskDenial_isSome gate profile tool, ← or_assoc, ← listOrScopeDenial_isSome gate tool ctx]
  unfold evaluate turnDenial
  cases hlist : gate.listOrScopeDenial tool ctx with
  | some denial =>
    simp only [Option.isSome_some, true_or, iff_true]
    exact ⟨denial, rfl, byListScopeOrRisk gate profile tool ctx (.inl hlist)⟩
  | none =>
    cases hrisk : gate.riskDenial profile tool with
    | some denial =>
      simp only [Option.isSome_some, or_true, iff_true]
      exact ⟨denial, rfl, byListScopeOrRisk gate profile tool ctx (.inr hrisk)⟩
    | none =>
      simp only [Option.isSome_none, Bool.false_eq_true, or_self, iff_false]
      rintro ⟨denial, heq, hby⟩
      have hlater := @not_byListScopeOrRisk gate hostname now args ctx denial
      -- past the first three steps only the budget, the arguments or the caller deny
      cases hbudget : (gate.checkBudget now ctx).1 with rw [hbudget] at heq
      | error =>
        cases heq
        exact hlater (.inl hbudget) hby
      | ok =>
        cases hargs : (gate.pathDenial args).or (gate.domainDenial hostname args) with rw [hargs] at heq
        | some =>
          cases heq
          exact hlater (.inr hargs) hby
        | none =>
          dsimp only at heq
          split at heq
          · cases heq; exact hby
          · split at heq <;> cases heq; exact hby

end

theorem profileOf_later {gate gate' : PolicyGate} (h : gate.Later gate') {tool : ToolDefinition}
    {profile : ToolRiskProfile} (hcached : gate.profileCache tool.name = some profile) :
    gate'.profileOf tool = gate.profileOf tool := by
  unfold profileOf
  rw [h.cached _ _ hcached, hcached]
  rfl

theorem aboveCeiling_offered {gate : PolicyGate} {risk : Risk}
    (h : gate.hasBands = true ∨ risk.atMost gate.getEffectiveMaxRisk = true) :
    gate.AboveCeiling risk ↔ gate.hasBands = true ∧
      ∃ denyAbove, gate.config.denyAbove = some denyAbove ∧ risk.above denyAbove = true := by
  unfold hasBands at h ⊢
  unfold PolicyGate.AboveCeiling
  cases habove : gate.config.requireApprovalAbove <;> cases hdeny : gate.config.denyAbove <;>
    simp [habove, hdeny] at h ⊢ <;> exact h

theorem above_atMost {risk : Risk} {limit : RiskLevel} (h : risk.atMost limit = true) :
    risk.above limit = false := by
  cases risk with
  | inherited => rfl
  | level =>
    unfold Risk.atMost at h
    simp only [decide_eq_true_eq] at h
    exact decide_eq_false (by omega)

/-- **Offer and enforcement.**  A tool that is offered is not listed out; within the maximum
    risk, or with the bands set, it is then denied by list, scope or risk only outside the
    delegated scope or above the deny band, and a tool offered under a grant with the bands set
    not at all.  And whatever was offered, a tool on the deny list, out of the scope or above
    the enforced ceiling is denied. -/
theorem offer_and_enforcement (gate : PolicyGate) (hostname : String → Option String) (now : Int)
    (tool : ToolDefinition) (args : ToolArgs) (ctx : TurnContext) (noApprovalChannel : Bool) :
    (∀ tools gate', tool ∈ (gate.filterTools ctx tools).1 →
      (gate.filterTools ctx tools).2.Later gate' →
      gate.denyListed tool = false ∧ gate.offAllowList tool = false ∧
      (gate.hasBands = true ∨ (gate'.profileOf tool).risk.atMost gate.getEffectiveMaxRisk = true →
        ((∃ denial, (gate'.validate hostname now tool args ctx noApprovalChannel).1
            = .denied denial ∧ denial.ByListScopeOrRisk) ↔
          ¬ InScope tool ctx ∨ gate.hasBands = true ∧ ∃ denyAbove,
            gate.config.denyAbove = some denyAbove ∧
              (gate'.profileOf tool).risk.above denyAbove = true)) ∧
      (gate.hasBands = true → (gate'.profileOf tool).risk.atMost gate.getEffectiveMaxRisk = false →
        ¬ ∃ denial, (gate'.validate hostname now tool args ctx noApprovalChannel).1
            = .denied denial ∧ denial.ByListScopeOrRisk)) ∧
    (gate.denyListed tool = true ∨ ¬ InScope tool ctx ∨
        (gate.AboveCeiling (gate.profileOf tool).risk ∧
          (gate.hasBands = true ∨ ¬ CoveringGrant tool ctx)) →
      ∃ denial, (gate.validate hostname now tool args ctx noApprovalChannel).1
          = .denied denial ∧ denial.ByListScopeOrRisk) := by
  have hvalidate : ∀ g : PolicyGate, (g.validate hostname now tool args ctx noApprovalChannel).1
      = g.evaluate hostname now (g.profileOf tool) tool args ctx noApprovalChannel := fun _ => rfl
  constructor
  · intro tools gate' hoffered hlater
    obtain ⟨hconfig, -, hspec⟩ := filterTools_spec ctx tools gate
    have hcached := filterTools_cached ctx tools gate tool
    obtain ⟨hmem, hoffers⟩ := (hspec tool).mp hoffered
    have hin : gate.listedOut tool = false := by
      by_contra hout
      rw [offers_listedOut (by simpa using hout)] at hoffers
      cases hoffers
    obtain ⟨profile, hprofile⟩ := hcached hmem hin
    rw [← profileOf_later hlater hprofile] at hoffers
    have hsame : gate'.config = gate.config := hlater.config.trans hconfig
    obtain ⟨hdeny, hallow⟩ : gate.denyListed tool = false ∧ gate.offAllowList tool = false := by
      simpa [PolicyGate.listedOut] using hin
    have hdeny' : gate'.denyListed tool = false := by
      unfold PolicyGate.denyListed at hdeny ⊢
      rw [hsame]
      exact hdeny
    have hbands : gate'.hasBands = gate.hasBands := by
      unfold PolicyGate.hasBands
      rw [hsame]
    have hmax : gate'.getEffectiveMaxRisk = gate.getEffectiveMaxRisk := by
      unfold PolicyGate.getEffectiveMaxRisk
      rw [hsame]
    refine ⟨hdeny, hallow, ?hiff, (fun hiff hbanded hover hfenced => ?_) ?hiff⟩
    case hiff =>
      intro hceiling
      rw [hvalidate, fenced_iff, hdeny', ← hbands, ← hsame]
      rw [← hbands, ← hmax] at hceiling
      rw [aboveCeiling_offered hceiling]
      simp
    -- it was offered under the grant
    obtain ⟨hcovers, hband⟩ : grantCoversTool ctx tool.name = true ∧
        ∀ denyAbove, gate.config.denyAbove = some denyAbove →
          (gate'.profileOf tool).risk.atMost denyAbove = true := by
      unfold PolicyGate.offers isToolAllowed at hoffers
      simp only [hover, Bool.false_or, Bool.and_eq_true, Option.all_eq_true] at hoffers
      exact ⟨hoffers.2.1.1.2, hoffers.2.2⟩
    rcases (hiff (.inl hbanded)).mp hfenced with hscope | ⟨-, denyAbove, hset, habove⟩
    · apply hscope
      intro scope heq
      unfold grantCoversTool at hcovers
      simpa [heq] using hcovers
    · rw [above_atMost (hband denyAbove hset)] at habove
      cases habove
  · intro h
    rw [hvalidate, fenced_iff]
    rcases h with h | h | ⟨h, -⟩
    · exact .inl h
    · exact .inr (.inl h)
    · exact .inr (.inr h)

/-- Operator mode with the three bands, and with a maximum risk below them. -/
def bandedGate (maxRiskLevel : Option RiskLevel) : PolicyGate where
  config :=
    ⟨true, maxRiskLevel, some .R1_DRAFT, some .R3_EXECUTE, none, none, none, none, none, none⟩
  budget := DEFAULT_BUDGET
  lastResetAt := 0
  profileCache _ := none

def stripeCheckout : ToolDefinition := ⟨"stripe_checkout", "Checkout", none, none, none, none⟩

def writeFile : ToolDefinition := ⟨"write_file", "Write file", none, none, none, none⟩

/-- **Offer and enforcement differ**: operator mode offers a money tool the deny band refuses
    and a draft the delegated scope does not cover, and under a maximum risk of R1 the bands
    let through a write that is not offered. -/
theorem offer_differs :
    (stripeCheckout ∈ ((bandedGate none).filterTools ownerTurn [stripeCheckout]).1 ∧
      (((bandedGate none).filterTools ownerTurn [stripeCheckout]).2.validate (fun _ => none) 0
          stripeCheckout ⟨none, none⟩ ownerTurn false).1
        = .denied (.denyThreshold "stripe_checkout" (.level .R4_MONEY) .R3_EXECUTE)) ∧
    (draftEmail ∈ ((bandedGate none).filterTools
          { ownerTurn with delegationScope := some "web_search" } [draftEmail]).1 ∧
      (((bandedGate none).filterTools ownerTurn [draftEmail]).2.validate (fun _ => none) 0
          draftEmail ⟨none, none⟩ { ownerTurn with delegationScope := some "web_search" } false).1
        = .denied (.scope "draft_email" "web_search")) ∧
    (writeFile ∉ ((bandedGate (some .R1_DRAFT)).filterTools ownerTurn [writeFile]).1 ∧
      ((bandedGate (some .R1_DRAFT)).validate (fun _ => none) 0 writeFile ⟨none, none⟩
        ownerTurn false).1.rank = 1) := by
  decide +kernel

end Motebit.Policy
