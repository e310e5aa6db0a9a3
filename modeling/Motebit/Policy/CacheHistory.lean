/-
  Motebit.Policy.CacheHistory — WHAT A DECISION REMEMBERS.

  The gate classifies a definition and keeps the profile under the definition's name alone.
  A history of calls therefore reaches a decision through one definition: the first it
  classified under the tool's name.  Two histories decide alike exactly where these two
  definitions classify alike.

  Main results: `profileOf_after`, `sameDecision_iff`.
-/

import Motebit.Policy.GateLaws

namespace Motebit.Policy

open List

open PolicyGate PolicyGate

/-! ## §1. Histories -/

inductive GateCall
  | classify (tool : ToolDefinition)
  | filterTools (ctx : TurnContext) (tools : List ToolDefinition)
  | validate (now : Int) (tool : ToolDefinition) (args : ToolArgs) (ctx : TurnContext)
      (noApprovalChannel : Bool)

def PolicyGate.call (hostname : String → Option String) (gate : PolicyGate) : GateCall → PolicyGate
  | .classify tool => (gate.classify tool).2
  | .filterTools ctx tools => (gate.filterTools ctx tools).2
  | .validate now tool args ctx noApprovalChannel =>
    (gate.validate hostname now tool args ctx noApprovalChannel).2

def PolicyGate.after (hostname : String → Option String) (gate : PolicyGate)
    (history : List GateCall) : PolicyGate :=
  history.foldl (PolicyGate.call hostname) gate

def PolicyGate.new (config : PolicyConfig) (budget : BudgetConfig) (now : Int) : PolicyGate :=
  ⟨config, budget, now, fun _ => none⟩

/-- The definition a call classifies under a name, if it is the first.  `filterTools` skips the
    names that the lists leave out. -/
def GateCall.classifies (listedOut : Bool) (name : String) : GateCall → Option ToolDefinition
  | .classify tool => if tool.name = name then some tool else none
  | .filterTools _ tools =>
    if listedOut then none else tools.find? fun tool => tool.name = name
  | .validate _ tool _ _ _ => if tool.name = name then some tool else none

def firstClassified (listedOut : Bool) (name : String) (history : List GateCall) :
    Option ToolDefinition :=
  history.findSome? (GateCall.classifies listedOut name)

/-- The two definitions have the same risk, and the same approval. -/
def ClassifyAlike (d d' : ToolDefinition) : Prop :=
  (classifyTool d).risk = (classifyTool d').risk ∧
    (classifyTool d).requiresApproval = (classifyTool d').requiresApproval

instance (d d' : ToolDefinition) : Decidable (ClassifyAlike d d') :=
  inferInstanceAs (Decidable (_ ∧ _))

/-! ## §2. The cache along a history -/

section

variable {hostname : String → Option String} {gate : PolicyGate}

@[simp] theorem classify_config (tool : ToolDefinition) :
    (gate.classify tool).2.config = gate.config := rfl

theorem listedOut_of_name {tool tool' : ToolDefinition} (h : tool.name = tool'.name) :
    gate.listedOut tool = gate.listedOut tool' := by
  unfold listedOut denyListed offAllowList
  rw [h]

theorem freshProfile_of_config {gate' : PolicyGate} (h : gate.config = gate'.config)
    (tool : ToolDefinition) : gate.freshProfile tool = gate'.freshProfile tool := by
  unfold freshProfile
  rw [h]

theorem classify_cache (tool : ToolDefinition) (name : String) :
    (gate.classify tool).2.profileCache name = (gate.profileCache name).or
        ((if tool.name = name then some tool else none).map gate.freshProfile) := by
  unfold classify profileOf
  by_cases hname : name = tool.name
  · subst hname
    cases gate.profileCache tool.name <;> simp
  · have hne : ¬ tool.name = name := fun h => hname h.symm
    simp [hname, hne]

theorem filterTools_budget (ctx : TurnContext) (tools : List ToolDefinition) (gate : PolicyGate) :
    (gate.filterTools ctx tools).2.budget = gate.budget := by
  induction tools generalizing gate with
  | nil => rfl
  | cons head rest ih =>
    cases hout : gate.listedOut head with
    | true =>
      rw [filterTools_listedOut hout]
      exact ih gate
    | false =>
      rw [filterTools_classified hout]
      exact ih (gate.classify head).2

theorem filterTools_cache (ctx : TurnContext) (tools : List ToolDefinition) (gate : PolicyGate)
    {probe : ToolDefinition} : (gate.filterTools ctx tools).2.profileCache probe.name =
      (gate.profileCache probe.name).or
        (((GateCall.filterTools ctx tools).classifies (gate.listedOut probe) probe.name).map
          gate.freshProfile) := by
  induction tools generalizing gate with
  | nil => simp [filterTools, GateCall.classifies]
  | cons head rest ih =>
    cases hout : gate.listedOut head with
    | true =>
      rw [filterTools_listedOut hout, ih gate]
      by_cases hname : head.name = probe.name
      · -- the name of the head is left out
        rw [listedOut_of_name hname] at hout
        simp [GateCall.classifies, hout]
      · simp [GateCall.classifies, hname]
    | false =>
      have hrest := ih (gate.classify head).2
      have hlisted : (gate.classify head).2.listedOut probe = gate.listedOut probe := rfl
      have hfresh : (gate.classify head).2.freshProfile = gate.freshProfile := rfl
      rw [filterTools_classified hout]
      show ((gate.classify head).2.filterTools ctx rest).2.profileCache probe.name = _
      rw [hrest, hlisted, hfresh, classify_cache]
      by_cases hname : head.name = probe.name
      · rw [listedOut_of_name hname] at hout
        simp [GateCall.classifies, hout, hname]
      · simp [GateCall.classifies, hname]

/-- **One call**: configuration and budget stay, and a name is cached once. -/
theorem call_spec (gate : PolicyGate) (c : GateCall) (probe : ToolDefinition) :
    (gate.call hostname c).config = gate.config ∧ (gate.call hostname c).budget = gate.budget ∧
      (gate.call hostname c).profileCache probe.name = (gate.profileCache probe.name).or
          ((c.classifies (gate.listedOut probe) probe.name).map gate.freshProfile) := by
  cases c with
  | classify tool => exact ⟨rfl, rfl, classify_cache tool probe.name⟩
  | filterTools ctx tools =>
    exact ⟨(filterTools_spec ctx tools gate).1, filterTools_budget ctx tools gate,
      filterTools_cache ctx tools gate⟩
  | validate now tool =>
    -- the budget's reset is no part of the cache
    have hcache := @classify_cache gate tool probe.name
    unfold call validate
    dsimp only
    split
    · exact ⟨rfl, rfl, hcache⟩
    · exact ⟨rfl, rfl, hcache⟩

/-- **A history**: the cache has the first definition that was classified under the name. -/
theorem after_spec (probe : ToolDefinition) (history : List GateCall) (gate : PolicyGate) :
    (gate.after hostname history).config = gate.config ∧
      (gate.after hostname history).budget = gate.budget ∧
      (gate.after hostname history).profileCache probe.name = (gate.profileCache probe.name).or
          ((firstClassified (gate.listedOut probe) probe.name history).map gate.freshProfile) := by
  induction history generalizing gate with
  | nil => simp [PolicyGate.after, firstClassified]
  | cons c history ih =>
    obtain ⟨hconfig, hbudget, hcache⟩ := call_spec gate c probe
    obtain ⟨hconfig', hbudget', hcache'⟩ := ih (gate.call hostname c)
    have hlisted : (gate.call hostname c).listedOut probe = gate.listedOut probe := by
      unfold listedOut denyListed offAllowList
      rw [hconfig]
    have hfresh : (gate.call hostname c).freshProfile = gate.freshProfile :=
      funext fun tool => freshProfile_of_config hconfig tool
    refine ⟨hconfig'.trans hconfig, hbudget'.trans hbudget, ?_⟩
    show ((gate.call hostname c).after hostname history).profileCache probe.name = _
    rw [hcache', hcache, hlisted, hfresh, Option.or_assoc]
    congr 1
    unfold firstClassified
    rw [findSome?_cons]
    cases GateCall.classifies (gate.listedOut probe) probe.name c <;> simp

end

section

variable (hostname : String → Option String) (config : PolicyConfig) (budget : BudgetConfig)
  (started : Int) (history : List GateCall) (tool : ToolDefinition)

/-- **The profile of a tool after a history.** -/
theorem profileOf_after : ((new config budget started).after hostname history).profileOf tool =
      (new config budget started).freshProfile
        ((firstClassified ((new config budget started).listedOut tool) tool.name
          history).getD tool) := by
  obtain ⟨hconfig, -, hcache⟩ := after_spec tool history (new config budget started)
  unfold profileOf
  rw [hcache]
  have hfresh := freshProfile_of_config hconfig tool
  cases hfirst : firstClassified ((new config budget started).listedOut tool) tool.name history with
  | none => simpa [new, hfirst] using hfresh
  | some => simp [new]

/-! ## §3. Decisions -/

theorem evaluate_congr {gate gate' : PolicyGate} {profile profile' : ToolRiskProfile}
    (hconfig : gate.config = gate'.config) (hbudget : gate.budget = gate'.budget)
    (hreset : gate.lastResetAt = gate'.lastResetAt) (hrisk : profile.risk = profile'.risk)
    (happroval : profile.requiresApproval = profile'.requiresApproval) (now : Int)
    (args : ToolArgs) (ctx : TurnContext) (noApprovalChannel : Bool) :
    gate.evaluate hostname now profile tool args ctx noApprovalChannel =
      gate'.evaluate hostname now profile' tool args ctx noApprovalChannel := by
  obtain ⟨c, b, l, cache⟩ := gate
  obtain ⟨risk, dataClass, sideEffect, approval⟩ := profile
  subst hconfig hbudget hreset hrisk happroval
  rfl

/-- The decision for a tool after a history, in a budget state. -/
def decisionAfter (lastResetAt now : Int) (args : ToolArgs) (ctx : TurnContext)
    (noApprovalChannel : Bool) : PolicyDecision :=
  (PolicyGate.validate { (PolicyGate.new config budget started).after hostname history with
      lastResetAt := lastResetAt }
    hostname now tool args ctx noApprovalChannel).1

theorem decisionAfter_eq (lastResetAt now : Int) (args : ToolArgs) (ctx : TurnContext)
    (noApprovalChannel : Bool) :
    decisionAfter hostname config budget started history tool lastResetAt now args ctx
        noApprovalChannel = (new config budget lastResetAt).evaluate hostname now
        ((new config budget started).freshProfile
          ((firstClassified ((new config budget started).listedOut tool) tool.name
            history).getD tool)) tool args ctx noApprovalChannel := by
  obtain ⟨hconfig, hbudget, -⟩ := @after_spec hostname tool history (new config budget started)
  have hprofile := profileOf_after hostname config budget started history tool
  rw [← hprofile]
  apply evaluate_congr
  · exact hconfig
  · exact hbudget
  · rfl
  · rfl
  · rfl

theorem freshProfile_alike (gate : PolicyGate) {d d' : ToolDefinition} (hname : d.name = d'.name)
    (halike : ClassifyAlike d d') :
    (gate.freshProfile d).risk = (gate.freshProfile d').risk ∧
      (gate.freshProfile d).requiresApproval = (gate.freshProfile d').requiresApproval := by
  obtain ⟨hrisk, happroval⟩ := halike
  unfold freshProfile
  rw [hname]
  cases gate.config.riskOverrides.bind fun overrides => lookupRisk overrides d'.name with
  | none => exact ⟨hrisk, happroval⟩
  | some =>
    refine ⟨rfl, ?_⟩
    show ((classifyTool d).requiresApproval || _) = ((classifyTool d').requiresApproval || _)
    rw [happroval]

theorem firstClassified_name {listedOut : Bool} {name : String} {d : ToolDefinition}
    (h : firstClassified listedOut name history = some d) : d.name = name := by
  obtain ⟨c, -, hc⟩ := exists_of_findSome?_eq_some h
  cases c with simp only [GateCall.classifies] at hc
  | filterTools =>
    split_ifs at hc
    have hfound := find?_some hc
    exact of_decide_eq_true hfound
  | classify tool | validate now tool args ctx noApprovalChannel =>
    split_ifs at hc with hname
    cases hc
    exact hname

def judgedBy (listedOut : Bool) : ToolDefinition :=
  (firstClassified listedOut tool.name history).getD tool

theorem judgedBy_name (listedOut : Bool) : (judgedBy history tool listedOut).name = tool.name := by
  unfold judgedBy
  cases hfirst : firstClassified listedOut tool.name history with
  | none => rfl
  | some => exact firstClassified_name history hfirst

end

/-! ## §4. Two histories -/

/-- Two histories decide a tool alike, in every gate, budget state and turn. -/
def SameDecision (tool : ToolDefinition) (history history' : List GateCall) : Prop :=
  ∀ hostname config budget started lastResetAt now args ctx noApprovalChannel,
    decisionAfter hostname config budget started history tool lastResetAt now args ctx
        noApprovalChannel =
      decisionAfter hostname config budget started history' tool lastResetAt now args ctx
        noApprovalChannel

/-- A gate without bands, lists and overrides, but for an allow list that may leave out all. -/
def plainConfig (maxRiskLevel : RiskLevel) (listedOut : Bool) : PolicyConfig :=
  ⟨true, some maxRiskLevel, none, none, if listedOut then some [] else none, none, none, none,
    none, none⟩

theorem listedOut_plainConfig (maxRiskLevel : RiskLevel) (listedOut : Bool) (budget : BudgetConfig)
    (started : Int) (tool : ToolDefinition) :
    (new (plainConfig maxRiskLevel listedOut) budget started).listedOut tool = listedOut := by
  cases listedOut <;> rfl

theorem evaluate_plainConfig (level : RiskLevel) (listedOut : Bool) (tool : ToolDefinition)
    (profile : ToolRiskProfile) :
    (new (plainConfig level listedOut) DEFAULT_BUDGET 0).evaluate (fun _ => none) 0
        profile tool ⟨none, none⟩ ownerTurn false =
      if isToolAllowed profile level then
        let needed := profile.risk.atLeast .R4_MONEY || profile.requiresApproval
        .allowed needed ⟨10, 120000, -1⟩ none
          (if needed then raiseDelta profile ownerTurn none else none)
      else .denied (.maxRisk tool.name profile.risk level) := by
  have hrisk : (new (plainConfig level listedOut) DEFAULT_BUDGET 0).riskDenial profile tool =
      if isToolAllowed profile level then none
      else some (.maxRisk tool.name profile.risk level) := rfl
  have hturn : (new (plainConfig level listedOut) DEFAULT_BUDGET 0).turnDenial (fun _ => none) 0
      profile tool ⟨none, none⟩ ownerTurn = if isToolAllowed profile level then
        .ok ⟨10, 120000, -1⟩ else .error (.maxRisk tool.name profile.risk level) := by
    unfold turnDenial
    rw [hrisk]
    cases isToolAllowed profile level <;> rfl
  unfold evaluate
  rw [hturn]
  cases hallowed : isToolAllowed profile level with
  | false => rfl
  | true =>
    cases hmoney : profile.risk.atLeast .R4_MONEY <;>
      simp [needsApproval, trustAdjusted, typeAdjusted, floored, remoteCaller,
        moneyAdjusted, ownerApproval, quorumMeta, ownerTurn, plainConfig,
        new, hmoney]

theorem classifyTool_approval {d : ToolDefinition} {r : RiskLevel}
    (hrisk : (classifyTool d).risk = .level r) (hle : 2 ≤ r.num) :
    (classifyTool d).requiresApproval = true := by
  have hr : d.riskHint.getD (firstRule RISK_RULES (d.name ++ " " ++ d.description) .R0_READ) = r :=
    Risk.level.inj hrisk
  unfold classifyTool
  dsimp only
  rw [hr, decide_eq_true hle, Bool.or_true]

theorem alike_of_decisions (tool : ToolDefinition) {d d' : ToolDefinition} (listedOut : Bool)
    (h : ∀ level : RiskLevel,
      (new (plainConfig level listedOut) DEFAULT_BUDGET 0).evaluate (fun _ => none) 0
          (classifyTool d) tool ⟨none, none⟩ ownerTurn false =
        (new (plainConfig level listedOut) DEFAULT_BUDGET 0).evaluate (fun _ => none) 0
          (classifyTool d') tool ⟨none, none⟩ ownerTurn false) : ClassifyAlike d d' := by
  obtain ⟨r, hr⟩ : ∃ r, (classifyTool d).risk = .level r := ⟨_, rfl⟩
  obtain ⟨r', hr'⟩ : ∃ r', (classifyTool d').risk = .level r' := ⟨_, rfl⟩
  -- under the limit R0 a denial carries the risk
  have hrisk : r = r' := by
    have hread := h .R0_READ
    rw [evaluate_plainConfig, evaluate_plainConfig] at hread
    unfold isToolAllowed at hread
    rw [hr, hr'] at hread
    cases r <;> cases r' <;> first | rfl | simp [Risk.atMost, RiskLevel.num] at hread
  subst hrisk
  refine ⟨hr.trans hr'.symm, ?_⟩
  by_cases hle : 2 ≤ r.num
  · rw [classifyTool_approval hr hle, classifyTool_approval hr' hle]
  · -- under the limit R4 both are allowed, and ask as their profiles say
    have hmoney := h .R4_MONEY
    rw [evaluate_plainConfig, evaluate_plainConfig] at hmoney
    have hbelow : Risk.atLeast (.level r) .R4_MONEY = false := by
      cases r <;> first | rfl | exact absurd (by decide) hle
    have hwithin : Risk.atMost (.level r) .R4_MONEY = true := by
      cases r <;> rfl
    unfold isToolAllowed at hmoney
    rw [hr, hr', hwithin, hbelow] at hmoney
    simp only [if_true, Bool.false_or, PolicyDecision.allowed.injEq] at hmoney
    exact hmoney.1

/-- **When two histories decide a tool alike**: exactly where the definitions they judge it by
    classify alike, whether or not the lists leave its name out. -/
theorem sameDecision_iff (tool : ToolDefinition) (history history' : List GateCall) :
    SameDecision tool history history' ↔
      ∀ listedOut, ClassifyAlike (judgedBy history tool listedOut)
        (judgedBy history' tool listedOut) := by
  constructor
  · intro h listedOut
    apply alike_of_decisions tool listedOut
    intro level
    have hdecision := h (fun _ => none) (plainConfig level listedOut) DEFAULT_BUDGET 0 0 0
      ⟨none, none⟩ ownerTurn false
    rwa [decisionAfter_eq, decisionAfter_eq, listedOut_plainConfig] at hdecision
  · intro h hostname config budget started lastResetAt now args ctx noApprovalChannel
    rw [decisionAfter_eq, decisionAfter_eq]
    have hname := (judgedBy_name history tool
        ((PolicyGate.new config budget started).listedOut tool)).trans
      (judgedBy_name history' tool ((PolicyGate.new config budget started).listedOut tool)).symm
    have halike := h ((PolicyGate.new config budget started).listedOut tool)
    obtain ⟨hrisk, happroval⟩ := freshProfile_alike (PolicyGate.new config budget started) hname
      halike
    exact evaluate_congr hostname tool rfl rfl rfl hrisk happroval now args ctx noApprovalChannel

/-- A local tool that reads, and a remote one of the same name that moves money. -/
def localFetch : ToolDefinition := ⟨"fetch", "Fetch a page", none, some .R0_READ, none, none⟩

def remoteFetch : ToolDefinition := ⟨"fetch", "Pay for a page", none, some .R4_MONEY, none, none⟩

/-- **The name alone is remembered**: on the owner's turn the gate that has seen nothing asks
    before the remote tool pays, and the gate that has classified the local one does not. -/
theorem remoteFetch_after_localFetch :
    decisionAfter (fun _ => none) (plainConfig .R4_MONEY false) DEFAULT_BUDGET 0 [] remoteFetch 0 0
        ⟨none, none⟩ ownerTurn false =
      .allowed true ⟨10, 120000, -1⟩ none (some (.grantRequiredDelta (.level .R4_MONEY))) ∧
    decisionAfter (fun _ => none) (plainConfig .R4_MONEY false) DEFAULT_BUDGET 0
        [.classify localFetch] remoteFetch 0 0 ⟨none, none⟩ ownerTurn false =
      .allowed false ⟨10, 120000, -1⟩ none none := by
  decide +kernel

end Motebit.Policy
