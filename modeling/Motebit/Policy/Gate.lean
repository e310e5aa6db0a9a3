/-
  Motebit.Policy.Gate — THE POLICY GATE: what a turn is offered and what it may call.

  Translated from `packages/policy/src/risk-model.ts`, `budget.ts` and `policy-gate.ts`.  A tool
  call is denied, needs the owner's approval, or executes; `evaluate` runs the source's ten
  steps in their order, each under its own name.  The hostname of a URL (`new URL(…)`) is a
  parameter, and the clock is an argument.
-/

import Motebit.Lib.Js

namespace Motebit.Policy

open Motebit.Lib

/-! ## §1. Risk -/

inductive RiskLevel
  | R0_READ | R1_DRAFT | R2_WRITE | R3_EXECUTE | R4_MONEY
  deriving DecidableEq

namespace RiskLevel

def num : RiskLevel → Nat
  | .R0_READ => 0
  | .R1_DRAFT => 1
  | .R2_WRITE => 2
  | .R3_EXECUTE => 3
  | .R4_MONEY => 4

def text : RiskLevel → String
  | .R0_READ => "R0_READ"
  | .R1_DRAFT => "R1_DRAFT"
  | .R2_WRITE => "R2_WRITE"
  | .R3_EXECUTE => "R3_EXECUTE"
  | .R4_MONEY => "R4_MONEY"

end RiskLevel

/-- The risk of a profile.  An override is looked up in a plain object, so a tool may carry a
    member's name and get the inherited function for a risk. -/
inductive Risk
  | level (r : RiskLevel)
  | inherited
  deriving DecidableEq

namespace Risk

/-- `risk > level`; a function compares as NaN. -/
def above : Risk → RiskLevel → Bool
  | .level r, l => l.num < r.num
  | .inherited, _ => false

def atMost : Risk → RiskLevel → Bool
  | .level r, l => r.num ≤ l.num
  | .inherited, _ => false

def atLeast : Risk → RiskLevel → Bool
  | .level r, l => l.num ≤ r.num
  | .inherited, _ => false

def text : Risk → String
  | .level r => r.text
  | .inherited => "undefined"

end Risk

inductive DataClass
  | PUBLIC | PRIVATE | SECRET
  deriving DecidableEq

inductive SideEffect
  | NONE | REVERSIBLE | IRREVERSIBLE
  deriving DecidableEq

/-- `ToolDefinition`, as far as the gate reads it. -/
structure ToolDefinition where
  name : String
  description : String
  requiresApproval : Option Bool
  riskHint : Option RiskLevel
  dataClassHint : Option DataClass
  sideEffectHint : Option SideEffect
  deriving DecidableEq

structure ToolRiskProfile where
  risk : Risk
  dataClass : DataClass
  sideEffect : SideEffect
  requiresApproval : Bool
  deriving DecidableEq

/-- `\w`. -/
def isWordChar (c : Char) : Bool := c.isAlphanum || c == '_'

/-- The maximal runs of word characters of a text, in lower case. -/
def wordsOf (text : List Char) : List (List Char) :=
  go [] text
where
  go (run : List Char) : List Char → List (List Char)
    | [] => [run.reverse]
    | c :: rest => if isWordChar c then go (c.toLower :: run) rest else run.reverse :: go [] rest

/-- `/\b(…|…)\b/i.test(text)`: some word of the text is one of the list. -/
def matchesRule (words : List String) (text : String) : Bool :=
  (wordsOf text.toList).any fun w => words.any fun word => word.toList == w

def RISK_RULES : List (List String × RiskLevel) :=
  [(["pay", "payment", "charge", "invoice", "refund", "transfer", "checkout", "stripe", "billing"],
      .R4_MONEY),
    (["shell", "exec", "run", "command", "deploy", "restart", "kill"], .R3_EXECUTE),
    (["write", "rewrite", "rewrites", "rewriting", "rewritten", "overwrite", "overwrites",
      "overwriting", "overwritten", "supersede", "supersedes", "superseded", "superseding",
      "forget", "prune", "erase", "create", "update", "delete", "remove", "send", "post", "push",
      "merge"], .R2_WRITE),
    (["draft", "compose", "generate", "suggest", "plan", "prepare", "format"], .R1_DRAFT),
    (["read", "get", "list", "search", "fetch", "query", "recall", "check", "view", "browse"],
      .R0_READ)]

def DATA_CLASS_RULES : List (List String × DataClass) :=
  [(["secret", "credential", "token", "password", "key", "seed", "ssn", "private_key"], .SECRET),
    (["personal", "private", "memory", "calendar", "email", "inbox", "contact", "photo"], .PRIVATE)]

def firstRule {α : Type} (rules : List (List String × α)) (text : String) (default : α) : α :=
  ((rules.find? fun rule => matchesRule rule.1 text).map Prod.snd).getD default

def classifyTool (tool : ToolDefinition) : ToolRiskProfile :=
  let text := tool.name ++ " " ++ tool.description
  let risk := tool.riskHint.getD (firstRule RISK_RULES text .R0_READ)
  { risk := .level risk
    dataClass := tool.dataClassHint.getD (firstRule DATA_CLASS_RULES text .PUBLIC)
    sideEffect := tool.sideEffectHint.getD
      (if 3 ≤ risk.num then .IRREVERSIBLE else if 2 ≤ risk.num then .REVERSIBLE else .NONE)
    requiresApproval := tool.requiresApproval == some true || decide (2 ≤ risk.num) }

def isToolAllowed (profile : ToolRiskProfile) (maxRisk : RiskLevel) : Bool :=
  profile.risk.atMost maxRisk

/-! ## §2. Configuration and turns -/

structure BudgetConfig where
  maxCallsPerTurn : Int
  maxTurnDurationMs : Int
  maxCostPerTurn : Int
  resetAfterSeconds : Int
  deriving DecidableEq

def DEFAULT_BUDGET : BudgetConfig := ⟨10, 120000, 0, 3600⟩

structure ApprovalQuorum where
  threshold : Int
  approvers : List String
  riskFloor : Option String
  deriving DecidableEq

/-- `PolicyConfig`.  An absent list is `undefined`; `riskOverrides` lists the object's own
    entries. -/
structure PolicyConfig where
  operatorMode : Bool
  maxRiskLevel : Option RiskLevel
  requireApprovalAbove : Option RiskLevel
  denyAbove : Option RiskLevel
  toolAllowList : Option (List String)
  toolDenyList : Option (List String)
  pathAllowList : Option (List String)
  domainAllowList : Option (List String)
  riskOverrides : Option (List (String × RiskLevel))
  approvalQuorum : Option ApprovalQuorum
  deriving DecidableEq

inductive AgentTrustLevel
  | Unknown | FirstContact | Verified | Trusted | Blocked
  deriving DecidableEq

/-- `TurnContext`, as far as the gate reads it; of the verified grant it reads that there is
    one. -/
structure TurnContext where
  toolCallCount : Int
  turnStartMs : Int
  costAccumulated : Int
  callerMotebitId : Option String
  callerTrustLevel : Option AgentTrustLevel
  remoteMotebitType : Option String
  delegationScope : Option String
  verifiedGrant : Bool
  deriving DecidableEq

/-- The arguments the gate reads, where they are strings. -/
structure ToolArgs where
  path : Option String
  url : Option String
  deriving DecidableEq

/-- `PolicyGate`: its configuration, its budget's last reset and its cache of profiles. -/
structure PolicyGate where
  config : PolicyConfig
  budget : BudgetConfig
  lastResetAt : Int
  profileCache : String → Option ToolRiskProfile

/-! ## §3. Decisions -/

/-- What a budget has left. -/
structure BudgetRemaining where
  calls : Int
  timeMs : Int
  cost : Int
  deriving DecidableEq

/-- Why a call was denied. -/
inductive Denial
  | denyList (tool : String)
  | scope (tool scope : String)
  | denyThreshold (tool : String) (risk : Risk) (denyAbove : RiskLevel)
  | maxRisk (tool : String) (risk : Risk) (maxRisk : RiskLevel)
  | budget (reason : String) (remaining : BudgetRemaining)
  | path (path : String)
  | invalidUrl (url : String)
  | domain (hostname : String)
  | blocked (caller : Option String)
  | noApprovalChannel (tool : String)
  deriving DecidableEq

def Denial.reason : Denial → String
  | .denyList tool => "Tool \"" ++ tool ++ "\" is on the deny list"
  | .scope tool delegated =>
      "Tool \"" ++ tool ++ "\" is outside delegated scope \"" ++ delegated ++ "\""
  | .denyThreshold tool risk denyAbove =>
      "Tool \"" ++ tool ++ "\" risk " ++ risk.text ++ " exceeds deny threshold " ++ denyAbove.text
  | .maxRisk tool risk limit =>
      "Tool \"" ++ tool ++ "\" requires risk level " ++ risk.text ++ " but max allowed is "
        ++ limit.text ++ ". Enable Operator Mode for higher-risk tools."
  | .budget text _ => text
  | .path p => "Path \"" ++ p ++ "\" is outside allowed paths"
  | .invalidUrl url => "Invalid URL \"" ++ url ++ "\" — cannot verify domain allowlist"
  | .domain host => "Domain \"" ++ host ++ "\" is not in the allowed domains list"
  | .blocked caller => "Caller \"" ++ caller.getD "unknown" ++ "\" is blocked"
  | .noApprovalChannel tool =>
      "Tool \"" ++ tool ++ "\" requires the owner's approval — not available to another "
        ++ "principal's task"

/-- The residual a decision names (`authority-delta.ts`). -/
inductive MissingAuthority
  | scopeDelta (toolName : String)
  | postureDelta (requiredRisk : Risk) (postureCeiling : RiskLevel)
  | grantRequiredDelta (requiredRisk : Risk)
  | quorumShortfallDelta (shortfall : Int)
  deriving DecidableEq

def Denial.missingAuthority : Denial → Option MissingAuthority
  | .scope tool _ => some (.scopeDelta tool)
  | .denyThreshold _ risk denyAbove => some (.postureDelta risk denyAbove)
  | .maxRisk _ risk limit => some (.postureDelta risk limit)
  | _ => none

/-- The quorum a decision attaches; no approval is collected yet. -/
structure QuorumMeta where
  required : Int
  approvers : List String
  deriving DecidableEq

inductive PolicyDecision
  | denied (denial : Denial)
  | allowed (requiresApproval : Bool) (budgetRemaining : BudgetRemaining)
      (quorum : Option QuorumMeta) (missing : Option MissingAuthority)
  deriving DecidableEq

/-! ## §4. The gate's reads -/

/-- `BudgetEnforcer.check`: what is left, the denial if there is one, and the last reset. -/
def PolicyGate.checkBudget (gate : PolicyGate) (now : Int) (ctx : TurnContext) :
    Except Denial BudgetRemaining × Int :=
  let b := gate.budget
  let reset := 0 < b.resetAfterSeconds ∧ b.resetAfterSeconds * 1000 ≤ now - gate.lastResetAt
  let lastResetAt := if reset then now else gate.lastResetAt
  let calls := max 0 (b.maxCallsPerTurn - ctx.toolCallCount)
  let timeMs := max 0 (b.maxTurnDurationMs - (now - ctx.turnStartMs))
  let cost := if 0 < b.maxCostPerTurn then max 0 (b.maxCostPerTurn - ctx.costAccumulated) else -1
  let result : Except Denial BudgetRemaining :=
    if reset then
      .ok ⟨b.maxCallsPerTurn, b.maxTurnDurationMs, if 0 < b.maxCostPerTurn then b.maxCostPerTurn else -1⟩
    else if calls ≤ 0 then
      .error (.budget
        ("Tool call budget exhausted (max " ++ toString b.maxCallsPerTurn ++ " per turn)")
        ⟨0, timeMs, cost⟩)
    else if timeMs ≤ 0 then
      .error (.budget ("Turn time budget exhausted (max " ++ toString b.maxTurnDurationMs ++ "ms)")
        ⟨calls, 0, cost⟩)
    else if 0 < b.maxCostPerTurn ∧ cost ≤ 0 then
      .error (.budget ("Cost budget exhausted (max " ++ toString b.maxCostPerTurn ++ " per turn)")
        ⟨calls, timeMs, 0⟩)
    else .ok ⟨calls, timeMs, cost⟩
  (result, lastResetAt)

def parseScopeSet (scope : String) : List String :=
  if scope = "*" then ["*"]
  else
    ((Js.split ',' scope.toList).map fun part => String.ofList (Js.trim part)).filter (· ≠ "")

/-- `scopeSet.has("*") || scopeSet.has(name)`. -/
def scopeCovers (scope name : String) : Bool :=
  (parseScopeSet scope).contains "*" || (parseScopeSet scope).contains name

def lookupRisk (entries : List (String × RiskLevel)) (key : String) : Option Risk :=
  match entries.find? fun e => e.1 == key with
  | some e => some (.level e.2)
  | none => if key ∈ Js.objectPrototype then some .inherited else none

namespace PolicyGate

variable (gate : PolicyGate)

def getEffectiveMaxRisk : RiskLevel :=
  gate.config.maxRiskLevel.getD (if gate.config.operatorMode then .R4_MONEY else .R1_DRAFT)

/-- The profile a tool gets when the cache has none for its name. -/
def freshProfile (tool : ToolDefinition) : ToolRiskProfile :=
  let profile := classifyTool tool
  match gate.config.riskOverrides.bind fun overrides => lookupRisk overrides tool.name with
  | some risk =>
    { profile with
      risk := risk
      requiresApproval := profile.requiresApproval || risk.atLeast .R2_WRITE }
  | none => profile

/-- The profile `classify` answers. -/
def profileOf (tool : ToolDefinition) : ToolRiskProfile :=
  (gate.profileCache tool.name).getD (gate.freshProfile tool)

/-- `classify`: the profile, and the gate that has it cached. -/
def classify (tool : ToolDefinition) : ToolRiskProfile × PolicyGate :=
  let profile := gate.profileOf tool
  (profile, { gate with
    profileCache := fun name => if name = tool.name then some profile else gate.profileCache name })

def denyListed (tool : ToolDefinition) : Bool :=
  gate.config.toolDenyList.any fun list => list.contains tool.name

def offAllowList (tool : ToolDefinition) : Bool :=
  gate.config.toolAllowList.any fun list => !list.contains tool.name

def grantCoversTool (ctx : TurnContext) (toolName : String) : Bool :=
  ctx.delegationScope.any fun scope => scopeCovers scope toolName

/-- Whether `filterTools` offers a tool whose profile is `profile`. -/
def offers (profile : ToolRiskProfile) (tool : ToolDefinition) (ctx : TurnContext) : Bool :=
  !gate.denyListed tool && !gate.offAllowList tool &&
    (isToolAllowed profile gate.getEffectiveMaxRisk ||
      (ctx.verifiedGrant && grantCoversTool ctx tool.name && profile.risk.atMost .R4_MONEY
        && gate.config.denyAbove.all fun denyAbove => profile.risk.atMost denyAbove))

/-- `filterTools`, one tool at a time; a listed-out tool is not classified. -/
def filterTools (gate : PolicyGate) (ctx : TurnContext) :
    List ToolDefinition → List ToolDefinition × PolicyGate
  | [] => ([], gate)
  | tool :: rest =>
    if gate.denyListed tool || gate.offAllowList tool then gate.filterTools ctx rest
    else
      let (profile, gate') := gate.classify tool
      let (offered, gate'') := gate'.filterTools ctx rest
      (if gate.offers profile tool ctx then tool :: offered else offered, gate'')

/-! ## §5. Evaluation -/

/-- Both band thresholds are set. -/
def hasBands : Bool :=
  gate.config.requireApprovalAbove.isSome && gate.config.denyAbove.isSome

/-- Steps 1 and 2: the deny list and the delegated scope. -/
def listOrScopeDenial (tool : ToolDefinition) (ctx : TurnContext) : Option Denial :=
  if gate.denyListed tool then some (.denyList tool.name)
  else
    match ctx.delegationScope with
    | some scope => if scopeCovers scope tool.name then none else some (.scope tool.name scope)
    | none => none

/-- Step 3: the deny band, or the maximum risk. -/
def riskDenial (profile : ToolRiskProfile) (tool : ToolDefinition) : Option Denial :=
  match gate.config.requireApprovalAbove, gate.config.denyAbove with
  | some _, some denyAbove =>
    if profile.risk.above denyAbove then some (.denyThreshold tool.name profile.risk denyAbove)
    else none
  | _, _ =>
    if isToolAllowed profile gate.getEffectiveMaxRisk then none
    else some (.maxRisk tool.name profile.risk gate.getEffectiveMaxRisk)

/-- Step 4: the path allowlist, at segment boundaries. -/
def pathDenial (args : ToolArgs) : Option Denial :=
  match gate.config.pathAllowList, args.path.filter (· ≠ "") with
  | some allowed, some path =>
    if allowed.any fun p =>
        path == p || (if p.endsWith "/" then p else p ++ "/").toList.isPrefixOf path.toList then none
    else some (.path path)
  | _, _ => none

/-- Step 5: the domain allowlist; a URL that does not parse is denied. -/
def domainDenial (hostname : String → Option String) (args : ToolArgs) : Option Denial :=
  match gate.config.domainAllowList.filter (· ≠ []), args.url.filter (· ≠ "") with
  | some allowed, some url =>
    match hostname url with
    | none => some (.invalidUrl url)
    | some host =>
      if allowed.any fun d => host == d || ("." ++ d).toList.isSuffixOf host.toList then none
      else some (.domain host)
  | _, _ => none

/-- Step 6: what the owner's own turn would need. -/
def ownerApproval (profile : ToolRiskProfile) : Bool :=
  match gate.config.requireApprovalAbove, gate.config.denyAbove with
  | some above, some _ => profile.risk.above above
  | _, _ => profile.requiresApproval

/-- Step 7: the caller's trust level; `none` is a blocked caller. -/
def trustAdjusted (ctx : TurnContext) (needsApproval : Bool) : Option Bool :=
  match ctx.callerTrustLevel with
  | some .Blocked => none
  | some .FirstContact | some .Unknown => some true
  | some .Trusted | some .Verified | none => some needsApproval

/-- Step 8: the remote motebit's type. -/
def typeAdjusted (profile : ToolRiskProfile) (ctx : TurnContext) (needsApproval : Bool) : Bool :=
  if ctx.remoteMotebitType = some "service" then
    needsApproval && !profile.risk.atMost .R1_DRAFT
  else if ctx.remoteMotebitType = some "personal" then
    needsApproval || profile.risk.above .R0_READ
  else needsApproval

def remoteCaller (ctx : TurnContext) : Bool :=
  ctx.callerMotebitId.isSome || ctx.callerTrustLevel.isSome || ctx.remoteMotebitType.isSome

/-- Step 8a: the tool's own floor binds a remote caller. -/
def floored (tool : ToolDefinition) (ctx : TurnContext) (needsApproval : Bool) : Bool :=
  needsApproval || (remoteCaller ctx && tool.requiresApproval == some true)

/-- Steps 8b and 8c: money needs a live tap or a verified grant, and a grant that covers the
    tool is enough. -/
def moneyAdjusted (profile : ToolRiskProfile) (tool : ToolDefinition) (ctx : TurnContext)
    (needsApproval : Bool) : Bool :=
  if profile.risk.atLeast .R4_MONEY then
    if ctx.verifiedGrant then needsApproval && !grantCoversTool ctx tool.name else true
  else needsApproval

def parseRiskFloor (floor : String) : Risk :=
  (lookupRisk [("R0_READ", .R0_READ), ("R1_DRAFT", .R1_DRAFT), ("R2_WRITE", .R2_WRITE),
    ("R3_EXECUTE", .R3_EXECUTE), ("R4_MONEY", .R4_MONEY)] floor).getD (.level .R0_READ)

/-- `profile.risk >= floor`, where the floor may itself be an inherited member. -/
def meetsFloor (profile : ToolRiskProfile) : Risk → Bool
  | .level floor => profile.risk.atLeast floor
  | .inherited => false

/-- Step 9: the quorum. -/
def quorumMeta (profile : ToolRiskProfile) (needsApproval : Bool) : Option QuorumMeta :=
  match gate.config.approvalQuorum with
  | none => none
  | some quorum =>
    if needsApproval ∧ 1 < quorum.threshold ∧
        (quorum.riskFloor.filter (· ≠ "")).all
          fun floor => meetsFloor profile (parseRiskFloor floor) then
      some ⟨quorum.threshold, quorum.approvers⟩
    else none

/-- The residual of a decision that pauses. -/
def raiseDelta (profile : ToolRiskProfile) (ctx : TurnContext) (quorum : Option QuorumMeta) :
    Option MissingAuthority :=
  if profile.risk.atLeast .R4_MONEY && !ctx.verifiedGrant then
    some (.grantRequiredDelta profile.risk)
  else quorum.map fun q => .quorumShortfallDelta q.required

/-- Steps 6 to 8c: whether the call needs approval; `none` is a blocked caller. -/
def needsApproval (profile : ToolRiskProfile) (tool : ToolDefinition) (ctx : TurnContext) :
    Option Bool :=
  (trustAdjusted ctx (gate.ownerApproval profile)).map fun needed =>
    moneyAdjusted profile tool ctx (floored tool ctx (typeAdjusted profile ctx needed))

/-- Steps 1 to 5: what denies a call whoever makes it. -/
def turnDenial (hostname : String → Option String) (now : Int) (profile : ToolRiskProfile)
    (tool : ToolDefinition) (args : ToolArgs) (ctx : TurnContext) : Except Denial BudgetRemaining :=
  match gate.listOrScopeDenial tool ctx with
  | some denial => .error denial
  | none =>
    match gate.riskDenial profile tool with
    | some denial => .error denial
    | none =>
      match (gate.checkBudget now ctx).1 with
      | .error denial => .error denial
      | .ok remaining =>
        match (gate.pathDenial args).or (gate.domainDenial hostname args) with
        | some denial => .error denial
        | none => .ok remaining

def evaluate (hostname : String → Option String) (now : Int) (profile : ToolRiskProfile)
    (tool : ToolDefinition) (args : ToolArgs) (ctx : TurnContext) (noApprovalChannel : Bool) :
    PolicyDecision :=
  match gate.turnDenial hostname now profile tool args ctx with
  | .error denial => .denied denial
  | .ok remaining =>
    match gate.needsApproval profile tool ctx with
    | none => .denied (.blocked ctx.callerMotebitId)
    | some needed =>
      if needed && noApprovalChannel then .denied (.noApprovalChannel tool.name)
      else
        let quorum := gate.quorumMeta profile needed
        .allowed needed remaining quorum (if needed then raiseDelta profile ctx quorum else none)

/-- `validate`: the decision, and the gate with its cache and its budget's reset. -/
def validate (hostname : String → Option String) (now : Int) (tool : ToolDefinition)
    (args : ToolArgs) (ctx : TurnContext) (noApprovalChannel : Bool) :
    PolicyDecision × PolicyGate :=
  let (profile, gate') := gate.classify tool
  let reached := (gate.listOrScopeDenial tool ctx).isNone && (gate.riskDenial profile tool).isNone
  (gate.evaluate hostname now profile tool args ctx noApprovalChannel,
    if reached then { gate' with lastResetAt := (gate.checkBudget now ctx).2 } else gate')

end PolicyGate

end Motebit.Policy
