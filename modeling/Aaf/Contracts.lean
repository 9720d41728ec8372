import Mathlib.Data.Finmap
import Mathlib.Data.String.Basic
import Aaf.F64
import Aaf.Text

/-!
# The contracts: identifiers, intents, policy verdicts, traces

The typed records every other crate exchanges (`aaf-contracts`): identifiers,
the intent envelope with its validation, the side-effect and policy
vocabularies, capabilities, observations and the execution trace.

Two conventions hold throughout.

* A Rust `HashMap` is a Mathlib `AList`: a list of entries with distinct keys.
  Code whose result could depend on the iteration order takes that order as an
  argument.
* Wall-clock readings, random identifiers, JSON rendering, regular expressions
  and hashing are supplied from outside, as arguments of the functions that
  consult them.
-/

namespace Aaf

/-- A Rust map: entries with distinct keys, in some order. -/
abbrev HashMap (K V : Type) : Type := AList fun _ : K => V

/-- The order in which a hash map iterates: some permutation of its keys. -/
structure IterationOrder (K : Type) where
  order : List K → List K
  perm : ∀ l, (order l).Perm l

/-- The order in which the keys are stored. -/
def IterationOrder.asStored {K : Type} : IterationOrder K := ⟨id, List.Perm.refl⟩

/-- The order that has one key in front. -/
def IterationOrder.inFront {K : Type} [DecidableEq K] (k : K) : IterationOrder K where
  order l := if k ∈ l then k :: l.erase k else l
  perm l := by
    split_ifs with hmem
    · exact (List.perm_cons_erase hmem).symm
    · exact List.Perm.refl l

/-- A Rust ordered map, read only by key: `Finmap` is an `AList` up to the
order of its entries. -/
abbrev BTreeMap (K V : Type) : Type := Finmap fun _ : K => V

/-! ## Identifiers

Each identifier is a wrapped string; `raw` is both `as_str` and `Display`. -/

/-- Identifier of an intent envelope. -/
structure IntentId where
  raw : String
  deriving DecidableEq, Repr

/-- Identifier of an execution trace. -/
structure TraceId where
  raw : String
  deriving DecidableEq, Repr

/-- Identifier of a node of the runtime graph. -/
structure NodeId where
  raw : String
  deriving DecidableEq, Repr

/-- Identifier of a capability. -/
structure CapabilityId where
  raw : String
  deriving DecidableEq, Repr

/-- Identifier of an agent process or role. -/
structure AgentId where
  raw : String
  deriving DecidableEq, Repr

/-- Tenant of a multi-tenant deployment. -/
structure TenantId where
  raw : String
  deriving DecidableEq, Repr

/-! ## JSON -/

/-- `serde_json::Value`. An object is its list of fields; their order carries
no meaning. -/
inductive Json : Type where
  | null : Json
  | bool : Bool → Json
  | num : F64 → Json
  | str : String → Json
  | arr : List Json → Json
  | obj : List (String × Json) → Json

instance : Inhabited Json := ⟨.null⟩

/-! ## Side effects -/

/-- Side-effect classification of an action. -/
inductive SideEffect : Type where
  | none : SideEffect
  | read : SideEffect
  | write : SideEffect
  | delete : SideEffect
  | send : SideEffect
  | payment : SideEffect
  deriving DecidableEq, Repr

namespace SideEffect

/-- `SideEffect::requires_compensation`: the write-class effects. The same
four-way match is repeated by the executor and by the policy rules. -/
def requiresCompensation : SideEffect → Bool
  | write | delete | send | payment => true
  | none | read => false

/-- The `Debug` rendering. -/
def debug : SideEffect → String
  | none => "None"
  | read => "Read"
  | write => "Write"
  | delete => "Delete"
  | send => "Send"
  | payment => "Payment"

end SideEffect

/-! ## Contract errors -/

/-- Errors of contract validation. -/
inductive ContractError : Type where
  | missingField (field : String) : ContractError
  | invalidField (field reason : String) : ContractError
  | depthExceeded (depth max : ℕ) : ContractError
  -- the source's text is `field=value`
  | invalidBudget (field : String) (value : F64) : ContractError
  | missingCompensation (capability : String) (sideEffect : SideEffect) : ContractError
  deriving DecidableEq, Repr

/-! ## Intents -/

/-- The five built-in intent classes. -/
inductive IntentType : Type where
  | transactionalIntent : IntentType
  | analyticalIntent : IntentType
  | planningIntent : IntentType
  | delegationIntent : IntentType
  | governanceIntent : IntentType
  deriving DecidableEq, Repr

/-- Risk category of an intent. -/
inductive RiskTier : Type where
  | read : RiskTier
  | write : RiskTier
  | advisory : RiskTier
  | delegation : RiskTier
  | governance : RiskTier
  deriving DecidableEq, Repr

/-- The principal that submitted an intent. -/
structure Requester where
  userId : String
  role : String
  scopes : List String
  tenant : Option TenantId
  deriving DecidableEq, Repr

/-- Bounded-autonomy budget of one intent (Rule 8). -/
structure BudgetContract where
  maxTokens : ℕ
  maxCostUsd : F64
  maxLatencyMs : ℕ
  deriving DecidableEq, Repr

/-- `BudgetContract::validate`. -/
def BudgetContract.validate (b : BudgetContract) : Except ContractError Unit :=
  if !b.maxCostUsd.isFinite || F64.lt b.maxCostUsd 0 then
    .error (.invalidBudget "max_cost_usd" b.maxCostUsd)
  else .ok ()

/-- The output shape a downstream node should produce. -/
structure OutputContract where
  format : String
  schemaRef : Option String
  deriving DecidableEq, Repr

/-- Version triple of an entity reference. -/
structure EntityVersionLite where
  major : ℕ
  minor : ℕ
  patch : ℕ
  deriving DecidableEq, Repr

/-- On-the-wire entity reference. -/
structure EntityRefLite where
  entityId : String
  version : EntityVersionLite
  tenant : Option TenantId
  localId : Option String
  deriving DecidableEq, Repr

/-- The intent envelope: the typed goal that flows through every layer. -/
structure IntentEnvelope where
  intentId : IntentId
  intentType : IntentType
  requester : Requester
  goal : String
  domain : String
  constraints : BTreeMap String Json
  budget : BudgetContract
  deadline : Option ℕ
  riskTier : RiskTier
  approvalPolicy : String
  outputContract : Option OutputContract
  traceId : TraceId
  depth : ℕ
  createdAt : ℕ
  entitiesInContext : List EntityRefLite

/-- Maximum delegation depth (Rule 8). -/
def maxDepth : ℕ := 5

/-- `IntentEnvelope::validate`. -/
def IntentEnvelope.validate (env : IntentEnvelope) : Except ContractError Unit :=
  if Text.isBlank env.goal then .error (.missingField "goal")
  else if Text.isBlank env.domain then .error (.missingField "domain")
  else if env.depth > maxDepth then .error (.depthExceeded env.depth maxDepth)
  else env.budget.validate

/-! ## Policy vocabulary -/

/-- Severity ladder of policy violations. -/
inductive PolicySeverity : Type where
  | info : PolicySeverity
  | warning : PolicySeverity
  | error : PolicySeverity
  | fatal : PolicySeverity
  deriving DecidableEq, Repr

/-- Built-in rule families. -/
inductive RuleKind : Type where
  | scopeCheck : RuleKind
  | sideEffectGate : RuleKind
  | budgetControl : RuleKind
  | piiGuard : RuleKind
  | injectionGuard : RuleKind
  | compositionSafety : RuleKind
  | boundaryEnforcement : RuleKind
  deriving DecidableEq, Repr

/-- One detected violation. -/
structure PolicyViolation where
  ruleId : String
  kind : RuleKind
  severity : PolicySeverity
  message : String
  deriving DecidableEq, Repr

/-- Outcome of a policy evaluation. -/
inductive PolicyDecision : Type where
  | allow : PolicyDecision
  | allowWithWarnings : List PolicyViolation → PolicyDecision
  | requireApproval : List PolicyViolation → PolicyDecision
  | deny : List PolicyViolation → PolicyDecision
  deriving DecidableEq, Repr

/-- `PolicyDecision::is_allowed`. -/
def PolicyDecision.isAllowed : PolicyDecision → Bool
  | allow | allowWithWarnings _ => true
  | requireApproval _ | deny _ => false

/-! ## Capabilities -/

/-- Data sensitivity. -/
inductive DataClassification : Type where
  | publicData : DataClassification
  | internal : DataClassification
  | confidential : DataClassification
  | restricted : DataClassification
  deriving DecidableEq, Repr

/-- The `Debug` rendering. -/
def DataClassification.debug : DataClassification → String
  | .publicData => "Public"
  | .internal => "Internal"
  | .confidential => "Confidential"
  | .restricted => "Restricted"

/-- Reference to a domain event. -/
structure EventRefLite where
  id : String
  version : EntityVersionLite
  deriving DecidableEq, Repr

/-- Transport of an endpoint. -/
inductive EndpointKind : Type where
  | grpc : EndpointKind
  | http : EndpointKind
  | inProcess : EndpointKind
  | mcp : EndpointKind
  | a2a : EndpointKind
  deriving DecidableEq, Repr

/-- Endpoint coordinates for invoking a capability. -/
structure CapabilityEndpoint where
  kind : EndpointKind
  address : String
  method : Option String
  deriving DecidableEq, Repr

/-- SLA targets declared by the capability owner. -/
structure CapabilitySla where
  latencyP50Ms : ℕ
  latencyP99Ms : ℕ
  availability : F64
  deriving DecidableEq, Repr

/-- Per-request cost declared by the capability owner. -/
structure CapabilityCost where
  perRequest : F64
  currency : String
  deriving DecidableEq, Repr

/-- Discrete degradation levels. -/
inductive DegradationLevel : Type where
  | full : DegradationLevel
  | partialService : DegradationLevel
  | cached : DegradationLevel
  | unavailable : DegradationLevel
  deriving DecidableEq, Repr

/-- One degradation level a capability supports. -/
structure DegradationSpec where
  level : DegradationLevel
  description : String
  trigger : Option String
  fallback : Option String
  deriving DecidableEq, Repr

/-- Narrowing predicate on an entity scope. -/
structure EntityScopeLite where
  expression : String
  deriving DecidableEq, Repr

/-- Attestation levels, weakest first. -/
inductive AttestationLevelRef : Type where
  | unattested : AttestationLevelRef
  | autoVerified : AttestationLevelRef
  | humanReviewed : AttestationLevelRef
  | certified : AttestationLevelRef
  deriving DecidableEq, Repr

/-- Who produced a learned rule. -/
inductive LearnedSource : Type where
  | miner : LearnedSource
  | human : LearnedSource
  | hybrid : LearnedSource
  deriving DecidableEq, Repr

/-- Back-pointer to the learned rule an adaptation came from (Rule 17). -/
structure LearnedRuleRef where
  learnedRuleId : String
  learnedBy : LearnedSource
  learnedAt : ℤ
  evidenceCount : ℕ
  deriving DecidableEq, Repr

/-- Capability contract: the typed declaration of an executable capability. -/
structure CapabilityContract where
  id : CapabilityId
  name : String
  description : String
  version : String
  providerAgent : String
  endpoint : CapabilityEndpoint
  inputSchema : Json
  outputSchema : Json
  sideEffect : SideEffect
  idempotent : Bool
  reversible : Bool
  deterministic : Bool
  compensation : Option String
  sla : CapabilitySla
  cost : CapabilityCost
  requiredScope : String
  dataClassification : DataClassification
  degradation : List DegradationSpec
  dependsOn : List CapabilityId
  conflictsWith : List CapabilityId
  tags : List String
  domains : List String
  reads : List EntityRefLite
  writes : List EntityRefLite
  emits : List EventRefLite
  entityScope : Option EntityScopeLite
  requiredAttestationLevel : Option AttestationLevelRef
  reputation : F64
  learnedRules : List LearnedRuleRef

/-- A read capability that declares nothing but its name, at the default reputation. -/
def CapabilityContract.plain (id : CapabilityId) (name : String) : CapabilityContract where
  id := id
  name := name
  description := ""
  version := "1.0"
  providerAgent := ""
  endpoint := ⟨.inProcess, "", none⟩
  inputSchema := .obj []
  outputSchema := .obj []
  sideEffect := .read
  idempotent := true
  reversible := true
  deterministic := true
  compensation := none
  sla := ⟨0, 0, 0⟩
  cost := ⟨0, "USD"⟩
  requiredScope := ""
  dataClassification := .internal
  degradation := []
  dependsOn := []
  conflictsWith := []
  tags := []
  domains := []
  reads := []
  writes := []
  emits := []
  entityScope := none
  requiredAttestationLevel := none
  reputation := .finite (1 / 2)
  learnedRules := []

/-! ## Observations and traces -/

/-- One thing an agent observed during a step. -/
structure ObservedSource where
  source : String
  dataSummary : String
  retrievalMethod : String
  deriving DecidableEq, Repr

/-- Coarse result of a step. -/
inductive StepOutcome : Type where
  | success : StepOutcome
  | failure : StepOutcome
  | skipped : StepOutcome
  | compensated : StepOutcome
  | pending : StepOutcome
  deriving DecidableEq, Repr

/-- Extended outcome status. -/
inductive OutcomeStatus : Type where
  | succeeded : OutcomeStatus
  | failed : OutcomeStatus
  | partialResult : OutcomeStatus
  | escalated : OutcomeStatus
  | rolledBack : OutcomeStatus
  deriving DecidableEq, Repr

/-- The structured outcome the runtime attaches at step end: `Outcome` with
only the fields `Outcome::minimal` fills in. -/
structure Outcome where
  status : OutcomeStatus
  latencyMs : ℕ
  tokensUsed : ℕ
  costUsd : F64
  deriving DecidableEq, Repr

/-- One observation captured during execution. -/
structure Observation where
  traceId : TraceId
  nodeId : NodeId
  step : ℕ
  agent : AgentId
  observed : List ObservedSource
  reasoning : String
  decision : String
  confidence : F64
  alternatives : List String
  outcome : StepOutcome
  outcomeDetail : Option Outcome
  deriving DecidableEq, Repr

/-- Status of a trace. -/
inductive TraceStatus : Type where
  | running : TraceStatus
  | completed : TraceStatus
  | failed : TraceStatus
  | cancelled : TraceStatus
  | partialResult : TraceStatus
  deriving DecidableEq, Repr

/-- One step of a trace. -/
structure TraceStep where
  step : ℕ
  nodeId : NodeId
  stepType : String
  model : Option String
  tokensIn : ℕ
  tokensOut : ℕ
  costUsd : F64
  durationMs : ℕ
  observation : Observation
  deriving DecidableEq, Repr

/-- The trace document. -/
structure ExecutionTrace where
  traceId : TraceId
  intentId : IntentId
  totalCostUsd : F64
  status : TraceStatus
  steps : List TraceStep
  deriving DecidableEq, Repr

/-- `ExecutionTrace::open`: an empty running trace. -/
def ExecutionTrace.open (traceId : TraceId) (intentId : IntentId) : ExecutionTrace :=
  ⟨traceId, intentId, 0, .running, []⟩

/-- `ExecutionTrace::record`: append a step, update the rolling cost. -/
def ExecutionTrace.record (t : ExecutionTrace) (step : TraceStep) : ExecutionTrace :=
  { t with totalCostUsd := t.totalCostUsd + step.costUsd, steps := t.steps ++ [step] }

/-- `ExecutionTrace::close`. -/
def ExecutionTrace.close (t : ExecutionTrace) (status : TraceStatus) : ExecutionTrace :=
  { t with status := status }

end Aaf
