import Aaf.Contracts

/-!
# The policy engine

`aaf-policy`: the evaluation context, rules, the engine's severity ladder and
the seven default rule families. A rule is an arbitrary function of the context,
so plug-ins are covered; the two pattern-scanning rules take the regular
expression matcher as an argument and keep the source's patterns.
-/

namespace Aaf

/-- Where the engine is invoked from. -/
inductive PolicyHook : Type where
  | prePlan : PolicyHook
  | preStep : PolicyHook
  | postStep : PolicyHook
  | preArtifact : PolicyHook
  deriving DecidableEq, Repr

/-- Classification an ontology lookup reports for an entity. -/
inductive EntityClass : Type where
  | publicData : EntityClass
  | internal : EntityClass
  | pii : EntityClass
  | regulated : String → EntityClass
  deriving DecidableEq, Repr

namespace EntityClass

/-- `EntityClass::level`. -/
def level : EntityClass → ℕ
  | publicData => 0
  | internal => 1
  | pii => 2
  | regulated _ => 3

/-- The `Debug` rendering. -/
def debug : EntityClass → String
  | publicData => "Public"
  | internal => "Internal"
  | pii => "Pii"
  | regulated law => "Regulated(\"" ++ law ++ "\")"

end EntityClass

/-- Everything a rule may inspect. -/
structure PolicyContext where
  intent : IntentEnvelope
  capability : Option CapabilityContract
  requester : Requester
  payload : Option String
  output : Option String
  sideEffect : Option SideEffect
  remainingBudget : BudgetContract
  tenant : Option TenantId
  /-- write capabilities already executed within this trace -/
  composedWrites : ℕ
  ontologyClassLookup : Option (String → Option EntityClass)

/-- The `Rule` trait. `applicableHooks = none` means every hook. -/
structure Rule where
  id : String
  applicableHooks : Option (List PolicyHook)
  evaluate : PolicyContext → Option PolicyViolation

/-! ## The engine -/

/-- The derived order on severities. -/
def PolicySeverity.rank : PolicySeverity → ℕ
  | .info => 0
  | .warning => 1
  | .error => 2
  | .fatal => 3

/-- The larger of two severities. -/
def PolicySeverity.max (a b : PolicySeverity) : PolicySeverity :=
  if a.rank ≤ b.rank then b else a

/-- The engine: a list of rules. -/
structure PolicyEngine where
  rules : List Rule

namespace PolicyEngine

/-- `PolicyEngine::add_rule`. -/
def addRule (engine : PolicyEngine) (rule : Rule) : PolicyEngine :=
  ⟨engine.rules ++ [rule]⟩

/-- Whether a rule fires at a hook. -/
def applies (hook : PolicyHook) (rule : Rule) : Bool :=
  match rule.applicableHooks with
  | none => true
  | some hooks => hooks.contains hook

/-- The violations the applicable rules report, in rule order. -/
def violations (engine : PolicyEngine) (hook : PolicyHook) (ctx : PolicyContext) :
    List PolicyViolation :=
  (engine.rules.filter (applies hook)).filterMap fun rule => rule.evaluate ctx

/-- The severity ladder, with the side-effect gate as its special case. -/
def decisionOf (vs : List PolicyViolation) : PolicyDecision :=
  if vs.isEmpty then .allow
  else
    let maxSeverity := (vs.map (·.severity)).foldl PolicySeverity.max .info
    if maxSeverity = .error ∨ maxSeverity = .fatal then .deny vs
    else if vs.any (fun v => v.kind = .sideEffectGate) then .requireApproval vs
    else .allowWithWarnings vs

/-- `PolicyEngine::evaluate`. -/
def evaluate (engine : PolicyEngine) (hook : PolicyHook) (ctx : PolicyContext) : PolicyDecision :=
  decisionOf (engine.violations hook ctx)

end PolicyEngine

/-! ## The default rules -/

/-- The side effect a rule judges: the context's own, else the capability's. -/
def PolicyContext.effect (ctx : PolicyContext) : Option SideEffect :=
  ctx.sideEffect.or (ctx.capability.map (·.sideEffect))

/-- `scope_check`: the requester carries the scope the capability requires. -/
def scopeCheck : Rule where
  id := "scope-check"
  applicableHooks := none
  evaluate ctx := do
    let cap ← ctx.capability
    let required := Text.trim cap.requiredScope
    if required.isEmpty then none
    else if ctx.requester.scopes.contains required then none
    else some ⟨"scope-check", .scopeCheck, .error,
      "requester missing required scope `" ++ required ++ "` for capability `" ++ cap.id.raw ++ "`"⟩

/-- `side_effect_gate`: write-class effects need approval, unless the requester
carries `auto-approve`. -/
def sideEffectGate : Rule where
  id := "side-effect-gate"
  applicableHooks := none
  evaluate ctx := do
    let se ← ctx.effect
    if !se.requiresCompensation then none
    else if ctx.requester.scopes.contains "auto-approve" then none
    else some ⟨"side-effect-gate", .sideEffectGate, .warning,
      "side effect " ++ se.debug ++ " requires human approval"⟩

/-- `DEFAULT_WARN_PCT`. -/
def defaultWarnPct : F64 := .finite (4 / 5)

/-- `budget_control`: an error when nothing of the cost budget remains, a
warning from `warnAtPct` on. -/
def budgetControl (warnAtPct : F64) : Rule where
  id := "budget-control"
  applicableHooks := none
  evaluate ctx :=
    let total := ctx.intent.budget.maxCostUsd
    let remaining := ctx.remainingBudget.maxCostUsd
    if F64.le total 0 then none
    else
      let used := F64.max (total - remaining) 0
      let pct := used / total
      let spent := used.fixed 4 ++ " of $" ++ total.fixed 4
      if F64.le remaining 0 then
        some ⟨"budget-control", .budgetControl, .error, "budget exhausted: used $" ++ spent⟩
      else if F64.le warnAtPct pct then
        some ⟨"budget-control", .budgetControl, .warning,
          "budget warning: " ++ (pct * .finite 100).fixed 0 ++ "% used ($" ++ spent ++ ")"⟩
      else none

/-- The regular expressions of `pii_guard`, with the name each hit is
reported under. -/
def piiPatterns : List (String × String) :=
  [("(?i)\\b[A-Z0-9._%+-]+@[A-Z0-9.-]+\\.[A-Z]\x7b2,\x7d\\b", "email"),
   ("\\b0[7-9]0[-\\s]?\\d\x7b4\x7d[-\\s]?\\d\x7b4\x7d\\b", "jp_phone"),
   ("\\b(?:\\d[ -]*?)\x7b13,19\x7d\\b", "credit_card")]

/-- `pii_guard`: scans the output, or the payload when there is none. -/
def piiGuard (isMatch : String → String → Bool) : Rule where
  id := "pii-guard"
  applicableHooks := some [.postStep, .preArtifact]
  evaluate ctx := do
    let text ← ctx.output.or ctx.payload
    let hits := (piiPatterns.filter fun p => isMatch p.1 text).map (·.2)
    if hits.isEmpty then none
    else some ⟨"pii-guard", .piiGuard, .error,
      "PII detected: " ++ String.intercalate ", " hits⟩

/-- The regular expressions of `injection_guard`. -/
def injectionPatterns : List String :=
  ["(?i)ignore (all )?(previous )?(instructions|rules)",
   "(?i)disregard (the )?system prompt",
   "(?i)you are now",
   "(?i)pretend to be",
   "(?i)reveal (the )?system"]

/-- `injection_guard`: scans the payload, on inputs only. -/
def injectionGuard (isMatch : String → String → Bool) : Rule where
  id := "injection-guard"
  applicableHooks := some [.prePlan, .preStep]
  evaluate ctx := do
    let text ← ctx.payload
    let pattern ← injectionPatterns.find? fun p => isMatch p text
    some ⟨"injection-guard", .injectionGuard, .error,
      "prompt-injection pattern matched: " ++ pattern⟩

/-- `composition_safety`: a warning once a trace combines too many writes. -/
def compositionSafety (maxCombinedWrites : ℕ) : Rule where
  id := "composition-safety"
  applicableHooks := none
  evaluate ctx := do
    let se ← ctx.effect
    if !se.requiresCompensation then none
    else if ctx.composedWrites + 1 > maxCombinedWrites then
      some ⟨"composition-safety", .compositionSafety, .warning,
        "composition safety: " ++ toString ctx.composedWrites ++
          " write-class side effects already executed (max " ++ toString maxCombinedWrites ++ ")"⟩
    else none

/-- `capability_level` of the boundary rule. -/
def capabilityLevel : DataClassification → ℕ
  | .publicData => 0
  | .internal => 1
  | .confidential => 2
  | .restricted => 3

/-- A fatal violation of the boundary rule. -/
def boundaryFatal (message : String) : PolicyViolation :=
  ⟨"tenant-boundary", .boundaryEnforcement, .fatal, message⟩

/-- Check 1 of the boundary rule: the requester's tenant is the active one. -/
def tenantCheck (ctx : PolicyContext) : Option PolicyViolation := do
  let active ← ctx.tenant
  let req ← ctx.requester.tenant
  if active ≠ req then
    some (boundaryFatal ("tenant boundary violation: requester tenant " ++ req.raw ++
      " != active tenant " ++ active.raw))
  else none

/-- Check 2: confidential and restricted capabilities need their scope. -/
def classificationCheck (ctx : PolicyContext) : Option PolicyViolation := do
  let cap ← ctx.capability
  let needs ← match cap.dataClassification with
    | .confidential => some "confidential:read"
    | .restricted => some "restricted:read"
    | _ => none
  if ctx.requester.scopes.contains needs then none
  else some ⟨"tenant-boundary", .boundaryEnforcement, .error,
    "data classification " ++ cap.dataClassification.debug ++ " requires scope `" ++ needs ++ "`"⟩

/-- Check 3: nothing read is classified above the capability, nothing is
written into another tenant. Only made when a lookup is installed. -/
def entityFlowCheck (ctx : PolicyContext) : Option PolicyViolation := do
  let cap ← ctx.capability
  let lookup ← ctx.ontologyClassLookup
  let leak := cap.reads.findSome? fun read => do
    let entityClass ← lookup read.entityId
    if entityClass.level > capabilityLevel cap.dataClassification then
      some (boundaryFatal ("classification flow violation: capability `" ++ cap.id.raw ++
        "` (class " ++ cap.dataClassification.debug ++ ") reads entity `" ++ read.entityId ++
        "` classified " ++ entityClass.debug))
    else none
  let crossing := cap.writes.findSome? fun write => do
    let tenant ← write.tenant
    let active ← ctx.tenant
    if tenant ≠ active then
      some (boundaryFatal ("tenant boundary violation: capability `" ++ cap.id.raw ++
        "` writes entity `" ++ write.entityId ++ "` in tenant `" ++ tenant.raw ++
        "` while active tenant is `" ++ active.raw ++ "`"))
    else none
  leak.or crossing

/-- `boundary_enforcement`: the three checks, in order. -/
def boundaryEnforcement : Rule where
  id := "tenant-boundary"
  applicableHooks := none
  evaluate ctx := ((tenantCheck ctx).or (classificationCheck ctx)).or (entityFlowCheck ctx)

/-- `PolicyEngine::with_default_rules`. -/
def PolicyEngine.withDefaultRules (isMatch : String → String → Bool) : PolicyEngine :=
  ⟨[scopeCheck, sideEffectGate, budgetControl defaultWarnPct, piiGuard isMatch,
    injectionGuard isMatch, compositionSafety 3, boundaryEnforcement]⟩

/-! ## The ladder -/

namespace PolicyEngine

/-- One violation decides by its severity and kind. -/
theorem decisionOf_singleton (v : PolicyViolation) :
    decisionOf [v] =
      if v.severity = .error ∨ v.severity = .fatal then .deny [v]
      else if v.kind = .sideEffectGate then .requireApproval [v]
      else .allowWithWarnings [v] := by
  have hmax : PolicySeverity.max .info v.severity = v.severity := by
    cases v.severity <;> rfl
  simp [decisionOf, hmax]

end PolicyEngine

end Aaf
