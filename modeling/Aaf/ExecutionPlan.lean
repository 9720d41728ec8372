import Aaf.Contracts

/-!
# Execution plans

What the planner returns (`aaf-planner`): the plan itself, the bounds it is checked
against (Rule 8) and the cache it is kept in. The cache holds a bounded number of plans
by key and drops the oldest ones for a new key.

SHA-256 and Unicode lower-casing are functions on strings and fresh node ids a stream,
all given from outside.
-/

namespace Aaf

/-- Logical step kind. -/
inductive PlannedStepKind : Type where
  | deterministic : PlannedStepKind
  | agent : PlannedStepKind
  | approval : PlannedStepKind
  | fork : PlannedStepKind
  deriving DecidableEq, Repr

/-- One step of an `ExecutionPlan`. -/
structure PlannedStep where
  stepId : UInt32
  kind : PlannedStepKind
  capability : CapabilityId
  inputMapping : String
  outputId : NodeId
  deriving DecidableEq, Repr

/-- A planner output. -/
structure ExecutionPlan where
  intentId : IntentId
  steps : List PlannedStep
  deriving DecidableEq, Repr

/-- The capabilities of the steps, in their order. -/
def ExecutionPlan.ids (plan : ExecutionPlan) : List CapabilityId :=
  plan.steps.map PlannedStep.capability

/-! ## Bounds -/

/-- Bounded autonomy constraints. -/
structure BoundedAutonomy where
  maxSteps : UInt32
  maxDepth : ℕ
  maxCostUsd : F64
  maxLatencyMs : ℕ
  deriving DecidableEq, Repr

/-- `BoundedAutonomy::default`. -/
def BoundedAutonomy.default : BoundedAutonomy := ⟨10, 5, .finite 1, 300000⟩

/-- Bound violation. -/
inductive BoundsViolation : Type where
  | tooManySteps (actual max : UInt32) : BoundsViolation
  | depthExceeded (actual max : ℕ) : BoundsViolation
  | budgetExceeded (actual max : F64) : BoundsViolation
  | latencyExceeded (actual max : ℕ) : BoundsViolation
  deriving DecidableEq, Repr

namespace BoundedAutonomy

/-- `BoundedAutonomy::validate`. -/
def validate (bounds : BoundedAutonomy) (intent : IntentEnvelope) (plan : ExecutionPlan) :
    Except BoundsViolation Unit :=
  if bounds.maxSteps < UInt32.ofNat plan.steps.length then
    .error (.tooManySteps (UInt32.ofNat plan.steps.length) bounds.maxSteps)
  else if bounds.maxDepth < intent.depth then
    .error (.depthExceeded intent.depth bounds.maxDepth)
  else if F64.lt bounds.maxCostUsd intent.budget.maxCostUsd then
    .error (.budgetExceeded intent.budget.maxCostUsd bounds.maxCostUsd)
  else if bounds.maxLatencyMs < intent.budget.maxLatencyMs then
    .error (.latencyExceeded intent.budget.maxLatencyMs bounds.maxLatencyMs)
  else .ok ()

/-- A plan may have that many steps. -/
def AdmitsLength (bounds : BoundedAutonomy) (length : ℕ) : Prop :=
  UInt32.ofNat length ≤ bounds.maxSteps

/-- The intent asks for no more depth, cost and time than it may. -/
structure AdmitsIntent (bounds : BoundedAutonomy) (intent : IntentEnvelope) : Prop where
  depth : intent.depth ≤ bounds.maxDepth
  cost : F64.lt bounds.maxCostUsd intent.budget.maxCostUsd = false
  latency : intent.budget.maxLatencyMs ≤ bounds.maxLatencyMs

/-- The check looks at the length of the plan, and otherwise at the intent alone. -/
theorem validate_eq_ok_iff {bounds : BoundedAutonomy} {intent : IntentEnvelope}
    {plan : ExecutionPlan} :
    bounds.validate intent plan = .ok () ↔
      bounds.AdmitsLength plan.steps.length ∧ bounds.AdmitsIntent intent := by
  rw [validate]
  by_cases hsteps : bounds.maxSteps < UInt32.ofNat plan.steps.length
  · rw [if_pos hsteps]
    refine ⟨fun h => ?_, fun h => absurd hsteps (UInt32.not_lt.mpr h.1)⟩
    cases h
  by_cases hdepth : bounds.maxDepth < intent.depth
  · rw [if_neg hsteps, if_pos hdepth]
    refine ⟨fun h => ?_, fun h => absurd hdepth (not_lt.mpr h.2.depth)⟩
    cases h
  by_cases hcost : F64.lt bounds.maxCostUsd intent.budget.maxCostUsd = true
  · rw [if_neg hsteps, if_neg hdepth, if_pos hcost]
    refine ⟨fun h => ?_, fun h => ?_⟩
    · cases h
    · rw [h.2.cost] at hcost
      cases hcost
  by_cases hlatency : bounds.maxLatencyMs < intent.budget.maxLatencyMs
  · rw [if_neg hsteps, if_neg hdepth, if_neg hcost, if_pos hlatency]
    refine ⟨fun h => ?_, fun h => absurd hlatency (not_lt.mpr h.2.latency)⟩
    cases h
  · rw [if_neg hsteps, if_neg hdepth, if_neg hcost, if_neg hlatency]
    refine ⟨fun _ => ⟨UInt32.not_lt.mp hsteps, not_lt.mp hdepth, ?_, not_lt.mp hlatency⟩, fun _ => rfl⟩
    exact Bool.eq_false_iff.mpr hcost

end BoundedAutonomy

/-! ## The cache -/

/-- What the planner takes from outside. -/
structure PlannerMint where
  /-- hex digest of SHA-256 -/
  sha256Hex : String → String
  /-- `str::to_lowercase` -/
  toLowercase : String → String
  nodeId : ℕ → NodeId

/-- An intent type as `{:?}` prints it. -/
def IntentType.debug : IntentType → String
  | .transactionalIntent => "TransactionalIntent"
  | .analyticalIntent => "AnalyticalIntent"
  | .planningIntent => "PlanningIntent"
  | .delegationIntent => "DelegationIntent"
  | .governanceIntent => "GovernanceIntent"

/-- `key_for`. -/
def keyFor (mint : PlannerMint) (goal domain intentType : String) : String :=
  mint.sha256Hex (intentType ++ "|" ++ domain ++ "|" ++ mint.toLowercase (Text.trim goal))

/-- The key under which the plan of an intent is kept. -/
def IntentEnvelope.planKey (mint : PlannerMint) (intent : IntentEnvelope) : String :=
  keyFor mint intent.goal intent.domain intent.intentType.debug

/-- `PlanCache`: plans by key, and the keys in the order of their insertion. -/
structure PlanCache where
  map : HashMap String ExecutionPlan
  order : List String
  capacity : ℕ

namespace PlanCache

/-- `PlanCache::with_capacity`. -/
def withCapacity (capacity : ℕ) : PlanCache := ⟨∅, [], capacity⟩

/-- `PlanCache::new`. -/
def new : PlanCache := withCapacity 4096

/-- `PlanCache::get`. -/
def get (cache : PlanCache) (key : String) : Option ExecutionPlan := cache.map.lookup key

/-- Drop the oldest entries until the map is under its capacity, or no key is left. -/
def evict (capacity : ℕ) : HashMap String ExecutionPlan → List String →
    HashMap String ExecutionPlan × List String
  | map, [] => (map, [])
  | map, oldest :: order =>
    if capacity ≤ map.entries.length then evict capacity (map.erase oldest) order
    else (map, oldest :: order)

/-- `PlanCache::put`. -/
def put (cache : PlanCache) (key : String) (plan : ExecutionPlan) : PlanCache :=
  if key ∈ cache.map then { cache with map := cache.map.insert key plan }
  else
    { cache with
      map := (evict cache.capacity cache.map cache.order).1.insert key plan
      order := (evict cache.capacity cache.map cache.order).2 ++ [key] }

variable {cache : PlanCache} {key key' : String} {plan plan' : ExecutionPlan}

/-- Eviction only drops entries. -/
theorem lookup_of_lookup_evict {capacity : ℕ} {order : List String} :
    ∀ {map : HashMap String ExecutionPlan},
      (evict capacity map order).1.lookup key = some plan → map.lookup key = some plan := by
  induction order with
  | nil =>
    intro map h
    exact h
  | cons oldest order ih =>
    intro map h
    rw [evict] at h
    by_cases hfull : capacity ≤ map.entries.length
    · rw [if_pos hfull] at h
      by_cases hkey : key = oldest
      · have hgone := ih h
        rw [hkey, AList.lookup_erase] at hgone
        cases hgone
      · rw [← AList.lookup_erase_ne hkey]
        exact ih h
    · rw [if_neg hfull] at h
      exact h

theorem get_put_self (cache : PlanCache) (key : String) (plan : ExecutionPlan) :
    (cache.put key plan).get key = some plan := by
  rw [put]
  by_cases hmem : key ∈ cache.map
  · rw [if_pos hmem]
    exact AList.lookup_insert _
  · rw [if_neg hmem]
    exact AList.lookup_insert _

/-- What a cache holds after an insertion: the new plan, and plans it held before. -/
theorem get_put (h : (cache.put key plan).get key' = some plan') :
    (key' = key ∧ plan' = plan) ∨ cache.get key' = some plan' := by
  by_cases hkey : key' = key
  · refine Or.inl ⟨hkey, ?_⟩
    rw [hkey, get_put_self] at h
    exact (Option.some.inj h).symm
  · refine Or.inr ?_
    rw [put] at h
    by_cases hmem : key ∈ cache.map
    · rw [if_pos hmem, get, AList.lookup_insert_ne hkey] at h
      exact h
    · rw [if_neg hmem, get, AList.lookup_insert_ne hkey] at h
      exact lookup_of_lookup_evict h

/-- Every plan in the cache has the property, under its key. -/
def All (cache : PlanCache) (P : String → ExecutionPlan → Prop) : Prop :=
  ∀ key plan, cache.get key = some plan → P key plan

theorem all_new (P : String → ExecutionPlan → Prop) : new.All P := by
  intro key plan h
  cases h

/-- An insertion keeps a property of all plans exactly when the new plan has it. -/
theorem All.put_iff {P : String → ExecutionPlan → Prop} (h : cache.All P) :
    (cache.put key plan).All P ↔ P key plan := by
  refine ⟨fun hall => hall key plan (get_put_self cache key plan), fun hplan key' plan' hget => ?_⟩
  rcases get_put hget with ⟨rfl, rfl⟩ | hold
  · exact hplan
  · exact h key' plan' hold

end PlanCache

end Aaf
