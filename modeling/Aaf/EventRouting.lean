import Aaf.Contracts

/-!
# Routing and adapting application events

`EventRouter::route` classifies an event, and splits a composite one into a sub-event for each
element of its payload; `RuleBasedAdapter::adapt` makes an intent of an event whose type it has a
rule for, and drops every other one.

A sub-event gets a type of its own, from the type of the event and the place of the element. So
the sub-events of an event lead to intents like its own exactly when there is a rule for each of
these types as well: `stays_actionable_iff`.

New ids and clock readings come from outside.
-/

namespace Aaf

/-- Identifier of an application event. -/
structure EventId where
  raw : String
  deriving DecidableEq, Repr

/-- Where an event originated. -/
structure EventSource where
  appId : String
  surface : String
  deriving DecidableEq, Repr

/-- The screen the user was on. -/
structure ScreenContext where
  route : String
  component : String
  visibleFields : List String
  deriving DecidableEq, Repr

/-- The session an event belongs to. -/
structure SessionContext where
  userId : String
  role : String
  scopes : List String
  locale : String
  tenantId : TenantId
  deriving DecidableEq, Repr

/-- What the surface wants of the downstream intent. -/
structure SurfaceConstraints where
  timeBudgetMs : Option ℕ
  costBudgetUsd : Option F64
  deriving DecidableEq, Repr

/-- The situation at the moment an event fired. -/
structure Situation where
  currentEntities : List EntityRefLite
  currentScreen : Option ScreenContext
  session : SessionContext
  constraints : SurfaceConstraints
  deriving DecidableEq, Repr

/-- `AppEvent`. -/
structure AppEvent where
  eventId : EventId
  eventType : String
  source : EventSource
  situation : Situation
  payload : Json
  sessionId : String
  timestamp : ℕ
  traceId : Option TraceId

/-! ## The router -/

/-- Routing category for an event. -/
inductive EventCategory : Type where
  | fastPath : EventCategory
  | agentInterpret : EventCategory
  | composite : EventCategory
  deriving DecidableEq, Repr

/-- The trait `EventClassifier`; `decompose` takes new ids from a supply. -/
structure EventClassifier where
  classify : AppEvent → EventCategory
  decompose : (ℕ → EventId) → AppEvent → Option (List AppEvent)

namespace RuleBasedClassifier

/-- The object is not empty and has at most five keys. -/
def smallObject : Json → Bool
  | .obj fields => decide (fields.length ≤ 5) && !fields.isEmpty
  | _ => false

/-- The array has at least two elements. -/
def longArray : Json → Bool
  | .arr items => decide (items.length ≥ 2)
  | _ => false

/-- `RuleBasedClassifier::classify`. -/
def classify (event : AppEvent) : EventCategory :=
  if Text.startsWith event.eventType "fast." then .fastPath
  else if smallObject event.payload then .fastPath
  else if longArray event.payload then .composite
  else .agentInterpret

/-- The type of the sub-event for the element at the place `i`. -/
def subType (eventType : String) (i : ℕ) : String := eventType ++ "[" ++ toString i ++ "]"

/-- The sub-event for the element at the place `i`. -/
def subEvent (ids : ℕ → EventId) (event : AppEvent) (item : Json) (i : ℕ) : AppEvent :=
  { event with
    eventId := ids i
    eventType := subType event.eventType i
    payload := item }

/-- `RuleBasedClassifier::decompose`. -/
def decompose (ids : ℕ → EventId) (event : AppEvent) : Option (List AppEvent) :=
  match event.payload with
  | .arr items =>
    if items.length < 2 then none else some (items.mapIdx fun i item => subEvent ids event item i)
  | _ => none

end RuleBasedClassifier

/-- `RuleBasedClassifier`. -/
def ruleBasedClassifier : EventClassifier :=
  ⟨RuleBasedClassifier.classify, RuleBasedClassifier.decompose⟩

/-- Result of routing an event. -/
inductive RouteOutcome : Type where
  | fastPath (event : AppEvent) : RouteOutcome
  | agentInterpret (event : AppEvent) : RouteOutcome
  | decomposed (subs : List AppEvent) : RouteOutcome

/-- `EventRouter::route`. -/
def EventClassifier.route (classifier : EventClassifier) (ids : ℕ → EventId) (event : AppEvent) :
    RouteOutcome :=
  match classifier.classify event with
  | .fastPath => .fastPath event
  | .agentInterpret => .agentInterpret event
  | .composite =>
    match classifier.decompose ids event with
    | some subs => .decomposed subs
    | none => .agentInterpret event

/-! ## The adapter -/

/-- `RuleBasedAdapter`. -/
structure RuleBasedAdapter where
  rules : HashMap String IntentType
  defaultBudget : BudgetContract

/-- What a new intent takes from outside. -/
structure IntentFresh where
  intentId : IntentId
  traceId : TraceId
  now : ℕ

namespace RuleBasedAdapter

/-- The risk tier of an intent type. -/
def riskTier : IntentType → RiskTier
  | .transactionalIntent => .write
  | .analyticalIntent => .read
  | .planningIntent => .advisory
  | .delegationIntent => .delegation
  | .governanceIntent => .governance

/-- The default budget, with what the surface overrides. -/
def budget (adapter : RuleBasedAdapter) (event : AppEvent) : BudgetContract :=
  { adapter.defaultBudget with
    maxLatencyMs :=
      event.situation.constraints.timeBudgetMs.getD adapter.defaultBudget.maxLatencyMs
    maxCostUsd :=
      event.situation.constraints.costBudgetUsd.getD adapter.defaultBudget.maxCostUsd }

/-- `SituationPackager::package_entities`. -/
def packageEntities (situation : Situation) : List EntityRefLite := situation.currentEntities

/-- `RuleBasedAdapter::adapt`. -/
def adapt (adapter : RuleBasedAdapter) (fresh : IntentFresh) (event : AppEvent) :
    Option IntentEnvelope :=
  match adapter.rules.lookup event.eventType with
  | none => none
  | some intentType => some
    { intentId := fresh.intentId
      intentType := intentType
      requester :=
        ⟨event.situation.session.userId, event.situation.session.role,
          event.situation.session.scopes, some event.situation.session.tenantId⟩
      goal := "handle event " ++ event.eventType
      domain := event.source.surface
      constraints := ∅
      budget := adapter.budget event
      deadline := none
      riskTier := riskTier intentType
      approvalPolicy := "human"
      outputContract := none
      traceId := event.traceId.getD fresh.traceId
      depth := 0
      createdAt := fresh.now
      entitiesInContext := packageEntities event.situation }

/-! ## What becomes of a composite event -/

section Adapt

variable {adapter : RuleBasedAdapter} {ids : ℕ → EventId} {event : AppEvent}
  {subs : List AppEvent}

/-- An event is adapted to an intent of the type that the rules have for it. -/
theorem adapt_eq_some_iff {fresh : IntentFresh} {intentType : IntentType} :
    (∃ intent, adapter.adapt fresh event = some intent ∧ intent.intentType = intentType) ↔
      adapter.rules.lookup event.eventType = some intentType := by
  rw [adapt]
  cases adapter.rules.lookup event.eventType with
  | none => simp
  | some intentType' => simp

/-- Events of one session adapt to intents of one requester and one budget. -/
theorem adapt_inherits {fresh fresh' : IntentFresh} {sub : AppEvent}
    {parent intent : IntentEnvelope} (hsituation : sub.situation = event.situation)
    (hparent : adapter.adapt fresh event = some parent)
    (hintent : adapter.adapt fresh' sub = some intent) :
    intent.requester = parent.requester ∧ intent.budget = parent.budget := by
  rw [adapt] at hparent hintent
  cases hrule : adapter.rules.lookup event.eventType with
  | none =>
    rw [hrule] at hparent
    cases hparent
  | some intentType =>
    cases hsub : adapter.rules.lookup sub.eventType with
    | none =>
      rw [hsub] at hintent
      cases hintent
    | some intentType' =>
      rw [hrule] at hparent
      rw [hsub] at hintent
      cases hparent
      cases hintent
      exact ⟨by rw [hsituation], by rw [budget, budget, hsituation]⟩

/-- What a decomposed event consists of. -/
theorem route_eq_decomposed (h : ruleBasedClassifier.route ids event = .decomposed subs) :
    ∃ items, event.payload = .arr items ∧
      subs = items.mapIdx fun i item => RuleBasedClassifier.subEvent ids event item i := by
  rw [EventClassifier.route] at h
  cases hclass : ruleBasedClassifier.classify event with
  | fastPath =>
    rw [hclass] at h
    cases h
  | agentInterpret =>
    rw [hclass] at h
    cases h
  | composite =>
    rw [hclass] at h
    cases hsubs : ruleBasedClassifier.decompose ids event with
    | none =>
      rw [hsubs] at h
      cases h
    | some subs' =>
      rw [hsubs] at h
      cases h
      change RuleBasedClassifier.decompose ids event = some subs at hsubs
      rw [RuleBasedClassifier.decompose] at hsubs
      split at hsubs
      next items hpayload =>
        split_ifs at hsubs
        exact ⟨items, hpayload, (Option.some.inj hsubs).symm⟩
      next => cases hsubs

/-- **A composite event stays actionable**: there is one sub-event for each element of its
payload, in their order, and each of them is adapted to an intent of the given type, which has the
requester (with the tenant) and the budget of the intent that the event itself is adapted to. -/
structure StaysActionable (adapter : RuleBasedAdapter) (event : AppEvent) (intentType : IntentType)
    (subs : List AppEvent) : Prop where
  elements : event.payload = .arr (subs.map AppEvent.payload)
  adapted : ∀ sub ∈ subs, ∀ fresh fresh', ∃ parent intent,
    adapter.adapt fresh event = some parent ∧ adapter.adapt fresh' sub = some intent ∧
      intent.intentType = intentType ∧ intent.requester = parent.requester ∧
      intent.budget = parent.budget

/-- **It does exactly when there are rules for the sub-events**: when the rules have the type of
the event for the type of every sub-event. -/
theorem stays_actionable_iff {intentType : IntentType}
    (htype : adapter.rules.lookup event.eventType = some intentType)
    (hroute : ruleBasedClassifier.route ids event = .decomposed subs) :
    StaysActionable adapter event intentType subs ↔
      ∀ i < subs.length,
        adapter.rules.lookup (RuleBasedClassifier.subType event.eventType i) = some intentType := by
  obtain ⟨items, hpayload, rfl⟩ := route_eq_decomposed hroute
  constructor
  · intro h i hi
    rw [List.length_mapIdx] at hi
    obtain ⟨-, intent, -, hintent, hintentType, -⟩ := h.adapted
      (RuleBasedClassifier.subEvent ids event items[i] i) (List.mem_mapIdx.mpr ⟨i, hi, rfl⟩)
      ⟨⟨""⟩, ⟨""⟩, 0⟩ ⟨⟨""⟩, ⟨""⟩, 0⟩
    exact adapt_eq_some_iff.mp ⟨intent, hintent, hintentType⟩
  · intro h
    refine ⟨?_, fun sub hmem fresh fresh' => ?_⟩
    · rw [hpayload]
      congr 1
      refine List.ext_getElem (by simp) fun i hi hi' => ?_
      simp [RuleBasedClassifier.subEvent]
    · obtain ⟨i, hi, rfl⟩ := List.mem_mapIdx.mp hmem
      have hrule := h i (by rwa [List.length_mapIdx])
      obtain ⟨parent, hparent, -⟩ := (@adapt_eq_some_iff adapter event fresh intentType).mpr htype
      obtain ⟨intent, hintent, hintentType⟩ := (@adapt_eq_some_iff adapter
        (RuleBasedClassifier.subEvent ids event items[i] i) fresh' intentType).mpr hrule
      exact ⟨parent, intent, hparent, hintent, hintentType,
        @adapt_inherits adapter event fresh fresh'
          (RuleBasedClassifier.subEvent ids event items[i] i) parent intent rfl hparent hintent⟩

end Adapt

namespace SampleBatch

def session : SessionContext := ⟨"u", "analyst", ["sales:read"], "en-US", ⟨"t-a"⟩⟩

/-- An event with two orders. -/
def event : AppEvent where
  eventId := ⟨"evt-1"⟩
  eventType := "order.cancel.requested"
  source := ⟨"ops", "order-detail"⟩
  situation := ⟨[], none, session, ⟨none, none⟩⟩
  payload := .arr [.str "ord-1", .str "ord-2"]
  sessionId := "ses-1"
  timestamp := 0
  traceId := none

def ids (i : ℕ) : EventId := ⟨"evt-1-" ++ toString i⟩

def budget : BudgetContract := ⟨3000, .finite (1 / 2), 15000⟩

def subs : List AppEvent :=
  [RuleBasedClassifier.subEvent ids event (.str "ord-1") 0,
    RuleBasedClassifier.subEvent ids event (.str "ord-2") 1]

/-- A rule for the event only. -/
def adapter : RuleBasedAdapter :=
  ⟨(∅ : HashMap String IntentType).insert "order.cancel.requested" .transactionalIntent, budget⟩

/-- Rules for the event and for its two sub-events. -/
def completeAdapter : RuleBasedAdapter :=
  ⟨(((∅ : HashMap String IntentType).insert "order.cancel.requested" .transactionalIntent).insert
    "order.cancel.requested[0]" .transactionalIntent).insert
    "order.cancel.requested[1]" .transactionalIntent, budget⟩

theorem route_event : ruleBasedClassifier.route ids event = .decomposed subs := by
  rfl

end SampleBatch

theorem stays_actionable_iff_batch :
    StaysActionable SampleBatch.completeAdapter SampleBatch.event .transactionalIntent
      SampleBatch.subs := by
  refine (stays_actionable_iff (by decide +kernel) SampleBatch.route_event).mpr fun i hi => ?_
  obtain rfl | rfl : i = 0 ∨ i = 1 := by
    have : i < 2 := hi
    omega
  · decide +kernel
  · decide +kernel

/-- Both sub-events are dropped, though there is a rule for the event. -/
theorem batch_dropped :
    SampleBatch.adapter.rules.lookup SampleBatch.event.eventType = some .transactionalIntent ∧
      ruleBasedClassifier.route SampleBatch.ids SampleBatch.event =
        .decomposed SampleBatch.subs ∧
      (∀ sub ∈ SampleBatch.subs, ∀ fresh, SampleBatch.adapter.adapt fresh sub = none) ∧
      ¬ StaysActionable SampleBatch.adapter SampleBatch.event .transactionalIntent
        SampleBatch.subs := by
  have hdropped : ∀ sub ∈ SampleBatch.subs, ∀ fresh,
      SampleBatch.adapter.adapt fresh sub = none := by
    intro sub hmem fresh
    have hrule : SampleBatch.adapter.rules.lookup sub.eventType = none := by
      rcases List.mem_cons.mp hmem with rfl | hmem
      · decide +kernel
      · rw [List.mem_singleton.mp hmem]
        decide +kernel
    rw [adapt, hrule]
  refine ⟨by decide +kernel, SampleBatch.route_event, hdropped, fun h => ?_⟩
  obtain ⟨-, intent, -, hintent, -⟩ := h.adapted _ List.mem_cons_self
    ⟨⟨""⟩, ⟨""⟩, 0⟩ ⟨⟨""⟩, ⟨""⟩, 0⟩
  rw [hdropped _ List.mem_cons_self] at hintent
  cases hintent

end RuleBasedAdapter

end Aaf
