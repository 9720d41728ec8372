import Aaf.Contracts
import Aaf.Loop

/-!
# Federation agreements

`aaf-federation`: what a cell may do to the entities of another. An agreement lists rules for
pairs of an entity and an operation; the router looks the declared accesses of a capability
up in it.

The lookup takes the first rule of an entity and operation, and that rule alone decides
(`enforceCapability_eq_ok_iff`). So the order of rules for one entity and operation matters
and no other order does: `first_rule_decides`. The gate for a single entity looks the same
rule up and does not read its tenant: `gates_agree_iff`.
-/

namespace Aaf

/-- Cell identifier. -/
structure CellId where
  raw : String
  deriving DecidableEq, Repr

/-- Operation kind of a rule. -/
inductive EntityOp : Type where
  | read : EntityOp
  | write : EntityOp
  | emit : EntityOp
  deriving DecidableEq, Repr

/-- Maximum classification that a rule permits. -/
inductive ClassificationCap : Type where
  | publicData : ClassificationCap
  | internal : ClassificationCap
  | confidential : ClassificationCap
  | restricted : ClassificationCap
  deriving DecidableEq, Repr

/-- `ClassificationCap::level`. -/
def ClassificationCap.level : ClassificationCap → ℕ
  | .publicData => 0
  | .internal => 1
  | .confidential => 2
  | .restricted => 3

/-- `ClassificationCap::for_data`. -/
def ClassificationCap.forData : DataClassification → ℕ
  | .publicData => 0
  | .internal => 1
  | .confidential => 2
  | .restricted => 3

/-- An entity-space rule. -/
structure EntityAccessRule where
  entityId : String
  op : EntityOp
  maxClassification : Option ClassificationCap
  tenant : Option String
  deriving DecidableEq, Repr

/-- The rule is about this entity and operation. -/
def EntityAccessRule.covers (entityId : String) (op : EntityOp) (rule : EntityAccessRule) : Bool :=
  decide (rule.entityId = entityId ∧ rule.op = op)

/-- A federation agreement. A `HashSet` is the list of its elements, in the order in which
they are visited. -/
structure FederationAgreement where
  parties : List CellId
  prohibitedFields : List String
  entityRules : List EntityAccessRule
  deriving DecidableEq, Repr

/-- `FederationAgreement::has_entity_rules`. -/
def FederationAgreement.hasEntityRules (agreement : FederationAgreement) : Bool :=
  !agreement.entityRules.isEmpty

/-- `FederationAgreement::find_rule`. -/
def FederationAgreement.findRule (agreement : FederationAgreement) (entityId : String)
    (op : EntityOp) : Option EntityAccessRule :=
  agreement.entityRules.find? (EntityAccessRule.covers entityId op)

/-- Errors raised by the federation layer. -/
inductive FederationError : Type where
  | noAgreement (cell : CellId) : FederationError
  | boundaryViolation (field : String) : FederationError
  | entityNotPermitted (entityId : String) (op : EntityOp) : FederationError
  | classificationCapExceeded (capability entityId : String) (dataClass : DataClassification)
      (cap : ClassificationCap) : FederationError
  | tenantMismatch (entityId ruleTenant capTenant : String) : FederationError
  deriving DecidableEq, Repr

/-- `EntityVersionLite::default`. -/
def EntityVersionLite.initial : EntityVersionLite := ⟨0, 1, 0⟩

/-- `EntityRefLite::new`. -/
def EntityRefLite.new (entityId : String) : EntityRefLite := ⟨entityId, .initial, none, none⟩

/-- The agreements of a cross-cell router. -/
structure Router where
  agreements : List FederationAgreement
  deriving DecidableEq, Repr

namespace Router

/-- `Router::agreement_for`. -/
def agreementFor (router : Router) (source target : CellId) :
    Except FederationError FederationAgreement :=
  match router.agreements.find? fun agreement =>
      decide (source ∈ agreement.parties ∧ target ∈ agreement.parties) with
  | some agreement => .ok agreement
  | none => .error (.noAgreement target)

/-- `Router::enforce_outbound`. -/
def enforceOutbound (router : Router) (source target : CellId) (payload : Json) :
    Except FederationError Unit := do
  let agreement ← router.agreementFor source target
  match payload with
  | .obj fields =>
    match agreement.prohibitedFields.find? fun field =>
        fields.any fun entry => decide (entry.1 = field) with
    | some field => .error (.boundaryViolation field)
    | none => .ok ()
  | _ => .ok ()

/-- The first `if let` of `check`. -/
def checkClassification (rule : EntityAccessRule) (capability : CapabilityContract)
    (entityRef : EntityRefLite) : Except FederationError Unit :=
  match rule.maxClassification with
  | some cap =>
    if ClassificationCap.forData capability.dataClassification > cap.level then
      .error (.classificationCapExceeded capability.id.raw entityRef.entityId
        capability.dataClassification cap)
    else .ok ()
  | none => .ok ()

/-- The second `if let` of `check`. -/
def checkTenant (rule : EntityAccessRule) (entityRef : EntityRefLite) :
    Except FederationError Unit :=
  match rule.tenant, entityRef.tenant with
  | some ruleTenant, some capTenant =>
    if ruleTenant ≠ capTenant.raw then
      .error (.tenantMismatch entityRef.entityId ruleTenant capTenant.raw)
    else .ok ()
  | _, _ => .ok ()

/-- The `check` of `enforce_capability`. -/
def check (agreement : FederationAgreement) (capability : CapabilityContract)
    (entityRef : EntityRefLite) (op : EntityOp) : Except FederationError Unit :=
  match agreement.findRule entityRef.entityId op with
  | none => .error (.entityNotPermitted entityRef.entityId op)
  | some rule => do
    checkClassification rule capability entityRef
    checkTenant rule entityRef

/-- `Router::enforce_capability`. -/
def enforceCapability (router : Router) (source target : CellId)
    (capability : CapabilityContract) : Except FederationError Unit := do
  let agreement ← router.agreementFor source target
  if !agreement.hasEntityRules then
    router.enforceOutbound source target (.obj [])
  else do
    capability.reads.forM fun r => check agreement capability r .read
    capability.writes.forM fun w => check agreement capability w .write
    capability.emits.forM fun e => check agreement capability (.new e.id) .emit

/-- `Router::enforce_outbound_entity`. -/
def enforceOutboundEntity (router : Router) (source target : CellId) (entity : EntityRefLite)
    (op : EntityOp) : Except FederationError Unit := do
  let agreement ← router.agreementFor source target
  if !agreement.hasEntityRules then .ok ()
  else
    match agreement.findRule entity.entityId op with
    | some _ => .ok ()
    | none => .error (.entityNotPermitted entity.entityId op)

end Router

/-! ## What a rule admits -/

/-- A rule admits an access to its entity by its operation, for its tenant and up to its
classification. -/
def EntityAccessRule.Admits (rule : EntityAccessRule) (dataClass : DataClassification)
    (entity : EntityRefLite) (op : EntityOp) : Prop :=
  (rule.entityId = entity.entityId ∧ rule.op = op) ∧
    (∀ cap, rule.maxClassification = some cap → ClassificationCap.forData dataClass ≤ cap.level) ∧
    ∀ ruleTenant refTenant, rule.tenant = some ruleTenant → entity.tenant = some refTenant →
      ruleTenant = refTenant.raw

/-- Everything that a capability declares to do. -/
def CapabilityContract.accesses (capability : CapabilityContract) :
    List (EntityRefLite × EntityOp) :=
  capability.reads.map (·, .read) ++ capability.writes.map (·, .write) ++
    capability.emits.map fun e => (.new e.id, .emit)

/-- The first rule of the entity and operation admits the access. -/
def FederationAgreement.Permits (agreement : FederationAgreement) (dataClass : DataClassification)
    (access : EntityRefLite × EntityOp) : Prop :=
  ∃ rule, agreement.findRule access.1.entityId access.2 = some rule ∧
    rule.Admits dataClass access.1 access.2

theorem EntityAccessRule.covers_iff {rule : EntityAccessRule} {entityId : String} {op : EntityOp} :
    rule.covers entityId op = true ↔ rule.entityId = entityId ∧ rule.op = op :=
  decide_eq_true_iff

theorem FederationAgreement.covers_of_findRule {agreement : FederationAgreement}
    {entityId : String} {op : EntityOp} {rule : EntityAccessRule}
    (h : agreement.findRule entityId op = some rule) : rule.entityId = entityId ∧ rule.op = op :=
  EntityAccessRule.covers_iff.mp (List.find?_some h)

namespace Router

theorem checkClassification_eq_ok_iff {rule : EntityAccessRule} {capability : CapabilityContract}
    {entity : EntityRefLite} :
    checkClassification rule capability entity = .ok () ↔ ∀ cap,
      rule.maxClassification = some cap →
        ClassificationCap.forData capability.dataClassification ≤ cap.level := by
  rw [checkClassification]
  cases rule.maxClassification <;> simp

theorem checkTenant_eq_ok_iff {rule : EntityAccessRule} {entity : EntityRefLite} :
    checkTenant rule entity = .ok () ↔ ∀ ruleTenant refTenant,
      rule.tenant = some ruleTenant → entity.tenant = some refTenant →
        ruleTenant = refTenant.raw := by
  rw [checkTenant]
  cases rule.tenant <;> cases entity.tenant <;> simp

theorem check_eq_ok_iff {agreement : FederationAgreement} {capability : CapabilityContract}
    {entity : EntityRefLite} {op : EntityOp} :
    check agreement capability entity op = .ok () ↔
      agreement.Permits capability.dataClassification (entity, op) := by
  rw [check, FederationAgreement.Permits]
  cases hrule : agreement.findRule entity.entityId op with
  | none => simp
  | some rule =>
    have hcovers := FederationAgreement.covers_of_findRule hrule
    simp [EntityAccessRule.Admits, hcovers, Loop.bind_unit_ok_iff, checkClassification_eq_ok_iff,
      checkTenant_eq_ok_iff]

/-- **The first rule of each declared access decides.** -/
theorem enforceCapability_eq_ok_iff {router : Router} {source target : CellId}
    {agreement : FederationAgreement} {capability : CapabilityContract}
    (hagreement : router.agreementFor source target = .ok agreement)
    (hrules : agreement.entityRules ≠ []) :
    router.enforceCapability source target capability = .ok () ↔
      ∀ access ∈ capability.accesses,
        agreement.Permits capability.dataClassification access := by
  have hhas : (!agreement.hasEntityRules) = false := by
    simp [FederationAgreement.hasEntityRules, hrules]
  rw [enforceCapability, hagreement, Loop.bind_ok_iff]
  simp only [Except.ok.injEq, exists_eq_left', hhas, Bool.false_eq_true, if_false]
  simp only [Loop.bind_unit_ok_iff, Loop.forM_ok_iff, check_eq_ok_iff, CapabilityContract.accesses,
    List.forall_mem_append, List.forall_mem_map, and_assoc]

end Router

/-! ## The order of rules -/

namespace FederationAgreement

variable {agreement agreement' : FederationAgreement} {dataClass : DataClassification}
  {access : EntityRefLite × EntityOp}

/-- An access that is permitted is admitted by one of the rules. -/
theorem Permits.exists_mem (h : agreement.Permits dataClass access) :
    ∃ rule ∈ agreement.entityRules, rule.Admits dataClass access.1 access.2 := by
  obtain ⟨rule, hfind, hadmits⟩ := h
  exact ⟨rule, List.mem_of_find?_eq_some hfind, hadmits⟩

/-- One rule for an entity and operation at most. -/
def Unambiguous (agreement : FederationAgreement) : Prop :=
  agreement.entityRules.Pairwise fun rule rule' =>
    ¬ (rule.entityId = rule'.entityId ∧ rule.op = rule'.op)

/-- With one rule for an entity and operation at most, any rule that admits is the first. -/
theorem permits_iff_exists_mem (hone : agreement.Unambiguous) :
    agreement.Permits dataClass access ↔
      ∃ rule ∈ agreement.entityRules, rule.Admits dataClass access.1 access.2 := by
  refine ⟨Permits.exists_mem, ?_⟩
  rintro ⟨rule, hmem, hadmits⟩
  obtain ⟨before, after, hrules⟩ := List.append_of_mem hmem
  rw [Unambiguous, hrules, List.pairwise_append] at hone
  refine ⟨rule, ?_, hadmits⟩
  rw [findRule, hrules, List.find?_append, List.find?_cons_of_pos
    (EntityAccessRule.covers_iff.mpr hadmits.1), Option.or_eq_some_iff]
  refine Or.inr ⟨List.find?_eq_none.mpr fun other hother hcovers => ?_, rfl⟩
  obtain ⟨hid, hop⟩ := EntityAccessRule.covers_iff.mp hcovers
  refine hone.2.2 other hother rule (List.mem_cons_self ..) ⟨?_, ?_⟩
  · rw [hid, hadmits.1.1]
  · rw [hop, hadmits.1.2]

/-- Rules for other entities and operations do not come into it. -/
theorem permits_iff_of_filter_eq
    (hsame : ∀ entityId op, agreement'.entityRules.filter (EntityAccessRule.covers entityId op) =
      agreement.entityRules.filter (EntityAccessRule.covers entityId op)) :
    agreement'.Permits dataClass access ↔ agreement.Permits dataClass access := by
  rw [Permits, Permits, findRule, findRule, ← List.head?_filter, ← List.head?_filter, hsame]

/-- A rule behind the others of its entity and operation takes nothing away. -/
theorem Permits.of_insert {before after : List EntityAccessRule} {rule : EntityAccessRule}
    (hrules : agreement.entityRules = before ++ after)
    (hrules' : agreement'.entityRules = before ++ rule :: after)
    (hlast : ∀ other ∈ after, ¬ (other.entityId = rule.entityId ∧ other.op = rule.op))
    (h : agreement.Permits dataClass access) : agreement'.Permits dataClass access := by
  obtain ⟨first, hfind, hadmits⟩ := h
  refine ⟨first, ?_, hadmits⟩
  rw [findRule, hrules, List.find?_append, Option.or_eq_some_iff] at hfind
  rw [findRule, hrules', List.find?_append, Option.or_eq_some_iff]
  rcases hfind with hbefore | ⟨hnone, hafter⟩
  · exact Or.inl hbefore
  · refine Or.inr ⟨hnone, ?_⟩
    rw [List.find?_cons_of_neg, hafter]
    -- the first rule stands behind the new one, which is therefore about something else
    intro hcovers
    obtain ⟨hid, hop⟩ := EntityAccessRule.covers_iff.mp hcovers
    obtain ⟨hid', hop'⟩ := EntityAccessRule.covers_iff.mp (List.find?_some hafter)
    exact hlast first (List.mem_of_find?_eq_some hafter) ⟨hid'.trans hid.symm, hop'.trans hop.symm⟩

/-- The order of such rules does not matter. -/
theorem permits_iff_of_perm (hone : agreement.Unambiguous)
    (hperm : agreement'.entityRules.Perm agreement.entityRules) :
    agreement'.Permits dataClass access ↔ agreement.Permits dataClass access := by
  have hone' : agreement'.Unambiguous := by
    refine hperm.symm.pairwise hone ?_
    intro rule rule' hne hsame
    exact hne ⟨hsame.1.symm, hsame.2.symm⟩
  rw [permits_iff_exists_mem hone, permits_iff_exists_mem hone']
  simp only [hperm.mem_iff]

theorem ne_nil_of_filter_eq
    (hsame : ∀ entityId op, agreement'.entityRules.filter (EntityAccessRule.covers entityId op) =
      agreement.entityRules.filter (EntityAccessRule.covers entityId op))
    (hrules : agreement.entityRules ≠ []) : agreement'.entityRules ≠ [] := by
  obtain ⟨rule, hmem⟩ := List.exists_mem_of_ne_nil _ hrules
  have hcovers := List.mem_filter.mpr ⟨hmem, EntityAccessRule.covers_iff.mpr ⟨rfl, rfl⟩⟩
  rw [← hsame] at hcovers
  exact List.ne_nil_of_mem (List.mem_of_mem_filter hcovers)

end FederationAgreement

/-- **The first rule of an entity and operation decides.** Under an agreement with entity
rules, a capability is accepted when each of its declared accesses is admitted by the first
rule for its entity and operation; with one such rule at most, when some rule admits it, in
whatever order the rules stand. Elsewhere the decision depends on the rules of each entity and
operation in their order, and on nothing else, and a rule added behind those of its own entity
and operation never turns acceptance into rejection. -/
theorem first_rule_decides {router : Router} {source target : CellId}
    {agreement : FederationAgreement} (capability : CapabilityContract)
    (hagreement : router.agreementFor source target = .ok agreement)
    (hrules : agreement.entityRules ≠ []) :
    (router.enforceCapability source target capability = .ok () ↔
      ∀ access ∈ capability.accesses, ∃ rule,
        agreement.findRule access.1.entityId access.2 = some rule ∧
          rule.Admits capability.dataClassification access.1 access.2) ∧
    (router.enforceCapability source target capability = .ok () →
      ∀ access ∈ capability.accesses, ∃ rule ∈ agreement.entityRules,
        rule.Admits capability.dataClassification access.1 access.2) ∧
    (agreement.Unambiguous →
      ((∀ access ∈ capability.accesses, ∃ rule ∈ agreement.entityRules,
        rule.Admits capability.dataClassification access.1 access.2) →
          router.enforceCapability source target capability = .ok ()) ∧
      ∀ (router' : Router) agreement', router'.agreementFor source target = .ok agreement' →
        agreement'.entityRules.Perm agreement.entityRules →
        (router'.enforceCapability source target capability = .ok () ↔
          router.enforceCapability source target capability = .ok ())) ∧
    (∀ (router' : Router) agreement', router'.agreementFor source target = .ok agreement' →
      (∀ entityId op, agreement'.entityRules.filter (EntityAccessRule.covers entityId op) =
        agreement.entityRules.filter (EntityAccessRule.covers entityId op)) →
      (router'.enforceCapability source target capability = .ok () ↔
        router.enforceCapability source target capability = .ok ())) ∧
    (∀ (router' : Router) agreement' before after rule,
      router'.agreementFor source target = .ok agreement' →
      agreement.entityRules = before ++ after →
      agreement'.entityRules = before ++ rule :: after →
      (∀ other ∈ after, ¬ (other.entityId = rule.entityId ∧ other.op = rule.op)) →
      router.enforceCapability source target capability = .ok () →
      router'.enforceCapability source target capability = .ok ()) := by
  have hdecides : router.enforceCapability source target capability = .ok () ↔
      ∀ access ∈ capability.accesses, agreement.Permits capability.dataClassification access :=
    Router.enforceCapability_eq_ok_iff hagreement hrules
  refine ⟨hdecides, ?_, fun hone => ⟨?_, ?_⟩, ?_, ?_⟩
  · intro haccepted access haccess
    exact (hdecides.mp haccepted access haccess).exists_mem
  · intro hsome
    refine hdecides.mpr fun access haccess => ?_
    exact (FederationAgreement.permits_iff_exists_mem hone).mpr (hsome access haccess)
  · intro router' agreement' hagreement' hperm
    have hrules' : agreement'.entityRules ≠ [] := by
      intro hnil
      rw [hnil] at hperm
      exact hrules hperm.nil_eq.symm
    rw [hdecides, Router.enforceCapability_eq_ok_iff hagreement' hrules']
    simp only [FederationAgreement.permits_iff_of_perm hone hperm]
  · intro router' agreement' hagreement' hsame
    rw [hdecides, Router.enforceCapability_eq_ok_iff hagreement'
      (FederationAgreement.ne_nil_of_filter_eq hsame hrules)]
    simp only [FederationAgreement.permits_iff_of_filter_eq hsame]
  · intro router' agreement' before after rule hagreement' hbefore hinserted hlast haccepted
    have hrules' : agreement'.entityRules ≠ [] := by simp [hinserted]
    refine (Router.enforceCapability_eq_ok_iff hagreement' hrules').mpr fun access haccess => ?_
    exact (hdecides.mp haccepted access haccess).of_insert hbefore hinserted hlast

/-! ### Orders of two tenants -/

namespace SampleOrders

def japan : CellId := ⟨"cell-japan"⟩

def us : CellId := ⟨"cell-us"⟩

/-- Orders may be read for a tenant. -/
def readOrders (tenant : String) : EntityAccessRule :=
  ⟨"commerce.Order", .read, none, some tenant⟩

def agreement (rules : List EntityAccessRule) : FederationAgreement := ⟨[japan, us], [], rules⟩

def router (rules : List EntityAccessRule) : Router := ⟨[agreement rules]⟩

/-- An order of `tenant-b`. -/
def order : EntityRefLite := { EntityRefLite.new "commerce.Order" with tenant := some ⟨"tenant-b"⟩ }

def capability : CapabilityContract :=
  { CapabilityContract.plain ⟨"cap-order-read"⟩ "order read" with reads := [order] }

theorem agreementFor_router (rules : List EntityAccessRule) :
    (router rules).agreementFor japan us = .ok (agreement rules) := by
  simp [Router.agreementFor, router, agreement]

theorem admits_order : (readOrders "tenant-b").Admits capability.dataClassification order .read := by
  refine ⟨⟨rfl, rfl⟩, ?_, ?_⟩
  · intro cap hcap
    cases hcap
  · intro ruleTenant refTenant hrule href
    cases hrule
    cases href
    rfl

end SampleOrders

open SampleOrders

theorem first_rule_decides_orders :
    (router [readOrders "tenant-b"]).enforceCapability japan us capability = .ok () ∧
      (router [readOrders "tenant-b", readOrders "tenant-a"]).enforceCapability japan us
        capability = .ok () := by
  obtain ⟨-, -, hone, -, hadd⟩ := first_rule_decides capability
    (agreementFor_router [readOrders "tenant-b"]) (List.cons_ne_nil _ _)
  have haccepted := (hone (List.pairwise_singleton _ _)).1 fun access haccess => by
    rw [List.mem_singleton.mp haccess]
    exact ⟨_, List.mem_singleton_self _, admits_order⟩
  refine ⟨haccepted, ?_⟩
  exact hadd _ _ [readOrders "tenant-b"] [] (readOrders "tenant-a") (agreementFor_router _) rfl rfl
    (fun other hother => absurd hother List.not_mem_nil) haccepted

/-- Of two rules for an entity the first is asked alone: the second admits the order, the
order of the two decides, and adding the first takes the permission away. -/
theorem some_rule_decides_false :
    (∃ rule ∈ (agreement [readOrders "tenant-a", readOrders "tenant-b"]).entityRules,
      rule.Admits capability.dataClassification order .read) ∧
    capability.accesses = [(order, .read)] ∧
    (router [readOrders "tenant-a", readOrders "tenant-b"]).enforceCapability japan us
      capability = .error (.tenantMismatch "commerce.Order" "tenant-a" "tenant-b") ∧
    (router [readOrders "tenant-b", readOrders "tenant-a"]).enforceCapability japan us
      capability = .ok () ∧
    (router [readOrders "tenant-b"]).enforceCapability japan us capability = .ok () := by
  refine ⟨⟨_, List.mem_cons_of_mem _ (List.mem_singleton_self _), admits_order⟩, ?_⟩
  decide +kernel

/-! ## The gate for one entity -/

/-- The capability declares one access, a read or a write. -/
def CapabilityContract.DeclaresOnly (capability : CapabilityContract) (entity : EntityRefLite) :
    EntityOp → Prop
  | .read => capability.reads = [entity] ∧ capability.writes = [] ∧ capability.emits = []
  | .write => capability.reads = [] ∧ capability.writes = [entity] ∧ capability.emits = []
  | .emit => False

theorem CapabilityContract.DeclaresOnly.accesses_eq {capability : CapabilityContract}
    {entity : EntityRefLite} {op : EntityOp} (h : capability.DeclaresOnly entity op) :
    capability.accesses = [(entity, op)] := by
  cases op with
  | read =>
    obtain ⟨hreads, hwrites, hemits⟩ := h
    simp [accesses, hreads, hwrites, hemits]
  | write =>
    obtain ⟨hreads, hwrites, hemits⟩ := h
    simp [accesses, hreads, hwrites, hemits]
  | emit => exact h.elim

namespace Router

theorem enforceCapability_of_no_rules {router : Router} {source target : CellId}
    {agreement : FederationAgreement} (capability : CapabilityContract)
    (hagreement : router.agreementFor source target = .ok agreement)
    (hrules : agreement.entityRules = []) :
    router.enforceCapability source target capability = .ok () := by
  have hhas : (!agreement.hasEntityRules) = true := by
    simp [FederationAgreement.hasEntityRules, hrules]
  have hnone : agreement.prohibitedFields.find? (fun _ => false) = none := by
    simp
  rw [enforceCapability, hagreement, Loop.bind_ok_iff]
  refine ⟨agreement, rfl, ?_⟩
  rw [if_pos hhas, enforceOutbound, hagreement, Loop.bind_ok_iff]
  refine ⟨agreement, rfl, ?_⟩
  simp only [List.any_nil, hnone]

theorem enforceOutboundEntity_eq_ok_iff {router : Router} {source target : CellId}
    {agreement : FederationAgreement} {entity : EntityRefLite} {op : EntityOp}
    (hagreement : router.agreementFor source target = .ok agreement) :
    router.enforceOutboundEntity source target entity op = .ok () ↔
      agreement.entityRules = [] ∨ ∃ rule, agreement.findRule entity.entityId op = some rule := by
  rw [enforceOutboundEntity, hagreement, Loop.bind_ok_iff]
  simp only [Except.ok.injEq, exists_eq_left', FederationAgreement.hasEntityRules, Bool.not_not,
    List.isEmpty_iff]
  by_cases hrules : agreement.entityRules = []
  · simp [hrules]
  · rw [if_neg hrules, or_iff_right hrules]
    cases agreement.findRule entity.entityId op <;> simp

theorem mem_of_agreementFor {router : Router} {source target : CellId}
    {agreement : FederationAgreement} (h : router.agreementFor source target = .ok agreement) :
    agreement ∈ router.agreements := by
  rw [agreementFor] at h
  split at h
  · next hfind =>
    cases h
    exact List.mem_of_find?_eq_some hfind
  · cases h

end Router

/-- The rule that the gates look up is bound to no other tenant than the reference's. -/
def Router.TenantMet (router : Router) (source target : CellId) (entity : EntityRefLite)
    (op : EntityOp) : Prop :=
  ∀ agreement rule ruleTenant refTenant, router.agreementFor source target = .ok agreement →
    agreement.findRule entity.entityId op = some rule → rule.tenant = some ruleTenant →
    entity.tenant = some refTenant → ruleTenant = refTenant.raw

theorem Router.tenantMet_of_no_rule {router : Router} {source target : CellId}
    {agreement : FederationAgreement} {entity : EntityRefLite} {op : EntityOp}
    (hagreement : router.agreementFor source target = .ok agreement)
    (hnone : agreement.findRule entity.entityId op = none) :
    router.TenantMet source target entity op := by
  intro agreement' rule ruleTenant refTenant hagreement' hfind
  cases hagreement.symm.trans hagreement'
  cases hnone.symm.trans hfind

theorem Router.tenantMet_iff {router : Router} {source target : CellId}
    {agreement : FederationAgreement} {entity : EntityRefLite} {op : EntityOp}
    {rule : EntityAccessRule} (hagreement : router.agreementFor source target = .ok agreement)
    (hfind : agreement.findRule entity.entityId op = some rule) :
    router.TenantMet source target entity op ↔ ∀ ruleTenant refTenant,
      rule.tenant = some ruleTenant → entity.tenant = some refTenant →
        ruleTenant = refTenant.raw := by
  refine ⟨fun h ruleTenant refTenant => h agreement rule ruleTenant refTenant hagreement hfind, ?_⟩
  intro h agreement' rule' ruleTenant refTenant hagreement' hfind'
  cases hagreement.symm.trans hagreement'
  cases hfind.symm.trans hfind'
  exact h ruleTenant refTenant

/-- **The two gates agree when tenants do.** Without classification caps, the gate for one
entity and the gate for a capability that declares that access alone give one verdict exactly
when the rule that both look up is not bound to a tenant other than the reference's. -/
theorem gates_agree_iff {router : Router} (source target : CellId) {entity : EntityRefLite}
    {op : EntityOp} {capability : CapabilityContract}
    (hcaps : ∀ agreement ∈ router.agreements, ∀ rule ∈ agreement.entityRules,
      rule.maxClassification = none)
    (honly : capability.DeclaresOnly entity op) :
    (router.enforceOutboundEntity source target entity op = .ok () ↔
      router.enforceCapability source target capability = .ok ()) ↔
      router.TenantMet source target entity op := by
  cases hagreement : router.agreementFor source target with
  | error e =>
    rw [Router.enforceOutboundEntity, Router.enforceCapability, hagreement]
    refine iff_of_true ⟨fun h => (by cases h), fun h => (by cases h)⟩ ?_
    intro agreement rule ruleTenant refTenant hok
    cases hagreement.symm.trans hok
  | ok agreement =>
    rw [Router.enforceOutboundEntity_eq_ok_iff hagreement]
    by_cases hrules : agreement.entityRules = []
    · have hnone : agreement.findRule entity.entityId op = none := by
        rw [FederationAgreement.findRule, hrules, List.find?_nil]
      refine iff_of_true (iff_of_true (Or.inl hrules) ?_) ?_
      · exact Router.enforceCapability_of_no_rules capability hagreement hrules
      · exact Router.tenantMet_of_no_rule hagreement hnone
    · rw [or_iff_right hrules, Router.enforceCapability_eq_ok_iff hagreement hrules,
        honly.accesses_eq, List.forall_mem_singleton, FederationAgreement.Permits]
      cases hfind : agreement.findRule entity.entityId op with
      | none => exact iff_of_true (by simp) (Router.tenantMet_of_no_rule hagreement hfind)
      | some rule =>
        have hcap := hcaps agreement (Router.mem_of_agreementFor hagreement) rule
          (List.mem_of_find?_eq_some hfind)
        have hcovers := FederationAgreement.covers_of_findRule hfind
        rw [Router.tenantMet_iff hagreement hfind]
        simp [EntityAccessRule.Admits, hcap, hcovers]

theorem gates_agree_iff_orders :
    (router [readOrders "tenant-b"]).enforceOutboundEntity japan us order .read = .ok () ↔
      (router [readOrders "tenant-b"]).enforceCapability japan us capability = .ok () := by
  have honly : capability.DeclaresOnly order .read := ⟨rfl, rfl, rfl⟩
  refine (gates_agree_iff japan us ?_ honly).mpr ?_
  · intro agreement hagreement rule hrule
    cases List.mem_singleton.mp hagreement
    cases List.mem_singleton.mp hrule
    rfl
  · refine (Router.tenantMet_iff (agreementFor_router _) rfl).mpr ?_
    exact admits_order.2.2

/-- An order of `tenant-b` passes the gate for one entity under a rule for `tenant-a`. -/
theorem gates_disagree_on_tenants :
    (router [readOrders "tenant-a"]).enforceOutboundEntity japan us order .read = .ok () ∧
      capability.reads = [order] ∧ capability.writes = [] ∧ capability.emits = [] ∧
      (readOrders "tenant-a").maxClassification = none ∧
      (router [readOrders "tenant-a"]).enforceCapability japan us capability =
        .error (.tenantMismatch "commerce.Order" "tenant-a" "tenant-b") := by
  decide +kernel

end Aaf
