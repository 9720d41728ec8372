import Aaf.Scope

/-!
# Classification flow, at planning time and at run time

A capability must not read an entity classified above its own data. The planner checks
this on the capabilities of a plan (`detect_classification_leak`), the policy engine on
the capability of a step (`boundary_enforcement`), each with its own tables of levels.

`Leaks` says the rule once. Both checks, with the other checks around them out of the
way, report exactly the capabilities that leak: `classification_checks_agree`.
-/

namespace Aaf

/-- The class of the policy crate that a hint of the planner crate stands for. -/
def ClassificationHint.toClass : ClassificationHint → EntityClass
  | .publicData => .publicData
  | .internal => .internal
  | .pii => .pii
  | .regulated regime => .regulated regime

theorem level_toClass (hint : ClassificationHint) : hint.toClass.level = hint.level := by
  cases hint <;> rfl

theorem capabilityLevel_eq (c : DataClassification) :
    capabilityLevel c = ClassificationHint.levelOfCapability c := by
  cases c <;> rfl

namespace EntityAwareComposition

variable (checker : EntityAwareComposition)

/-- The planner's lookup, as the policy context takes it. -/
def policyLookup : Option (String → Option EntityClass) :=
  checker.classificationLookup.map fun lookup entityId =>
    (lookup entityId).map ClassificationHint.toClass

/-- The flow rule: the capability reads an entity that the lookup classifies above it. -/
def Leaks (cap : CapabilityContract) : Prop :=
  ∃ lookup ∈ checker.classificationLookup, ∃ read ∈ cap.reads,
    ∃ hint ∈ lookup read.entityId,
      ClassificationHint.levelOfCapability cap.dataClassification < hint.level

/-- The planner check reports a classification leak. -/
def ReportsLeak (capabilities : List CapabilityContract) : Prop :=
  ∃ capability entityId capabilityClass hint,
    checker.check capabilities =
      .error (.classificationLeak capability entityId capabilityClass hint)

/-- The base checker and the two write detectors pass. -/
structure WritesPass (capabilities : List CapabilityContract) : Prop where
  base : checker.base.isSafe capabilities = true
  fanOut : detectCrossTenantFanOut capabilities = none
  doubleWrite : detectDoubleWrite capabilities = none

/-- A context in which only the flow rule is left to check: the tenants match, the
requester holds the capability's classification scope and writes go to the active
tenant. -/
structure Cleared (cap : CapabilityContract) (ctx : PolicyContext) : Prop where
  capability : ctx.capability = some cap
  lookup : ctx.ontologyClassLookup = checker.policyLookup
  tenant : ∀ active ∈ ctx.tenant, ∀ req ∈ ctx.requester.tenant, active = req
  confidential : cap.dataClassification = .confidential →
    "confidential:read" ∈ ctx.requester.scopes
  restricted : cap.dataClassification = .restricted → "restricted:read" ∈ ctx.requester.scopes
  writes : ∀ write ∈ cap.writes, ∀ tenant ∈ write.tenant, ∀ active ∈ ctx.tenant, tenant = active

variable {checker} {cap : CapabilityContract} {ctx : PolicyContext}

/-! ## The planner -/

theorem leakOf_eq_some_iff {lookup : String → Option ClassificationHint} {read : EntityRefLite}
    {v : CompositionViolation} :
    leakOf lookup cap read = some v ↔
      ∃ hint ∈ lookup read.entityId,
        ClassificationHint.levelOfCapability cap.dataClassification < hint.level ∧
          v = .classificationLeak cap.id.raw read.entityId cap.dataClassification hint := by
  rw [leakOf]
  rcases lookup read.entityId with _ | hint
  · simp
  · by_cases hlevel : ClassificationHint.levelOfCapability cap.dataClassification < hint.level
    · simp [hlevel, eq_comm]
    · simp [hlevel]

/-- What the leak detector finds is a leak of one of the capabilities. -/
theorem exists_leak_iff (checker : EntityAwareComposition)
    (capabilities : List CapabilityContract) :
    (∃ v, checker.classificationLookup.bind (detectClassificationLeak capabilities) = some v) ↔
      ∃ cap ∈ capabilities, checker.Leaks cap := by
  simp only [Leaks]
  rcases checker.classificationLookup with _ | lookup
  · simp
  · have hfound : (∃ v, detectClassificationLeak capabilities lookup = some v) ↔
        ∃ cap ∈ capabilities, ∃ read ∈ cap.reads, ∃ v, leakOf lookup cap read = some v := by
      rw [← Option.isSome_iff_exists, detectClassificationLeak, List.findSome?_isSome_iff]
      refine exists_congr fun cap => and_congr_right fun _ => ?_
      rw [List.findSome?_isSome_iff]
      simp only [Option.isSome_iff_exists]
    rw [Option.bind_some, hfound]
    simp [leakOf_eq_some_iff]

/-- It reports nothing but leaks. -/
theorem leak_of_detect {capabilities : List CapabilityContract} {v : CompositionViolation}
    (h : checker.classificationLookup.bind (detectClassificationLeak capabilities) = some v) :
    ∃ capability entityId capabilityClass hint,
      v = .classificationLeak capability entityId capabilityClass hint := by
  obtain ⟨lookup, -, hdetect⟩ := Option.bind_eq_some_iff.mp h
  obtain ⟨cap, -, hcap⟩ := List.exists_of_findSome?_eq_some hdetect
  obtain ⟨read, -, hread⟩ := List.exists_of_findSome?_eq_some hcap
  obtain ⟨hint, -, -, hv⟩ := leakOf_eq_some_iff.mp hread
  exact ⟨_, _, _, hint, hv⟩

/-- The planner's detectors, when only the leak detector has something to say. -/
theorem violation_of_writesPass {capabilities : List CapabilityContract}
    (h : checker.WritesPass capabilities) :
    checker.violation capabilities =
      checker.classificationLookup.bind (detectClassificationLeak capabilities) := by
  rw [violation, h.fanOut, h.doubleWrite, Option.none_or, Option.none_or]

theorem reportsLeak_iff {capabilities : List CapabilityContract}
    (h : checker.WritesPass capabilities) :
    checker.ReportsLeak capabilities ↔ ∃ cap ∈ capabilities, checker.Leaks cap := by
  rw [← exists_leak_iff, ReportsLeak, check, if_neg (not_not.mpr h.base),
    violation_of_writesPass h]
  rcases hdetect : checker.classificationLookup.bind (detectClassificationLeak capabilities)
    with _ | v
  · simp
  · obtain ⟨capability, entityId, capabilityClass, hint, rfl⟩ := leak_of_detect hdetect
    exact ⟨fun _ => ⟨_, rfl⟩, fun _ => ⟨_, _, _, _, rfl⟩⟩

/-! ## The policy rule -/

theorem Cleared.tenantCheck (h : checker.Cleared cap ctx) : tenantCheck ctx = none := by
  rw [Aaf.tenantCheck]
  rcases hactive : ctx.tenant with _ | active
  · rfl
  · rcases hreq : ctx.requester.tenant with _ | req
    · rfl
    · simp [h.tenant active hactive req hreq]

theorem Cleared.classificationCheck (h : checker.Cleared cap ctx) :
    classificationCheck ctx = none := by
  rcases hclass : cap.dataClassification with _ | _ | _ | _
  · simp [Aaf.classificationCheck, h.capability, hclass]
  · simp [Aaf.classificationCheck, h.capability, hclass]
  · simp [Aaf.classificationCheck, h.capability, hclass, h.confidential hclass]
  · simp [Aaf.classificationCheck, h.capability, hclass, h.restricted hclass]

/-- The check on the writes passes. -/
theorem Cleared.findSome_writes (h : checker.Cleared cap ctx)
    (f : EntityRefLite → TenantId → TenantId → PolicyViolation) :
    (cap.writes.findSome? fun write => write.tenant.bind fun tenant => ctx.tenant.bind fun active =>
      if tenant ≠ active then some (f write tenant active) else none) = none := by
  rw [List.findSome?_eq_none_iff]
  intro write hwrite
  rcases htenant : write.tenant with _ | tenant
  · rfl
  · rcases hactive : ctx.tenant with _ | active
    · rfl
    · simp [h.writes write hwrite tenant htenant active hactive]

/-- The rule, when only the flow rule has something to say. -/
theorem Cleared.evaluate_ne_none_iff (h : checker.Cleared cap ctx) :
    boundaryEnforcement.evaluate ctx ≠ none ↔ checker.Leaks cap := by
  have hevaluate : boundaryEnforcement.evaluate ctx = entityFlowCheck ctx := by
    simp only [boundaryEnforcement, h.tenantCheck, h.classificationCheck, Option.none_or]
  rw [hevaluate, entityFlowCheck, h.capability, h.lookup, policyLookup, Leaks]
  rcases checker.classificationLookup with _ | lookup
  · simp
  · simp only [Option.map_some, Option.bind_eq_bind, Option.bind_some]
    rw [h.findSome_writes, Option.or_none, ne_eq, ← Option.isNone_iff_eq_none,
      Bool.not_eq_true, Option.isNone_eq_false_iff, List.findSome?_isSome_iff]
    simp only [Option.mem_def, Option.some.injEq, exists_eq_left']
    refine exists_congr fun read => and_congr_right fun _ => ?_
    rcases lookup read.entityId with _ | hint
    · simp
    · by_cases hlevel : ClassificationHint.levelOfCapability cap.dataClassification < hint.level
      · simp [hlevel, level_toClass, capabilityLevel_eq]
      · simp [hlevel, level_toClass, capabilityLevel_eq]

/-! ## Agreement -/

/-- **The two checks agree.** With the same lookup, and the other checks of either side
out of the way, the policy rule reports a capability exactly when the planner reports a
leak in the set of this one capability, and the planner reports a leak in a list exactly
when the policy rule reports one of its capabilities. -/
theorem classification_checks_agree (checker : EntityAwareComposition) :
    (∀ cap ctx, checker.Cleared cap ctx → checker.WritesPass [cap] →
      (boundaryEnforcement.evaluate ctx ≠ none ↔ checker.ReportsLeak [cap])) ∧
    ∀ (capabilities : List CapabilityContract) (contextOf : CapabilityContract → PolicyContext),
      (∀ cap ∈ capabilities, checker.Cleared cap (contextOf cap)) →
      checker.WritesPass capabilities →
      (checker.ReportsLeak capabilities ↔
        ∃ cap ∈ capabilities, boundaryEnforcement.evaluate (contextOf cap) ≠ none) := by
  refine ⟨fun cap ctx hcleared hpass => ?_, fun capabilities contextOf hcleared hpass => ?_⟩
  · rw [hcleared.evaluate_ne_none_iff, reportsLeak_iff hpass]
    simp
  · rw [reportsLeak_iff hpass]
    refine exists_congr fun cap => and_congr_right fun hcap => ?_
    exact (hcleared cap hcap).evaluate_ne_none_iff.symm

/-- A public capability that reads customers. -/
def customerReader : CapabilityContract :=
  { CapabilityContract.plain ⟨"cap-customers"⟩ "customers" with
    dataClassification := .publicData
    reads := [⟨"commerce.Customer", ⟨1, 0, 0⟩, none, none⟩] }

/-- Customers are personal data. -/
def customerChecker : EntityAwareComposition :=
  ⟨.default, some fun id => if id = "commerce.Customer" then some .pii else none⟩

theorem classification_checks_agree_customerReader :
    boundaryEnforcement.evaluate
        { askingFor customerReader [] with
          ontologyClassLookup := customerChecker.policyLookup } ≠ none ↔
      customerChecker.ReportsLeak [customerReader] := by
  refine (classification_checks_agree customerChecker).1 customerReader _ ?_ ?_
  · refine ⟨rfl, rfl, ?_, ?_, ?_, ?_⟩
    · intro active hactive
      cases hactive
    · intro hclass
      cases hclass
    · intro hclass
      cases hclass
    · intro write hwrite
      cases hwrite
  · exact ⟨by decide +kernel, by decide +kernel, by decide +kernel⟩

end EntityAwareComposition

end Aaf
