import Mathlib.Data.List.Dedup
import Mathlib.Data.List.Sort
import Mathlib.Data.UInt
import Aaf.Contracts

/-!
# Composition safety

The checks a set of capabilities must pass before it becomes a plan (`aaf-planner`):
`CompositionChecker` caps the write-class side effects, `EntityAwareComposition` also
looks at the entities that are read and written.

What the checks report may depend on the order of the capabilities. Whether they accept
does not: `isSafe_perm`, `violation_isNone_perm`.
-/

namespace Aaf

/-- Classification of an entity, as the caller's lookup resolves it. -/
inductive ClassificationHint : Type where
  | publicData : ClassificationHint
  | internal : ClassificationHint
  | pii : ClassificationHint
  | regulated (regime : String) : ClassificationHint
  deriving DecidableEq, Repr

/-- `ClassificationHint::level`. -/
def ClassificationHint.level : ClassificationHint → ℕ
  | .publicData => 0
  | .internal => 1
  | .pii => 2
  | .regulated _ => 3

/-- `ClassificationHint::level_of_capability`. -/
def ClassificationHint.levelOfCapability : DataClassification → ℕ
  | .publicData => 0
  | .internal => 1
  | .confidential => 2
  | .restricted => 3

/-- What the entity-aware checker rejects a set of capabilities for. -/
inductive CompositionViolation : Type where
  | doubleWrite (entityId : String) (capabilities : List String) : CompositionViolation
  | classificationLeak (capability entityId : String) (capabilityClass : DataClassification)
      (entityClassHint : ClassificationHint) : CompositionViolation
  | crossTenantFanOut (tenants : List String) : CompositionViolation
  deriving DecidableEq, Repr

/-- A `BTreeSet` of strings, as the list it is iterated in. -/
def btreeSet (l : List String) : List String := l.dedup.insertionSort (· ≤ ·)

/-! ## The base checker -/

/-- `CompositionChecker`: the maximum number of write-class side effects in a plan. -/
structure CompositionChecker where
  maxWrites : UInt32
  deriving DecidableEq, Repr

/-- `CompositionChecker::default`. -/
def CompositionChecker.default : CompositionChecker := ⟨3⟩

/-- `CompositionChecker::is_safe`. -/
def CompositionChecker.isSafe (c : CompositionChecker) (capabilities : List CapabilityContract) :
    Bool :=
  decide (UInt32.ofNat (capabilities.countP fun cap => cap.sideEffect.requiresCompensation) ≤
    c.maxWrites)

/-! ## The detectors -/

/-- The entities the capabilities write, each with its writer. -/
def writesOf (capabilities : List CapabilityContract) : List (EntityRefLite × String) :=
  capabilities.flatMap fun cap => cap.writes.map fun w => (w, cap.id.raw)

/-- The writers of an entity id; a capability that declares the write twice is there
twice. -/
def writersOf (capabilities : List CapabilityContract) (entityId : String) : List String :=
  (writesOf capabilities).filterMap fun w => if w.1.entityId = entityId then some w.2 else none

/-- `detect_double_write`: the first entity id with two writers, in the order of a
`BTreeMap`. -/
def detectDoubleWrite (capabilities : List CapabilityContract) : Option CompositionViolation :=
  let entities := btreeSet ((writesOf capabilities).map fun w => w.1.entityId)
  (entities.find? fun e => decide (2 ≤ (writersOf capabilities e).length)).map fun e =>
    .doubleWrite e (writersOf capabilities e)

/-- The tenants under which an entity id is written. -/
def tenantsOf (capabilities : List CapabilityContract) (entityId : String) : List String :=
  btreeSet ((writesOf capabilities).filterMap fun w =>
    if w.1.entityId = entityId then w.1.tenant.map TenantId.raw else none)

/-- `detect_cross_tenant_fan_out`. -/
def detectCrossTenantFanOut (capabilities : List CapabilityContract) :
    Option CompositionViolation :=
  let tenants := btreeSet ((writesOf capabilities).filterMap fun w => w.1.tenant.map TenantId.raw)
  if 2 ≤ tenants.length ∧
      ∃ w ∈ writesOf capabilities, 2 ≤ (tenantsOf capabilities w.1.entityId).length then
    some (.crossTenantFanOut tenants)
  else none

/-- The leak of one read, if it is one. -/
def leakOf (lookup : String → Option ClassificationHint) (cap : CapabilityContract)
    (read : EntityRefLite) : Option CompositionViolation :=
  match lookup read.entityId with
  | some hint =>
    if ClassificationHint.levelOfCapability cap.dataClassification < hint.level then
      some (.classificationLeak cap.id.raw read.entityId cap.dataClassification hint)
    else none
  | none => none

/-- `detect_classification_leak`. -/
def detectClassificationLeak (capabilities : List CapabilityContract)
    (lookup : String → Option ClassificationHint) : Option CompositionViolation :=
  capabilities.findSome? fun cap => cap.reads.findSome? (leakOf lookup cap)

/-- `EntityAwareComposition`. -/
structure EntityAwareComposition where
  base : CompositionChecker
  classificationLookup : Option (String → Option ClassificationHint)

/-- The detectors that look at entities, in their order. -/
def EntityAwareComposition.violation (c : EntityAwareComposition)
    (capabilities : List CapabilityContract) : Option CompositionViolation :=
  (detectCrossTenantFanOut capabilities).or ((detectDoubleWrite capabilities).or
    (c.classificationLookup.bind (detectClassificationLeak capabilities)))

/-- `EntityAwareComposition::check`. -/
def EntityAwareComposition.check (c : EntityAwareComposition)
    (capabilities : List CapabilityContract) : Except CompositionViolation Unit :=
  if ¬ c.base.isSafe capabilities then
    .error (.doubleWrite "" (capabilities.map fun cap => cap.id.raw))
  else
    match c.violation capabilities with
    | some v => .error v
    | none => .ok ()

/-! ## Acceptance does not depend on the order -/

section Perm

variable {caps caps' : List CapabilityContract}

theorem btreeSet_perm {l l' : List String} (h : l.Perm l') : btreeSet l = btreeSet l' := by
  have hsorted : ∀ l : List String, (l.insertionSort (· ≤ ·)).Pairwise (· ≤ ·) :=
    List.pairwise_insertionSort _
  have hsets : (btreeSet l).Perm (btreeSet l') :=
    ((List.perm_insertionSort _ _).trans h.dedup).trans (List.perm_insertionSort _ _).symm
  exact hsets.eq_of_pairwise' (hsorted _) (hsorted _)

theorem CompositionChecker.isSafe_perm (c : CompositionChecker) (h : caps.Perm caps') :
    c.isSafe caps = c.isSafe caps' := by
  rw [isSafe, isSafe, h.countP_eq]

theorem writesOf_perm (h : caps.Perm caps') : (writesOf caps).Perm (writesOf caps') :=
  h.flatMap_right _

theorem detectCrossTenantFanOut_perm (h : caps.Perm caps') :
    detectCrossTenantFanOut caps = detectCrossTenantFanOut caps' := by
  have hwrites := writesOf_perm h
  have hentity : ∀ e, tenantsOf caps e = tenantsOf caps' e := fun e =>
    btreeSet_perm (hwrites.filterMap _)
  have hany : (∃ w ∈ writesOf caps, 2 ≤ (tenantsOf caps w.1.entityId).length) ↔
      ∃ w ∈ writesOf caps', 2 ≤ (tenantsOf caps' w.1.entityId).length := by
    simp only [hwrites.mem_iff, hentity]
  simp only [detectCrossTenantFanOut, btreeSet_perm (hwrites.filterMap _), hany]

theorem detectDoubleWrite_isNone_perm (h : caps.Perm caps') :
    (detectDoubleWrite caps).isNone = (detectDoubleWrite caps').isNone := by
  have hwrites := writesOf_perm h
  have hlength : ∀ e, (writersOf caps e).length = (writersOf caps' e).length := fun e =>
    (hwrites.filterMap _).length_eq
  simp only [detectDoubleWrite, Option.isNone_map, btreeSet_perm (hwrites.map _), hlength]

theorem detectClassificationLeak_isNone_perm (h : caps.Perm caps')
    (lookup : String → Option ClassificationHint) :
    (detectClassificationLeak caps lookup).isNone =
      (detectClassificationLeak caps' lookup).isNone := by
  rw [Bool.eq_iff_iff, Option.isNone_iff_eq_none, Option.isNone_iff_eq_none,
    detectClassificationLeak, detectClassificationLeak, List.findSome?_eq_none_iff,
    List.findSome?_eq_none_iff]
  simp only [h.mem_iff]

theorem EntityAwareComposition.violation_isNone_perm (c : EntityAwareComposition)
    (h : caps.Perm caps') : (c.violation caps).isNone = (c.violation caps').isNone := by
  rw [violation, violation, Option.isNone_or, Option.isNone_or, Option.isNone_or,
    Option.isNone_or, detectCrossTenantFanOut_perm h, detectDoubleWrite_isNone_perm h]
  rcases c.classificationLookup with _ | lookup
  · rfl
  · simp only [Option.bind_some, detectClassificationLeak_isNone_perm h lookup]

theorem EntityAwareComposition.check_eq_ok_iff (c : EntityAwareComposition)
    (capabilities : List CapabilityContract) :
    c.check capabilities = .ok () ↔
      c.base.isSafe capabilities = true ∧ (c.violation capabilities).isNone = true := by
  rw [check]
  by_cases hsafe : c.base.isSafe capabilities = true
  · rw [if_neg (not_not.mpr hsafe)]
    rcases c.violation capabilities with _ | v
    · simp [hsafe]
    · simp
  · rw [if_pos hsafe]
    simp [hsafe]

end Perm

end Aaf
