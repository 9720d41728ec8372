import Mathlib.Data.Prod.Lex
import Aaf.Contracts
import Aaf.Loop

/-!
# The ontology registry

`InMemoryOntologyRegistry` keeps entities under their ids. An upsert goes through three sections,
each under a lock of its own: the relations of the entity are looked up, the entity is compared
with the one it replaces, and it is put in. `upsert_eq` says when it is put in; a replacement is
checked for being a `Compatible` one, which is a preorder.
-/

namespace Aaf

/-- Dot-qualified id of an entity. -/
abbrev EntityId : Type := String

/-- Version triple of an entity schema. -/
structure EntityVersion where
  major : ℕ
  minor : ℕ
  patch : ℕ
  deriving DecidableEq, Repr

namespace EntityVersion

/-- `EntityVersion::initial`. -/
def initial : EntityVersion := ⟨0, 1, 0⟩

/-- `Display` of a version. -/
def display (v : EntityVersion) : String :=
  toString v.major ++ "." ++ toString v.minor ++ "." ++ toString v.patch

/-- The components, in the lexicographic order. -/
def components (v : EntityVersion) : ℕ ×ₗ ℕ ×ₗ ℕ := toLex (v.major, toLex (v.minor, v.patch))

end EntityVersion

/-- Compatibility between two entity versions. -/
inductive VersionCompatibility : Type where
  | compatible : VersionCompatibility
  | additive : VersionCompatibility
  | breaking : VersionCompatibility
  deriving DecidableEq, Repr

/-- `compare_versions`. -/
def compareVersions (current new : EntityVersion) : VersionCompatibility :=
  if new.major > current.major then .breaking
  else if new.major = current.major ∧ new.minor > current.minor then .additive
  else if new.major = current.major ∧ new.minor = current.minor ∧ new.patch ≥ current.patch then
    .compatible
  else .breaking

/-- A change that is not breaking keeps the major number and does not go back. -/
theorem compareVersions_ne_breaking_iff {current new : EntityVersion} :
    compareVersions current new ≠ .breaking ↔
      new.major = current.major ∧ current.components ≤ new.components := by
  rw [EntityVersion.components, EntityVersion.components, Prod.Lex.toLex_le_toLex,
    Prod.Lex.toLex_le_toLex, compareVersions]
  split_ifs with hnewer hadditive hcompatible
  · refine iff_of_false (fun h => h rfl) fun h => ?_
    omega
  · refine iff_of_true (by decide) ⟨hadditive.1, Or.inr ⟨hadditive.1.symm, Or.inl hadditive.2⟩⟩
  · exact iff_of_true (by decide)
      ⟨hcompatible.1, Or.inr ⟨hcompatible.1.symm, Or.inr ⟨hcompatible.2.1.symm, hcompatible.2.2⟩⟩⟩
  · refine iff_of_false (fun h => h rfl) ?_
    dsimp only
    omega

/-- Data classification. -/
inductive Classification : Type where
  | «public» : Classification
  | internal : Classification
  | pii : Classification
  | regulated (tag : String) : Classification
  deriving DecidableEq, Repr

namespace Classification

/-- `Classification::level`. -/
def level : Classification → ℕ
  | «public» => 0
  | internal => 1
  | pii => 2
  | regulated _ => 3

/-- `Classification::can_flow_into`. -/
def canFlowInto (c other : Classification) : Bool := decide (c.level ≤ other.level)

theorem canFlowInto_iff {c other : Classification} :
    c.canFlowInto other = true ↔ c.level ≤ other.level := decide_eq_true_iff

end Classification

/-- One field of an entity. -/
structure EntityField where
  name : String
  /-- The classification that overrides the entity's. -/
  classification : Option Classification
  deriving DecidableEq, Repr

/-- A directional relation between two entities. -/
structure Relation where
  «from» : EntityId
  «to» : EntityId
  deriving DecidableEq, Repr

/-- The ontology entry for an entity. -/
structure Entity where
  id : EntityId
  version : EntityVersion
  classification : Classification
  fields : List EntityField
  relations : List Relation
  deriving DecidableEq, Repr

namespace Entity

/-- What the first field of the name overrides the classification with. -/
def overrideFor (e : Entity) (field : String) : Option Classification :=
  (e.fields.find? fun f => decide (f.name = field)).bind EntityField.classification

/-- `Entity::classification_for`. -/
def classificationFor (e : Entity) (field : String) : Classification :=
  (e.overrideFor field).getD e.classification

/-- The entity has a field of the name. -/
def Declares (e : Entity) (field : String) : Prop := ∃ f ∈ e.fields, f.name = field

/-- The entity may be replaced by the other one: its classification is not lowered, and the
change of version is not breaking. -/
structure Compatible (old new : Entity) : Prop where
  level_le : old.classification.level ≤ new.classification.level
  not_breaking : compareVersions old.version new.version ≠ .breaking

theorem Compatible.refl (e : Entity) : Compatible e e :=
  ⟨le_refl _, compareVersions_ne_breaking_iff.mpr ⟨rfl, le_refl _⟩⟩

theorem Compatible.trans {e f g : Entity} (h : Compatible e f) (h' : Compatible f g) :
    Compatible e g := by
  obtain ⟨hmajor, hle⟩ := compareVersions_ne_breaking_iff.mp h.not_breaking
  obtain ⟨hmajor', hle'⟩ := compareVersions_ne_breaking_iff.mp h'.not_breaking
  exact ⟨h.level_le.trans h'.level_le,
    compareVersions_ne_breaking_iff.mpr ⟨hmajor'.trans hmajor, hle.trans hle'⟩⟩

end Entity

/-- Errors of the ontology. -/
inductive OntologyError : Type where
  | notFound (id : EntityId) : OntologyError
  | incompatibleVersion (message : String) : OntologyError
  | danglingRelation («from» «to» : EntityId) : OntologyError
  | classificationDowngrade («from» «to» : Classification) : OntologyError
  deriving DecidableEq, Repr

/-- `InMemoryOntologyRegistry`. -/
structure OntologyRegistry where
  inner : HashMap EntityId Entity

namespace OntologyRegistry

/-- `InMemoryOntologyRegistry::new`. -/
def new : OntologyRegistry := ⟨∅⟩

/-- What is stored under an id. -/
def stored (r : OntologyRegistry) (id : EntityId) : Option Entity := r.inner.lookup id

/-- The first section of an upsert: the relations point to known entities, or to the entity
itself. -/
def checkRelations (r : OntologyRegistry) (entity : Entity) : Except OntologyError Unit :=
  entity.relations.forM fun rel =>
    if rel.to = entity.id ∨ (r.stored rel.to).isSome then .ok ()
    else .error (.danglingRelation rel.from rel.to)

/-- The second section: the entity may take the place of the stored one. -/
def checkReplaced (r : OntologyRegistry) (entity : Entity) (allowBreaking : Bool) :
    Except OntologyError Unit :=
  match r.stored entity.id with
  | some existing =>
    if !existing.classification.canFlowInto entity.classification then
      .error (.classificationDowngrade existing.classification entity.classification)
    else if compareVersions existing.version entity.version = .breaking ∧ !allowBreaking then
      .error (.incompatibleVersion (existing.version.display ++ " → " ++ entity.version.display ++
        " is breaking (set allow_breaking=true to override)"))
    else .ok ()
  | none => .ok ()

/-- The third section. -/
def insert (r : OntologyRegistry) (entity : Entity) : OntologyRegistry :=
  ⟨r.inner.insert entity.id entity⟩

/-- `InMemoryOntologyRegistry::upsert`. -/
def upsert (r : OntologyRegistry) (entity : Entity) (allowBreaking : Bool) :
    Except OntologyError Unit × OntologyRegistry :=
  match r.checkRelations entity with
  | .error e => (.error e, r)
  | .ok () =>
    match r.checkReplaced entity allowBreaking with
    | .error e => (.error e, r)
    | .ok () => (.ok (), r.insert entity)

/-- `InMemoryOntologyRegistry::get`. -/
def get (r : OntologyRegistry) (id : EntityId) : Except OntologyError Entity :=
  match r.stored id with
  | some entity => .ok entity
  | none => .error (.notFound id)

/-- `InMemoryOntologyRegistry::remove`. -/
def remove (r : OntologyRegistry) (id : EntityId) : Except OntologyError Unit × OntologyRegistry :=
  (.ok (), ⟨r.inner.erase id⟩)

/-! ## What is stored -/

variable {r : OntologyRegistry} {entity : Entity} {id : EntityId} {allowBreaking : Bool}

@[simp] theorem stored_new : new.stored id = none := rfl

theorem stored_insert (r : OntologyRegistry) (entity : Entity) (id : EntityId) :
    (r.insert entity).stored id = if id = entity.id then some entity else r.stored id := by
  rw [stored, insert, stored]
  split_ifs with h
  · rw [h]
    exact AList.lookup_insert _
  · exact AList.lookup_insert_ne h

theorem stored_remove (r : OntologyRegistry) (gone id : EntityId) :
    (r.remove gone).2.stored id = if id = gone then none else r.stored id := by
  rw [stored, remove, stored]
  split_ifs with h
  · rw [h]
    exact AList.lookup_erase _ _
  · exact AList.lookup_erase_ne h

theorem get_eq_ok_iff : r.get id = .ok entity ↔ r.stored id = some entity := by
  rw [get]
  split
  next h => rw [h, Except.ok.injEq, Option.some_inj]
  next h => simp [h]

/-! ## When an upsert goes through -/

/-- All relations of the entity point to known entities, or to the entity itself. -/
def Known (r : OntologyRegistry) (entity : Entity) : Prop :=
  ∀ rel ∈ entity.relations, rel.to = entity.id ∨ (r.stored rel.to).isSome

/-- The entity may take the place of what is stored under its id: the classification is not
lowered, and the change of version is not breaking, unless that is allowed. -/
def Replaceable (r : OntologyRegistry) (entity : Entity) (allowBreaking : Bool) : Prop :=
  ∀ existing, r.stored entity.id = some existing →
    existing.classification.level ≤ entity.classification.level ∧
      (allowBreaking = false → compareVersions existing.version entity.version ≠ .breaking)

theorem checkRelations_ok_iff : r.checkRelations entity = .ok () ↔ r.Known entity := by
  rw [checkRelations, Loop.forM_ok_iff]
  refine forall₂_congr fun rel _ => ?_
  split_ifs with h
  · exact iff_of_true rfl h
  · exact iff_of_false (fun hok => by cases hok) h

theorem checkReplaced_ok_iff :
    r.checkReplaced entity allowBreaking = .ok () ↔ r.Replaceable entity allowBreaking := by
  rw [checkReplaced, Replaceable]
  cases r.stored entity.id with
  | none => exact iff_of_true rfl fun existing h => by cases h
  | some existing =>
    simp only [Option.some_inj, forall_eq', ← Classification.canFlowInto_iff]
    cases hflow : existing.classification.canFlowInto entity.classification with
    | false => exact iff_of_false (fun hok => by cases hok) fun h => by cases h.1
    | true =>
      rw [if_neg (by decide)]
      split_ifs with hversion
      · rw [Bool.not_eq_true'] at hversion
        exact iff_of_false (fun hok => by cases hok) fun h => h.2 hversion.2 hversion.1
      · rw [Bool.not_eq_true'] at hversion
        exact iff_of_true rfl ⟨rfl, fun hallow hbreaking => hversion ⟨hbreaking, hallow⟩⟩

/-- A replacement that may not break anything is a compatible one. -/
theorem replaceable_false_iff :
    r.Replaceable entity false ↔
      ∀ existing, r.stored entity.id = some existing → existing.Compatible entity := by
  refine forall₂_congr fun existing _ => ⟨fun h => ⟨h.1, h.2 rfl⟩, fun h => ?_⟩
  exact ⟨h.level_le, fun _ => h.not_breaking⟩

/-- The entity passes both checks. -/
def Admits (r : OntologyRegistry) (entity : Entity) (allowBreaking : Bool) : Prop :=
  r.Known entity ∧ r.Replaceable entity allowBreaking

/-- **An upsert.** Either the entity passes both checks and is put in, or the call fails and
nothing is changed. -/
theorem upsert_cases (r : OntologyRegistry) (entity : Entity) (allowBreaking : Bool) :
    (r.Admits entity allowBreaking ∧ r.upsert entity allowBreaking = (.ok (), r.insert entity)) ∨
      (¬ r.Admits entity allowBreaking ∧
        ∃ e, r.upsert entity allowBreaking = (.error e, r)) := by
  rw [upsert, Admits, ← checkRelations_ok_iff, ← checkReplaced_ok_iff]
  rcases r.checkRelations entity with e | u
  · exact Or.inr ⟨fun h => (by cases h.1), e, rfl⟩
  · rcases r.checkReplaced entity allowBreaking with e | u'
    · exact Or.inr ⟨fun h => (by cases h.2), e, rfl⟩
    · exact Or.inl ⟨⟨rfl, rfl⟩, rfl⟩

end OntologyRegistry

end Aaf
