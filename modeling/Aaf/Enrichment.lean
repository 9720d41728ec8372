import Aaf.Intent
import Aaf.Merge

/-!
# Enrichment with an ontology

`Enricher::enrich_with_ontology`: the envelope gets the entities that a resolver finds for its domain
and its goal, each under the tenant of the requester unless it has one of its own, and each once.

An envelope may be enriched any number of times, by several resolvers. Neither the domain nor the
goal moves, so all of them see what the first one saw, and `enrichments_settle` says what comes
out: which entities there are does not depend on the order of the resolvers, and asking them again
changes nothing.
-/

namespace Aaf

/-- `OntologyResolver`. -/
abbrev OntologyResolver : Type := String → String → List EntityRefLite

namespace Enricher

/-- An entity under the tenant of a requester, unless it has one. -/
def qualify (tenant : Option TenantId) (ent : EntityRefLite) : EntityRefLite :=
  if ent.tenant.isNone then { ent with tenant := tenant } else ent

/-- The body of the loop of `enrich_with_ontology`. -/
def pushEntity (tenant : Option TenantId) (envelope : IntentEnvelope) (ent : EntityRefLite) :
    IntentEnvelope :=
  let ent := qualify tenant ent
  if envelope.entitiesInContext.any fun existing =>
      existing.entityId = ent.entityId && existing.tenant = ent.tenant then envelope
  else { envelope with entitiesInContext := envelope.entitiesInContext ++ [ent] }

/-- `Enricher::enrich_with_ontology`. -/
def enrichWithOntology (envelope : IntentEnvelope) (resolver : OntologyResolver) :
    IntentEnvelope :=
  let envelope := enrich envelope
  let discovered := resolver envelope.domain envelope.goal
  let tenant := envelope.requester.tenant
  discovered.foldl (pushEntity tenant) envelope

/-! ## Merging -/

/-- The envelope with other entities. -/
def withEntities (envelope : IntentEnvelope) (ents : List EntityRefLite) : IntentEnvelope :=
  { envelope with entitiesInContext := ents }

@[simp]
theorem entities_withEntities (envelope : IntentEnvelope) (ents : List EntityRefLite) :
    (withEntities envelope ents).entitiesInContext = ents := rfl

@[simp]
theorem withEntities_withEntities (envelope : IntentEnvelope) (ents ents' : List EntityRefLite) :
    withEntities (withEntities envelope ents) ents' = withEntities envelope ents' := rfl

/-- What tells two entities apart. -/
def key (ent : EntityRefLite) : String × Option TenantId := (ent.entityId, ent.tenant)

/-- What the resolvers find for an envelope. -/
def found (envelope : IntentEnvelope) (resolvers : List OntologyResolver) : List EntityRefLite :=
  resolvers.flatMap fun resolver =>
    (resolver envelope.domain envelope.goal).map (qualify envelope.requester.tenant)

@[simp]
theorem found_withEntities (envelope : IntentEnvelope) (ents : List EntityRefLite)
    (resolvers : List OntologyResolver) :
    found (withEntities (enrich envelope) ents) resolvers = found envelope resolvers := rfl

/-- The envelope after one resolver after the other. -/
def enrichments (envelope : IntentEnvelope) (resolvers : List OntologyResolver) :
    IntentEnvelope :=
  resolvers.foldl enrichWithOntology envelope

theorem enrichConstraints_enrichConstraints (role : String)
    (constraints : BTreeMap String Json) :
    enrichConstraints role (enrichConstraints role constraints) =
      enrichConstraints role constraints := by
  rw [enrichConstraints]
  split_ifs with h
  · obtain ⟨hrole, hmissing⟩ := h
    rw [enrichConstraints] at hmissing
    split_ifs at hmissing with hdefault
    · exact absurd (Finmap.mem_insert.mpr (Or.inl rfl)) hmissing
    · exact absurd ⟨hrole, hmissing⟩ hdefault
  · rfl

theorem enrich_enrich (envelope : IntentEnvelope) : enrich (enrich envelope) = enrich envelope := by
  have hconstraints := enrichConstraints_enrichConstraints envelope.requester.role
    envelope.constraints
  by_cases hread : envelope.riskTier = .read <;> simp [enrich, hread, hconstraints]

theorem pushEntity_eq (tenant : Option TenantId) (envelope : IntentEnvelope)
    (ent : EntityRefLite) : pushEntity tenant envelope ent =
      withEntities envelope
        (Merge.add key envelope.entitiesInContext (qualify tenant ent)) := by
  have hsame : ∀ existing : EntityRefLite,
      (existing.entityId = (qualify tenant ent).entityId &&
        existing.tenant = (qualify tenant ent).tenant) =
          decide (key existing = key (qualify tenant ent)) := by
    intro existing
    simp [key]
  simp only [pushEntity, Merge.add, hsame]
  split_ifs <;> rfl

theorem foldl_pushEntity (tenant : Option TenantId) (ents : List EntityRefLite)
    (envelope : IntentEnvelope) : ents.foldl (pushEntity tenant) envelope =
      withEntities envelope
        (Merge.addAll key envelope.entitiesInContext (ents.map (qualify tenant))) := by
  induction ents generalizing envelope with
  | nil => rfl
  | cons ent ents ih =>
    rw [List.foldl_cons, ih, pushEntity_eq, List.map_cons, Merge.addAll_cons,
      entities_withEntities, withEntities_withEntities]

theorem enrich_withEntities (envelope : IntentEnvelope) (ents : List EntityRefLite) :
    enrich (withEntities (enrich envelope) ents) = withEntities (enrich envelope) ents := by
  change withEntities (enrich (enrich envelope)) ents = _
  rw [enrich_enrich]

/-- One resolver merges what it finds into the envelope. -/
theorem enrichWithOntology_eq (envelope : IntentEnvelope) (resolver : OntologyResolver) :
    enrichWithOntology envelope resolver =
      withEntities (enrich envelope)
        (Merge.addAll key envelope.entitiesInContext (found envelope [resolver])) := by
  rw [enrichWithOntology, foldl_pushEntity, found, List.flatMap_singleton]
  rfl

/-- So do all of them, one after the other. -/
theorem enrichments_eq (envelope : IntentEnvelope) (resolver : OntologyResolver)
    (resolvers : List OntologyResolver) :
    enrichments envelope (resolver :: resolvers) =
      withEntities (enrich envelope) (Merge.addAll key envelope.entitiesInContext
        (found envelope (resolver :: resolvers))) := by
  induction resolvers generalizing envelope resolver with
  | nil => exact enrichWithOntology_eq envelope resolver
  | cons next resolvers ih =>
    have hfirst : enrichments envelope (resolver :: next :: resolvers) =
        enrichments (enrichWithOntology envelope resolver) (next :: resolvers) := rfl
    have hall : found envelope (resolver :: next :: resolvers) =
        found envelope [resolver] ++ found envelope (next :: resolvers) := by
      rw [found, List.flatMap_cons, found, found, List.flatMap_singleton]
    rw [hfirst, ih, enrichWithOntology_eq, hall, Merge.addAll_append]
    simp only [found_withEntities, entities_withEntities, enrich_withEntities,
      withEntities_withEntities]

/-- What is found is what was looked for, under some tenant if the requester has one. -/
theorem tenant_of_mem_found {envelope : IntentEnvelope} {resolvers : List OntologyResolver}
    (htenant : envelope.requester.tenant ≠ none) {ent : EntityRefLite}
    (h : ent ∈ found envelope resolvers) : ent.tenant ≠ none := by
  obtain ⟨resolver, -, hent⟩ := List.mem_flatMap.mp h
  obtain ⟨answer, -, rfl⟩ := List.mem_map.mp hent
  rw [qualify]
  split_ifs with hnone
  · exact htenant
  · simpa using hnone

/-- **What enrichment comes to.** Whatever resolvers are asked, in whatever order:
the envelope has the defaults of one enrichment and is otherwise as it was. Its entities are in
front as they were, and behind them is, once each, what was found and not there, under a tenant if
the requester has one; for an entity that several know, the first answer counts. Another order of
the resolvers leads to the same entities, and asking any of them again to nothing new. -/
theorem enrichments_settle (envelope : IntentEnvelope) (resolver : OntologyResolver)
    (resolvers : List OntologyResolver) :
    let asked := resolver :: resolvers
    let out := enrichments envelope asked
    out = withEntities (enrich envelope) out.entitiesInContext ∧
    (∃ new, out.entitiesInContext = envelope.entitiesInContext ++ new ∧
      new.Sublist (found envelope asked) ∧ (new.map key).Nodup ∧
      (∀ ent ∈ new, key ent ∉ envelope.entitiesInContext.map key) ∧
      (envelope.requester.tenant ≠ none → ∀ ent ∈ new, ent.tenant ≠ none)) ∧
    (∀ k, Merge.first key k out.entitiesInContext =
      Merge.first key k (envelope.entitiesInContext ++ found envelope asked)) ∧
    (∀ reordered : List OntologyResolver, reordered.Perm asked → ∀ k,
      k ∈ (enrichments envelope reordered).entitiesInContext.map key ↔
        k ∈ out.entitiesInContext.map key) ∧
    ∀ again ⊆ asked, enrichments out again = out := by
  intro asked out
  have hout : out = withEntities (enrich envelope)
      (Merge.addAll key envelope.entitiesInContext (found envelope asked)) :=
    enrichments_eq envelope resolver resolvers
  refine ⟨?_, ?_, fun k => ?_, fun reordered hperm k => ?_, fun again hagain => ?_⟩
  · rw [hout, entities_withEntities]
  · obtain ⟨new, hnew, hsub, hnodup, hfresh⟩ :=
      @Merge.addAll_eq_append _ _ _ key envelope.entitiesInContext (found envelope asked)
    refine ⟨new, by rw [hout, entities_withEntities, hnew], hsub, hnodup, hfresh, fun htenant ent hent => ?_⟩
    exact tenant_of_mem_found htenant (hsub.subset hent)
  · rw [hout]
    exact Merge.first_addAll k _ _
  · cases reordered with
    | nil => exact absurd hperm.length_eq (by simp [asked])
    | cons next rest =>
      have hsame : (found envelope (next :: rest)).Perm (found envelope asked) :=
        hperm.flatMap_right _
      rw [enrichments_eq, hout, entities_withEntities, entities_withEntities,
        Merge.mem_keys_addAll, Merge.mem_keys_addAll, (hsame.map key).mem_iff]
  · cases again with
    | nil => rfl
    | cons next rest =>
      rw [enrichments_eq, hout]
      simp only [found_withEntities, entities_withEntities, enrich_withEntities,
        withEntities_withEntities]
      congr 1
      refine Merge.addAll_of_mem fun ent hent => Merge.mem_keys_addAll.mpr (Or.inr ?_)
      obtain ⟨r, hr, hfrom⟩ := List.mem_flatMap.mp hent
      exact List.mem_map_of_mem (List.mem_flatMap.mpr ⟨r, hagain hr, hfrom⟩)

end Enricher

end Aaf
