import Aaf.Machine
import Aaf.Ontology

/-!
# Histories of the ontology registry

Three properties of the states that calls lead to.

* An upsert leaves no relation dangling, but `remove` does not look for relations to what it
  removes. So no relation ever dangles exactly when nothing else points to what is removed:
  `no_dangling_iff`.
* Replacements are checked for being compatible, and compatibility is a preorder. So without
  leave to break anything entities only evolve: `evolution_monotone`.
* What a field overrides the classification of its entity with is not checked at all.
  `fields_strengthen_iff` says which overrides the registry has to be given.
-/

namespace Aaf

namespace OntologyRegistry

variable {r : OntologyRegistry} {entity : Entity} {id : EntityId} {allowBreaking : Bool}

/-! ## Relations -/

/-- A call that changes the registry. -/
inductive Call : Type where
  | upsert (entity : Entity) (allowBreaking : Bool) : Call
  | remove (id : EntityId) : Call

/-- The registry takes a call. -/
def exec (r : OntologyRegistry) : Call → Except OntologyError Unit × OntologyRegistry
  | .upsert entity allowBreaking => r.upsert entity allowBreaking
  | .remove id => r.remove id

/-- Every relation of a stored entity points to a stored entity. -/
def Closed (r : OntologyRegistry) : Prop :=
  ∀ id e, r.stored id = some e → ∀ rel ∈ e.relations, ∃ target, r.stored rel.to = some target

/-- No entity that is stored under another id has a relation to the id. -/
def Unreferenced (r : OntologyRegistry) (gone : EntityId) : Prop :=
  ∀ id e, r.stored id = some e → id ≠ gone → ∀ rel ∈ e.relations, rel.to ≠ gone

theorem closed_new : new.Closed := by
  intro id e h
  rw [stored_new] at h
  cases h

/-- What is known is still known when an entity is put in. -/
theorem stored_insert_of_stored {target : Entity} (entity : Entity)
    (h : r.stored id = some target) : ∃ target', (r.insert entity).stored id = some target' := by
  rw [stored_insert]
  split_ifs
  · exact ⟨entity, rfl⟩
  · exact ⟨target, h⟩

theorem closed_insert (h : r.Closed) (hknown : r.Known entity) : (r.insert entity).Closed := by
  intro id e he rel hrel
  rw [stored_insert] at he
  split_ifs at he with hid
  · obtain rfl := Option.some.inj he
    rcases hknown rel hrel with hself | hother
    · exact ⟨entity, by rw [stored_insert, if_pos hself]⟩
    · obtain ⟨target, htarget⟩ := Option.isSome_iff_exists.mp hother
      exact stored_insert_of_stored entity htarget
  · obtain ⟨target, htarget⟩ := h id e he rel hrel
    exact stored_insert_of_stored entity htarget

theorem closed_upsert (h : r.Closed) (entity : Entity) (allowBreaking : Bool) :
    (r.upsert entity allowBreaking).2.Closed := by
  rcases upsert_cases r entity allowBreaking with ⟨hadmits, hupsert⟩ | ⟨-, e, hupsert⟩
  · rw [hupsert]
    exact closed_insert h hadmits.1
  · rw [hupsert]
    exact h

/-- A removal leaves nothing dangling exactly when nothing else points to what is removed. -/
theorem closed_remove_iff (h : r.Closed) (gone : EntityId) :
    (r.remove gone).2.Closed ↔ r.Unreferenced gone := by
  refine ⟨fun hafter id e he hne rel hrel hgone => ?_, fun hother id e he rel hrel => ?_⟩
  · obtain ⟨target, htarget⟩ := hafter id e (by rw [stored_remove, if_neg hne, he]) rel hrel
    rw [stored_remove, if_pos hgone] at htarget
    cases htarget
  · rw [stored_remove] at he
    split_ifs at he with hne
    obtain ⟨target, htarget⟩ := h id e he rel hrel
    exact ⟨target, by rw [stored_remove, if_neg (hother id e he hne rel hrel), htarget]⟩

/-- **No relation dangles exactly when nothing points to what is removed**: after any number of
the calls every relation of every stored entity points to a stored entity, exactly when no
removal is of an id that another stored entity has a relation to. -/
theorem no_dangling_iff (calls : List Call) :
    (∀ pre post, calls = pre ++ post → (Machine.run exec new pre).Closed) ↔
      ∀ st ∈ Machine.trace exec new calls, ∀ id, st.call = .remove id →
        st.before.Unreferenced id := by
  refine Machine.forall_run_iff (I := fun _ => True) (fun _ => trivial) closed_new ?_ calls
  intro r call _ hclosed
  cases call with
  | upsert entity allowBreaking =>
    exact iff_of_true (closed_upsert hclosed entity allowBreaking) fun id hid => by cases hid
  | remove gone =>
    refine (closed_remove_iff hclosed gone).trans ⟨fun h id hid => ?_, fun h => h gone rfl⟩
    cases hid
    exact h

namespace SampleOntology

def customer : Entity := ⟨"commerce.Customer", .initial, .internal, [], []⟩

/-- An order that points to its customer. -/
def order : Entity :=
  ⟨"commerce.Order", .initial, .internal, [], [⟨"commerce.Order", "commerce.Customer"⟩]⟩

/-- The customer is removed while the order is there. -/
def calls : List Call :=
  [.upsert customer false, .upsert order false, .remove "commerce.Customer"]

end SampleOntology

/-- The order is left with a relation to a customer that is gone. -/
theorem dangling_after_remove :
    (Machine.trace exec new SampleOntology.calls).map Machine.Step.reply =
        [.ok (), .ok (), .ok ()] ∧
      ¬ (Machine.run exec new SampleOntology.calls).Closed := by
  refine ⟨by decide +kernel, fun h => ?_⟩
  have horder : (Machine.run exec new SampleOntology.calls).stored "commerce.Order" =
      some SampleOntology.order := by decide +kernel
  have hgone : (Machine.run exec new SampleOntology.calls).stored "commerce.Customer" = none := by
    decide +kernel
  obtain ⟨target, htarget⟩ := h _ _ horder _ List.mem_cons_self
  rw [hgone] at htarget
  cases htarget

/-! ## Evolution -/

/-- An upsert that may not break anything. -/
def evolve (r : OntologyRegistry) (entity : Entity) :
    Except OntologyError Unit × OntologyRegistry := r.upsert entity false

/-- What is stored is still stored, or compatibly replaced. -/
def Evolves (r s : OntologyRegistry) : Prop :=
  ∀ id e, r.stored id = some e → ∃ e', s.stored id = some e' ∧ e.Compatible e'

theorem Evolves.refl (r : OntologyRegistry) : r.Evolves r :=
  fun _ e he => ⟨e, he, Entity.Compatible.refl e⟩

theorem Evolves.trans {r s t : OntologyRegistry} (h : r.Evolves s) (h' : s.Evolves t) :
    r.Evolves t := by
  intro id e he
  obtain ⟨e', he', hcompatible⟩ := h id e he
  obtain ⟨e'', he'', hcompatible'⟩ := h' id e' he'
  exact ⟨e'', he'', hcompatible.trans hcompatible'⟩

theorem evolves_insert (hreplaceable : r.Replaceable entity false) :
    r.Evolves (r.insert entity) := by
  intro id e he
  rw [stored_insert]
  split_ifs with hid
  · rw [hid] at he
    exact ⟨entity, rfl, replaceable_false_iff.mp hreplaceable e he⟩
  · exact ⟨e, he, Entity.Compatible.refl e⟩

theorem evolves_evolve (r : OntologyRegistry) (entity : Entity) :
    r.Evolves (r.evolve entity).2 := by
  rw [evolve]
  rcases upsert_cases r entity false with ⟨hadmits, hupsert⟩ | ⟨-, e, hupsert⟩
  · rw [hupsert]
    exact evolves_insert hadmits.2
  · rw [hupsert]
    exact Evolves.refl r

/-- **Monotone evolution** in a run of upserts: what is stored at one point is stored at every
later one, at no lower level, under the same major number, in no earlier version; and an upsert
that is rejected leaves the registry as it was. -/
structure MonotoneEvolution (r : OntologyRegistry) (entities : List Entity) : Prop where
  monotone : ∀ pre mid post, entities = pre ++ mid ++ post →
    ∀ id e, (Machine.run evolve r pre).stored id = some e →
      ∃ e', (Machine.run evolve r (pre ++ mid)).stored id = some e' ∧
        e.classification.level ≤ e'.classification.level ∧
        e'.version.major = e.version.major ∧ e.version.components ≤ e'.version.components
  rejected : ∀ st ∈ Machine.trace evolve r entities, ∀ e, st.reply = .error e →
    st.after = st.before

/-- **Evolution is monotone**, from any registry, in every run of upserts that may not break
anything. -/
theorem evolution_monotone (r : OntologyRegistry) (entities : List Entity) :
    MonotoneEvolution r entities where
  monotone pre mid post _ id e he := by
    rw [Machine.run_append]
    have hevolves : (Machine.run evolve r pre).Evolves
        (Machine.run evolve (Machine.run evolve r pre) mid) :=
      Machine.run_invariant (Evolves.refl _) (fun s entity h => h.trans (evolves_evolve s entity))
        mid
    obtain ⟨e', he', hcompatible⟩ := hevolves id e he
    exact ⟨e', he', hcompatible.level_le,
      compareVersions_ne_breaking_iff.mp hcompatible.not_breaking⟩
  rejected st hst e hreply := by
    obtain ⟨pre, entity, -, -, rfl⟩ := Machine.mem_trace_iff.mp hst
    dsimp only [Machine.stepAt, evolve] at hreply ⊢
    rcases upsert_cases (Machine.run evolve r pre) entity false with
      ⟨-, hupsert⟩ | ⟨-, e', hupsert⟩
    · rw [hupsert] at hreply
      cases hreply
    · rw [hupsert]

/-! ## Fields -/

/-- The overrides of an entity are at least as strict as its own classification. -/
def OverridesStrict (e : Entity) : Prop :=
  ∀ field c, e.overrideFor field = some c → e.classification.level ≤ c.level

/-- An override that the new classification does not make up for is kept, or made stricter. -/
def OverridesKept (old new : Entity) : Prop :=
  ∀ field c, old.overrideFor field = some c → new.classification.level < c.level →
    ∃ c', new.overrideFor field = some c' ∧ c.level ≤ c'.level

/-- No field of a stored entity is effectively classified below the entity. -/
def FieldsAtLeast (r : OntologyRegistry) : Prop :=
  ∀ id e, r.stored id = some e → ∀ field,
    e.classification.level ≤ (e.classificationFor field).level

theorem overridesStrict_iff {e : Entity} :
    OverridesStrict e ↔ ∀ field, e.classification.level ≤ (e.classificationFor field).level := by
  refine forall_congr' fun field => ?_
  rw [Entity.classificationFor]
  cases e.overrideFor field with
  | none => exact iff_of_true (fun c hc => by cases hc) (le_refl _)
  | some c =>
    rw [Option.getD_some]
    exact ⟨fun h => h c rfl, fun h c' hc' => Option.some.inj hc' ▸ h⟩

/-- A field with an override is declared. -/
theorem declares_of_overrideFor {e : Entity} {field : String} {c : Classification}
    (h : e.overrideFor field = some c) : e.Declares field := by
  obtain ⟨f, hf, -⟩ := Option.bind_eq_some_iff.mp h
  exact ⟨f, List.mem_of_find?_eq_some hf, by simpa using List.find?_some hf⟩

/-- Behind a compatible replacement whose overrides are strict, no declared field is classified
lower exactly when the overrides are kept. -/
theorem overridesKept_iff {old new : Entity} (hcompatible : old.Compatible new)
    (hstrict : OverridesStrict new) :
    OverridesKept old new ↔ ∀ field, old.Declares field →
      (old.classificationFor field).level ≤ (new.classificationFor field).level := by
  constructor
  · intro hkept field _
    have hnew := overridesStrict_iff.mp hstrict field
    rw [Entity.classificationFor]
    cases hold : old.overrideFor field with
    | none => exact hcompatible.level_le.trans hnew
    | some c =>
      rw [Option.getD_some]
      by_cases hlevel : c.level ≤ new.classification.level
      · exact hlevel.trans hnew
      · -- only here does the replacement not make up for the override
        obtain ⟨c', hc', hle⟩ := hkept field c hold (not_le.mp hlevel)
        rw [Entity.classificationFor, hc', Option.getD_some]
        exact hle
  · intro hlevels field c hc hlt
    have hle := hlevels field (declares_of_overrideFor hc)
    rw [Entity.classificationFor, hc, Option.getD_some, Entity.classificationFor] at hle
    cases hnew : new.overrideFor field with
    | none =>
      rw [hnew, Option.getD_none] at hle
      exact absurd hle (not_le.mpr hlt)
    | some c' =>
      rw [hnew, Option.getD_some] at hle
      exact ⟨c', rfl, hle⟩

theorem fieldsAtLeast_new : new.FieldsAtLeast := by
  intro id e h
  rw [stored_new] at h
  cases h

theorem fieldsAtLeast_insert_iff (h : r.FieldsAtLeast) :
    (r.insert entity).FieldsAtLeast ↔ OverridesStrict entity := by
  rw [overridesStrict_iff]
  refine ⟨fun hafter => hafter entity.id entity (by rw [stored_insert, if_pos rfl]), ?_⟩
  intro hentity id e he
  rw [stored_insert] at he
  split_ifs at he with hid
  · obtain rfl := Option.some.inj he
    exact hentity
  · exact h id e he

theorem fieldsAtLeast_evolve_iff (h : r.FieldsAtLeast) (entity : Entity) :
    (r.evolve entity).2.FieldsAtLeast ↔ (r.Admits entity false → OverridesStrict entity) := by
  rw [evolve]
  rcases upsert_cases r entity false with ⟨hadmits, hupsert⟩ | ⟨hadmits, e, hupsert⟩
  · rw [hupsert, fieldsAtLeast_insert_iff h]
    exact ⟨fun hentity _ => hentity, fun hentity => hentity hadmits⟩
  · rw [hupsert]
    exact iff_of_true h fun hadmits' => absurd hadmits' hadmits

theorem evolve_ok_iff : (r.evolve entity).1 = .ok () ↔ r.Admits entity false := by
  rw [evolve]
  rcases upsert_cases r entity false with ⟨hadmits, hupsert⟩ | ⟨hadmits, e, hupsert⟩
  · rw [hupsert]
    exact iff_of_true rfl hadmits
  · rw [hupsert]
    exact iff_of_false (fun h => by cases h) hadmits

/-- **Field classifications only strengthen** in a run of upserts: no field is effectively
classified below its entity, and no accepted upsert lowers the effective classification of a
declared field. -/
structure FieldsStrengthen (entities : List Entity) : Prop where
  at_least : ∀ pre post, entities = pre ++ post → (Machine.run evolve new pre).FieldsAtLeast
  kept : ∀ st ∈ Machine.trace evolve new entities, st.reply = .ok () →
    ∀ e, st.before.stored st.call.id = some e → ∀ field, e.Declares field →
      (e.classificationFor field).level ≤ (st.call.classificationFor field).level

/-- **They do exactly when every entity that passes the checks brings overrides** that are no
weaker than its own classification, and keeps those of the entity it replaces which its own
classification does not make up for. -/
theorem fields_strengthen_iff (entities : List Entity) :
    FieldsStrengthen entities ↔
      ∀ st ∈ Machine.trace evolve new entities, st.before.Admits st.call false →
        OverridesStrict st.call ∧
          ∀ e, st.before.stored st.call.id = some e → OverridesKept e st.call := by
  have hstates : (∀ pre post, entities = pre ++ post →
        (Machine.run evolve new pre).FieldsAtLeast) ↔
      ∀ st ∈ Machine.trace evolve new entities, st.before.Admits st.call false →
        OverridesStrict st.call :=
    Machine.forall_run_iff (I := fun _ => True) (fun _ => trivial) fieldsAtLeast_new
      (fun r entity _ h => fieldsAtLeast_evolve_iff h entity) entities
  have hcompatible : ∀ st ∈ Machine.trace evolve new entities, st.before.Admits st.call false →
      ∀ e, st.before.stored st.call.id = some e → e.Compatible st.call :=
    fun st _ hadmits => replaceable_false_iff.mp hadmits.2
  have hreply : ∀ st ∈ Machine.trace evolve new entities,
      (st.reply = .ok () ↔ st.before.Admits st.call false) := by
    intro st hst
    obtain ⟨pre, entity, -, -, rfl⟩ := Machine.mem_trace_iff.mp hst
    exact evolve_ok_iff
  constructor
  · intro h st hst hadmits
    have hstrict := hstates.mp h.at_least st hst hadmits
    refine ⟨hstrict, fun e he => ?_⟩
    exact (overridesKept_iff (hcompatible st hst hadmits e he) hstrict).mpr
      (h.kept st hst ((hreply st hst).mpr hadmits) e he)
  · intro h
    refine ⟨hstates.mpr fun st hst hadmits => (h st hst hadmits).1, ?_⟩
    intro st hst hok e he
    have hadmits := (hreply st hst).mp hok
    obtain ⟨hstrict, hkept⟩ := h st hst hadmits
    exact (overridesKept_iff (hcompatible st hst hadmits e he) hstrict).mp (hkept e he)

namespace SampleOntology

/-- A customer whose mail address is regulated. -/
def strictCustomer : Entity :=
  ⟨"commerce.Customer", .initial, .internal, [⟨"email", some (.regulated "gdpr")⟩], []⟩

/-- A later version of it, where the address is public. -/
def laxCustomer : Entity :=
  ⟨"commerce.Customer", ⟨0, 2, 0⟩, .internal, [⟨"email", some .public⟩], []⟩

end SampleOntology

/-- The later version is accepted: its mail address is classified below the customer, and lower
than it was. -/
theorem weakened_field :
    (Machine.trace evolve new [SampleOntology.strictCustomer, SampleOntology.laxCustomer]).map
        Machine.Step.reply = [.ok (), .ok ()] ∧
      SampleOntology.strictCustomer.classificationFor "email" = .regulated "gdpr" ∧
      SampleOntology.laxCustomer.classificationFor "email" = .public ∧
      ¬ FieldsStrengthen [SampleOntology.strictCustomer, SampleOntology.laxCustomer] := by
  refine ⟨by decide +kernel, by decide +kernel, by decide +kernel, fun h => ?_⟩
  have hstored : (Machine.run evolve new
      [SampleOntology.strictCustomer, SampleOntology.laxCustomer]).stored "commerce.Customer" =
      some SampleOntology.laxCustomer := by decide +kernel
  exact absurd (h.at_least _ [] (List.append_nil _).symm _ _ hstored "email") (by decide +kernel)

end OntologyRegistry

end Aaf
