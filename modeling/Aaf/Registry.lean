import Aaf.Node

/-!
# The capability registry

`Registry` (`aaf-registry`) over its in-memory store: a hash map from capability ids
to contracts. Registration validates the contract (Rule 9) and replaces whatever has
its id. The order in which the store lists its entries is an argument.
-/

namespace Aaf

/-- `CapabilityContract::validate`. -/
def CapabilityContract.validate (cap : CapabilityContract) : Except ContractError Unit :=
  if Text.isBlank cap.name then .error (.missingField "name")
  else if Text.isBlank cap.version then .error (.missingField "version")
  else if cap.sideEffect.requiresCompensation ∧ cap.compensation = none then
    .error (.missingCompensation cap.id.raw cap.sideEffect)
  else .ok ()

/-- The errors of the modelled operations. -/
inductive RegistryError : Type where
  | storage (e : StorageError) : RegistryError
  | invalid (e : ContractError) : RegistryError
  | rateLimited (what : String) : RegistryError
  | notFound (what : String) : RegistryError
  deriving DecidableEq, Repr

/-- The order in which a store lists its entries: some permutation of its keys. -/
structure ListOrder where
  order : List CapabilityId → List CapabilityId
  perm : ∀ l, (order l).Perm l

/-- `Registry`, in memory. -/
abbrev Registry : Type := HashMap CapabilityId CapabilityContract

namespace Registry

/-- `Registry::in_memory`. -/
def inMemory : Registry := ∅

/-- `Registry::register`. -/
def register (r : Registry) (cap : CapabilityContract) : Except RegistryError Unit × Registry :=
  match cap.validate with
  | .error e => (.error (.invalid e), r)
  | .ok () => (.ok (), r.insert cap.id cap)

/-- `Registry::get`. -/
def get (r : Registry) (id : CapabilityId) : Except RegistryError CapabilityContract :=
  match r.lookup id with
  | some cap => .ok cap
  | none => .error (.storage (.notFound id.raw))

/-- `Registry::deregister`; an unknown id is no error. -/
def deregister (r : Registry) (id : CapabilityId) : Except RegistryError Unit × Registry :=
  (.ok (), r.erase id)

/-- `Registry::list`. -/
def list (r : Registry) (order : ListOrder) : List CapabilityContract :=
  (order.order r.keys).filterMap r.lookup

/-- `Registry::find_by_name`: the first entry with that display name. -/
def findByName (r : Registry) (order : ListOrder) (name : String) :
    Except RegistryError CapabilityContract :=
  match (r.list order).find? fun c => decide (c.name = name) with
  | some cap => .ok cap
  | none => .error (.notFound name)

/-! ## Reachable registries -/

/-- The registries that registration and deregistration lead to. -/
inductive Reachable : Registry → Prop
  | inMemory : Reachable inMemory
  | register {r : Registry} (cap : CapabilityContract) (h : Reachable r) :
      Reachable (r.register cap).2
  | deregister {r : Registry} (id : CapabilityId) (h : Reachable r) :
      Reachable (r.deregister id).2

/-- A contract is stored under its own id. -/
theorem Reachable.lookup_id {r : Registry} (h : Reachable r) :
    ∀ {id : CapabilityId} {cap : CapabilityContract}, r.lookup id = some cap → cap.id = id := by
  induction h with
  | inMemory =>
    intro id cap h
    cases h
  | @register r new h ih =>
    intro id cap hlookup
    rw [Registry.register] at hlookup
    rcases hvalid : new.validate with e | u
    · rw [hvalid] at hlookup
      exact ih hlookup
    · rw [hvalid] at hlookup
      by_cases hid : id = new.id
      · rw [hid, AList.lookup_insert] at hlookup
        cases hlookup
        exact hid.symm
      · rw [AList.lookup_insert_ne hid] at hlookup
        exact ih hlookup
  | @deregister r gone h ih =>
    intro id cap hlookup
    rw [Registry.deregister] at hlookup
    by_cases hid : id = gone
    · rw [hid, AList.lookup_erase] at hlookup
      cases hlookup
    · rw [AList.lookup_erase_ne hid] at hlookup
      exact ih hlookup

/-- Listing shows the stored contracts, and nothing else. -/
theorem mem_list {r : Registry} (order : ListOrder) {cap : CapabilityContract} :
    cap ∈ r.list order ↔ ∃ id, r.lookup id = some cap := by
  rw [list, List.mem_filterMap]
  refine ⟨?_, ?_⟩
  · rintro ⟨id, -, hid⟩
    exact ⟨id, hid⟩
  · rintro ⟨id, hid⟩
    refine ⟨id, (order.perm _).mem_iff.mpr ?_, hid⟩
    rw [← AList.mem_keys, ← AList.lookup_isSome, hid]
    rfl

/-- `find_by_name` finds the first entry of the name. -/
theorem findByName_eq_ok_iff {r : Registry} {order : ListOrder} {name : String}
    {cap : CapabilityContract} :
    r.findByName order name = .ok cap ↔ cap.name = name ∧
      ∃ pre post, r.list order = pre ++ cap :: post ∧ ∀ other ∈ pre, other.name ≠ name := by
  have hfirst : (r.list order).find? (fun c => decide (c.name = name)) = some cap ↔
      cap.name = name ∧
        ∃ pre post, r.list order = pre ++ cap :: post ∧ ∀ other ∈ pre, other.name ≠ name := by
    rw [List.find?_eq_some_iff_append, decide_eq_true_eq]
    simp only [Bool.not_eq_eq_eq_not, Bool.not_true, decide_eq_false_iff_not, ne_eq]
  rw [← hfirst, findByName]
  rcases hfind : (r.list order).find? (fun c => decide (c.name = name)) with _ | found
  · simp [hfind]
  · simp [hfind]

/-- What is listed is stored under its own id. -/
theorem Reachable.lookup_of_mem_list {r : Registry} (hr : Reachable r) {order : ListOrder}
    {cap : CapabilityContract} (h : cap ∈ r.list order) : r.lookup cap.id = some cap := by
  obtain ⟨id, hlookup⟩ := (mem_list order).mp h
  rw [hr.lookup_id hlookup]
  exact hlookup

/-- What `find_by_name` finds is stored under its own id. -/
theorem Reachable.lookup_of_findByName {r : Registry} (hr : Reachable r) {order : ListOrder}
    {name : String} {cap : CapabilityContract} (h : r.findByName order name = .ok cap) :
    r.lookup cap.id = some cap := by
  obtain ⟨-, pre, post, hlist, -⟩ := findByName_eq_ok_iff.mp h
  have hmem : cap ∈ r.list order := by
    rw [hlist]
    exact List.mem_append_right _ List.mem_cons_self
  exact hr.lookup_of_mem_list hmem

/-- The capability `id` is listed, and no other of the name comes before it. -/
def ListedFirst (r : Registry) (order : ListOrder) (name : String) (id : CapabilityId) : Prop :=
  ∃ pre cap post, r.list order = pre ++ cap :: post ∧ cap.id = id ∧
    ∀ other ∈ pre, other.name ≠ name

/-- A stored capability is found under its name exactly when it is listed first. -/
theorem Reachable.listedFirst_iff {r : Registry} (hr : Reachable r) {order : ListOrder}
    {cap : CapabilityContract} (hstored : r.lookup cap.id = some cap) :
    r.ListedFirst order cap.name cap.id ↔ r.findByName order cap.name = .ok cap := by
  rw [findByName_eq_ok_iff]
  refine ⟨?_, ?_⟩
  · rintro ⟨pre, cap', post, hlist, hid, hpre⟩
    -- ids are unique, so what is listed under the id is the capability itself
    have hmem : cap' ∈ r.list order := by
      rw [hlist]
      exact List.mem_append_right _ List.mem_cons_self
    have hlookup := hr.lookup_of_mem_list hmem
    rw [hid, hstored] at hlookup
    obtain rfl : cap = cap' := Option.some.inj hlookup
    exact ⟨rfl, pre, post, hlist, hpre⟩
  · rintro ⟨-, pre, post, hlist, hpre⟩
    exact ⟨pre, cap, post, hlist, rfl, hpre⟩

/-- A stored name is found. -/
theorem findByName_of_mem {r : Registry} (order : ListOrder) {id : CapabilityId}
    {cap : CapabilityContract} (h : r.lookup id = some cap) :
    ∃ found, r.findByName order cap.name = .ok found := by
  rw [findByName]
  rcases hfind : (r.list order).find? (fun c => decide (c.name = cap.name)) with _ | found
  · have hmem := (mem_list order).mpr ⟨id, h⟩
    exact absurd (decide_eq_true rfl) (List.find?_eq_none.mp hfind cap hmem)
  · rw [hfind]
    exact ⟨found, rfl⟩

end Registry

end Aaf
