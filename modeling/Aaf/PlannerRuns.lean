import Aaf.Machine
import Aaf.Planner

/-!
# Histories of planning

A planner and the registry it reads, under any sequence of registrations,
deregistrations and plan calls. The cache key of a plan covers the type, the domain and
the goal of the intent, and nothing drops a plan when the registry changes. So a plan
that is handed out again

* is the plan of another intent, checked against the bounds for that one
  (`allChecked_iff` says in which runs this never shows), and
* may name capabilities that are gone, or that no longer go together
  (`neverStale_iff`).
-/

namespace Aaf

/-- A planner's state and the registry it shares. -/
structure PlanningSystem where
  registry : Registry
  planning : Planning

/-- A call of the registry or of the planner. -/
inductive PlanningCall : Type where
  | register (cap : CapabilityContract) : PlanningCall
  | deregister (id : CapabilityId) : PlanningCall
  | plan (order : ListOrder) (intent : IntentEnvelope) : PlanningCall

/-- What a call returns. -/
inductive PlanningReply : Type where
  | registry (result : Except RegistryError Unit) : PlanningReply
  | planned (result : Except PlannerError ExecutionPlan) : PlanningReply

namespace PlanningSystem

variable (mint : PlannerMint) (planner : RegistryPlanner)

/-- One call. -/
def exec (s : PlanningSystem) : PlanningCall → PlanningReply × PlanningSystem
  | .register cap =>
    (.registry (s.registry.register cap).1, ⟨(s.registry.register cap).2, s.planning⟩)
  | .deregister id =>
    (.registry (s.registry.deregister id).1, ⟨(s.registry.deregister id).2, s.planning⟩)
  | .plan order intent =>
    (.planned (planner.plan mint s.registry order s.planning intent).1,
      ⟨s.registry, (planner.plan mint s.registry order s.planning intent).2⟩)

/-- A new planner over a registry. -/
def start (r : Registry) : PlanningSystem := ⟨r, .new⟩

/-- The calls of a run with their states and replies. -/
def history (r : Registry) (calls : List PlanningCall) :
    List (Machine.Step PlanningSystem PlanningCall PlanningReply) :=
  Machine.trace (exec mint planner) (start r) calls

/-- The system after the calls. -/
def after (r : Registry) (calls : List PlanningCall) : PlanningSystem :=
  Machine.run (exec mint planner) (start r) calls

/-! ## Checked for the intent -/

/-- The plan is a plan of the intent, and within the bounds for it. -/
structure CheckedFor (intent : IntentEnvelope) (plan : ExecutionPlan) : Prop where
  origin : plan.intentId = intent.intentId
  bounds : planner.bounds.validate intent plan = .ok ()

/-- Every plan of the run was checked for the intent it is returned for. -/
def AllChecked (r : Registry) (calls : List PlanningCall) : Prop :=
  ∀ st ∈ history mint planner r calls, ∀ order intent plan, st.call = .plan order intent →
    st.reply = .planned (.ok plan) → CheckedFor planner intent plan

/-- A plan call that finds a plan in the cache is made for the intent of that plan, and
the intent is within the bounds. -/
def HitsOwn (r : Registry) (calls : List PlanningCall) : Prop :=
  ∀ st ∈ history mint planner r calls, ∀ order intent plan, st.call = .plan order intent →
    st.before.planning.cache.get (intent.planKey mint) = some plan →
      plan.intentId = intent.intentId ∧ planner.bounds.AdmitsIntent intent

/-- The cached plans are not too long. -/
def ShortPlans (s : PlanningSystem) : Prop :=
  s.planning.cache.All fun _ plan => planner.bounds.AdmitsLength plan.steps.length

variable {mint planner} {s : PlanningSystem} {r : Registry} {order : ListOrder}
  {intent : IntentEnvelope} {plan : ExecutionPlan}

/-- A plan that is built is checked for its intent, as all are with an empty cache. -/
theorem checkedFor_planOf (h : planner.Accepts mint r order intent) (n : ℕ) :
    CheckedFor planner intent (planOf mint n intent (chosenFrom (hitsFor mint r order intent))) := by
  refine ⟨rfl, BoundedAutonomy.validate_eq_ok_iff.mpr ⟨?_, h.admits⟩⟩
  rw [planOf_length]
  exact h.length

theorem shortPlans_exec (s : PlanningSystem) (call : PlanningCall) (h : ShortPlans planner s) :
    ShortPlans planner (exec mint planner s call).2 := by
  rw [ShortPlans] at h ⊢
  cases call with
  | register cap => exact h
  | deregister id => exact h
  | plan order intent =>
    refine (plan_all_iff h).mpr fun _ haccepts => ?_
    rw [planOf_length]
    exact haccepts.length

theorem shortPlans_after (r : Registry) (calls : List PlanningCall) :
    ShortPlans planner (after mint planner r calls) := by
  have hstart : ShortPlans planner (start r) := PlanCache.all_new _
  exact Machine.run_invariant hstart shortPlans_exec calls

/-- One plan call: what it returns is checked exactly when what it finds is. -/
theorem checkedFor_iff (mint : PlannerMint) (order : ListOrder) (intent : IntentEnvelope)
    (h : ShortPlans planner s) :
    (∀ plan, (planner.plan mint s.registry order s.planning intent).1 = .ok plan →
      CheckedFor planner intent plan) ↔
    ∀ plan, s.planning.cache.get (intent.planKey mint) = some plan →
      plan.intentId = intent.intentId ∧ planner.bounds.AdmitsIntent intent := by
  refine ⟨fun hchecked plan hget => ?_, fun hown plan hplan => ?_⟩
  · have hplan := hchecked plan (plan_eq_ok_iff.mpr (Or.inl hget))
    exact ⟨hplan.origin, (BoundedAutonomy.validate_eq_ok_iff.mp hplan.bounds).2⟩
  · rcases plan_eq_ok_iff.mp hplan with hget | ⟨-, haccepts, rfl⟩
    · obtain ⟨horigin, hadmits⟩ := hown plan hget
      exact ⟨horigin, BoundedAutonomy.validate_eq_ok_iff.mpr ⟨h _ _ hget, hadmits⟩⟩
    · exact checkedFor_planOf haccepts _

/-- **Checked for the intent, exactly when.** In every run from every registry, the plans
returned are checked for the intents they are returned for if and only if whoever hits
the cache hits a plan of its own, with an intent within the bounds. -/
theorem allChecked_iff (mint : PlannerMint) (planner : RegistryPlanner) (r : Registry)
    (calls : List PlanningCall) :
    AllChecked mint planner r calls ↔ HitsOwn mint planner r calls := by
  refine forall₂_congr fun st hst => ?_
  obtain ⟨before, call, rest, -, rfl⟩ := Machine.mem_trace_iff.mp hst
  have hshort : ShortPlans planner (after mint planner r before) := shortPlans_after r before
  cases call with
  | register cap => simp [Machine.stepAt]
  | deregister id => simp [Machine.stepAt]
  | plan order intent =>
    have hiff := checkedFor_iff mint order intent hshort
    refine ⟨fun h order' intent' plan hcall => ?_, fun h order' intent' plan hcall hreply => ?_⟩
    · cases hcall
      refine hiff.mp (fun plan hplan => h order intent plan rfl ?_) plan
      exact congrArg PlanningReply.planned hplan
    · cases hcall
      refine hiff.mpr (fun plan hget => h order intent plan rfl hget) plan ?_
      exact PlanningReply.planned.inj hreply

/-- The same question with a budget over the cap. -/
def lavishIntent : IntentEnvelope :=
  { stockIntent with
    intentId := ⟨"int-2"⟩
    budget := ⟨100, .finite 2, 1000⟩ }

/-- The second question gets the first one's plan, over budget. -/
theorem lavishIntent_not_checked :
    ¬ AllChecked warehouseMint defaultPlanner (Registry.inMemory.register stockCap).2
      [.plan asStored stockIntent, .plan asStored lavishIntent] := by
  intro h
  have hcached : ((defaultPlanner.plan warehouseMint (Registry.inMemory.register stockCap).2 asStored
      .new stockIntent).2.cache.get (lavishIntent.planKey warehouseMint)).map ExecutionPlan.intentId =
      some ⟨"int-1"⟩ := by decide +kernel
  obtain ⟨plan, hget, hid⟩ := Option.map_eq_some_iff.mp hcached
  have hchecked := h _ (List.mem_cons_of_mem _ List.mem_cons_self) asStored lavishIntent plan rfl
    (congrArg PlanningReply.planned (plan_eq_ok_iff.mpr (Or.inl hget)))
  have horigin := hid.symm.trans hchecked.origin
  exact absurd horigin (by decide)

/-! ## Never stale -/

/-- The contracts now stored for the capabilities of a plan. -/
def contractsIn (r : Registry) (plan : ExecutionPlan) : List CapabilityContract :=
  plan.ids.filterMap r.lookup

/-- The plan fits the registry: its capabilities are registered, and their contracts
pass the checks. -/
structure Fits (planner : RegistryPlanner) (r : Registry) (plan : ExecutionPlan) : Prop where
  registered : ∀ id ∈ plan.ids, id ∈ r
  passes : planner.Passes (contractsIn r plan)

/-- Every plan that a call can return now fits the registry. -/
def Fresh (mint : PlannerMint) (planner : RegistryPlanner) (s : PlanningSystem) : Prop :=
  ∀ order intent plan, (planner.plan mint s.registry order s.planning intent).1 = .ok plan →
    Fits planner s.registry plan

/-- The call changes nothing that a cached plan rests on. -/
def Spares (planner : RegistryPlanner) (s : PlanningSystem) : PlanningCall → Prop
  | .register cap => cap.validate = .ok () → s.planning.cache.All fun _ plan =>
      cap.id ∈ plan.ids → planner.Passes (contractsIn (s.registry.insert cap.id cap) plan)
  | .deregister id => s.planning.cache.All fun _ plan => id ∉ plan.ids
  | .plan _ _ => True

/-- The cached plans fit the registry. -/
def CacheFits (planner : RegistryPlanner) (s : PlanningSystem) : Prop :=
  s.planning.cache.All fun _ plan => Fits planner s.registry plan

/-- The registry comes from registrations and deregistrations, and a cached plan is kept
under the key of an intent. -/
structure Reached (mint : PlannerMint) (s : PlanningSystem) : Prop where
  registry : s.registry.Reachable
  keyed : s.planning.cache.All fun key _ => ∃ intent : IntentEnvelope, intent.planKey mint = key

theorem reached_exec (s : PlanningSystem) (call : PlanningCall) (h : Reached mint s) :
    Reached mint (exec mint planner s call).2 := by
  cases call with
  | register cap =>
    rw [exec]
    have hregistry := h.registry.register cap
    generalize s.registry.register cap = registered at hregistry
    exact ⟨hregistry, h.keyed⟩
  | deregister id =>
    rw [exec]
    exact ⟨h.registry.deregister id, h.keyed⟩
  | plan order intent =>
    rw [exec]
    exact ⟨h.registry, (plan_all_iff h.keyed).mpr fun _ _ => ⟨intent, rfl⟩⟩

theorem reached_after (calls : List PlanningCall) :
    Reached mint (after mint planner .inMemory calls) := by
  have hstart : Reached mint (start .inMemory) := ⟨.inMemory, PlanCache.all_new _⟩
  exact Machine.run_invariant hstart reached_exec calls

/-- A plan that is built fits the registry it was built from. -/
theorem fits_planOf (hr : r.Reachable) (h : planner.Accepts mint r order intent) (n : ℕ) :
    Fits planner r (planOf mint n intent (chosenFrom (hitsFor mint r order intent))) := by
  have hperm : (topoSort (chosenFrom (hitsFor mint r order intent))).Perm
      (chosenFrom (hitsFor mint r order intent)) :=
    topoSort_perm (nodup_chosenFrom hr mint order intent)
  have hstored : Stored r (topoSort (chosenFrom (hitsFor mint r order intent))) := fun cap hcap =>
    stored_chosenFrom hr cap (hperm.mem_iff.mp hcap)
  refine ⟨fun id hid => ?_, ?_⟩
  · rw [planOf_ids] at hid
    obtain ⟨cap, hcap, rfl⟩ := List.mem_map.mp hid
    rw [← AList.lookup_isSome, hstored cap hcap]
    rfl
  · -- the stored contracts are the chosen ones, in the order of the sort
    have hcontracts : contractsIn r (planOf mint n intent
        (chosenFrom (hitsFor mint r order intent))) =
        topoSort (chosenFrom (hitsFor mint r order intent)) := by
      rw [contractsIn, planOf_ids, List.filterMap_map]
      exact (List.filterMap_congr hstored).trans List.filterMap_some
    rw [hcontracts]
    exact (RegistryPlanner.passes_perm hperm).mpr h.passes

/-- What calls can return fits exactly when what is cached does: every cached plan can be
asked for. -/
theorem fresh_iff (h : Reached mint s) : Fresh mint planner s ↔ CacheFits planner s := by
  refine ⟨fun hfresh key plan hget => ?_, fun hcache order intent plan hplan => ?_⟩
  · obtain ⟨intent, rfl⟩ := h.keyed key plan hget
    exact hfresh asStored intent plan (plan_eq_ok_iff.mpr (Or.inl hget))
  · rcases plan_eq_ok_iff.mp hplan with hget | ⟨-, haccepts, rfl⟩
    · exact hcache _ plan hget
    · exact fits_planOf h.registry haccepts _

/-- A plan that does not name the capability fits as before. -/
theorem fits_congr {r' : Registry} (h : ∀ id ∈ plan.ids, r'.lookup id = r.lookup id) :
    Fits planner r' plan ↔ Fits planner r plan := by
  have hcontracts : contractsIn r' plan = contractsIn r plan := List.filterMap_congr h
  have hregistered : (∀ id ∈ plan.ids, id ∈ r') ↔ ∀ id ∈ plan.ids, id ∈ r := by
    refine forall₂_congr fun id hid => ?_
    rw [← AList.lookup_isSome, ← AList.lookup_isSome, h id hid]
  refine ⟨fun hfits => ⟨hregistered.mp hfits.registered, ?_⟩,
    fun hfits => ⟨hregistered.mpr hfits.registered, ?_⟩⟩
  · rw [← hcontracts]
    exact hfits.passes
  · rw [hcontracts]
    exact hfits.passes

theorem fits_insert_iff {cap : CapabilityContract} (h : Fits planner r plan) :
    Fits planner (r.insert cap.id cap) plan ↔
      (cap.id ∈ plan.ids → planner.Passes (contractsIn (r.insert cap.id cap) plan)) := by
  refine ⟨fun hfits _ => hfits.passes, fun hpasses => ?_⟩
  by_cases hnamed : cap.id ∈ plan.ids
  · refine ⟨fun id hid => ?_, hpasses hnamed⟩
    rw [AList.mem_insert]
    exact Or.inr (h.registered id hid)
  · refine (fits_congr fun id hid => AList.lookup_insert_ne ?_).mpr h
    rintro rfl
    exact hnamed hid

theorem fits_erase_iff {id : CapabilityId} (h : Fits planner r plan) :
    Fits planner (r.erase id) plan ↔ id ∉ plan.ids := by
  refine ⟨fun hfits hid => ?_, fun hnot => ?_⟩
  · exact ((AList.mem_erase).mp (hfits.registered id hid)).1 rfl
  · refine (fits_congr fun id' hid' => AList.lookup_erase_ne ?_).mpr h
    rintro rfl
    exact hnot hid'

/-- One call keeps the cached plans fitting exactly when it spares what they rest on. -/
theorem cacheFits_exec_iff (mint : PlannerMint) (call : PlanningCall) (hreached : Reached mint s)
    (h : CacheFits planner s) :
    CacheFits planner (exec mint planner s call).2 ↔ Spares planner s call := by
  cases call with
  | register cap =>
    rcases hvalid : cap.validate with e | u
    · have hsame : (exec mint planner s (.register cap)).2 = s := by
        rw [exec, Registry.register, hvalid]
      rw [hsame, Spares, hvalid]
      refine ⟨fun _ hok => ?_, fun _ => h⟩
      cases hok
    · have hnext : (exec mint planner s (.register cap)).2 =
          ⟨s.registry.insert cap.id cap, s.planning⟩ := by
        rw [exec, Registry.register, hvalid]
      rw [hnext, Spares, hvalid]
      refine ⟨fun hcache _ key plan hget => ?_, fun hspares key plan hget => ?_⟩
      · exact (fits_insert_iff (h key plan hget)).mp (hcache key plan hget)
      · exact (fits_insert_iff (h key plan hget)).mpr (hspares rfl key plan hget)
  | deregister id =>
    refine forall₃_congr fun key plan hget => ?_
    exact fits_erase_iff (h key plan hget)
  | plan order intent =>
    refine iff_of_true ?_ trivial
    exact (plan_all_iff h).mpr fun _ haccepts => fits_planOf hreached.registry haccepts _

/-- **Never stale, exactly when.** From an empty registry and a new planner, at every
point of a run every plan that can be returned fits the registry if and only if no call
of the run changes what a cached plan rests on. -/
theorem neverStale_iff (mint : PlannerMint) (planner : RegistryPlanner)
    (calls : List PlanningCall) :
    (∀ pre post, calls = pre ++ post → Fresh mint planner (after mint planner .inMemory pre)) ↔
      ∀ st ∈ history mint planner .inMemory calls, Spares planner st.before st.call := by
  have hcache : (∀ pre post, calls = pre ++ post →
      Fresh mint planner (after mint planner .inMemory pre)) ↔
      ∀ pre post, calls = pre ++ post →
        CacheFits planner (after mint planner .inMemory pre) := by
    refine forall₃_congr fun pre post _ => ?_
    exact fresh_iff (reached_after pre)
  have hstart : CacheFits planner (start .inMemory) := PlanCache.all_new _
  rw [hcache]
  exact Machine.forall_run_iff reached_after hstart
    (fun s call hreached h => cacheFits_exec_iff mint call hreached h) calls

/-- The stock capability is gone, and its plan is handed out all the same. -/
theorem deregistered_stale :
    ¬ ∀ pre post,
      [.register stockCap, .plan asStored stockIntent, .deregister stockCap.id] = pre ++ post →
        Fresh warehouseMint defaultPlanner (after warehouseMint defaultPlanner .inMemory pre) := by
  intro h
  have hcached : ((after warehouseMint defaultPlanner .inMemory
      [.register stockCap, .plan asStored stockIntent, .deregister stockCap.id]).planning.cache.get
        (stockIntent.planKey warehouseMint)).map ExecutionPlan.ids = some [stockCap.id] := by
    decide +kernel
  obtain ⟨plan, hget, hids⟩ := Option.map_eq_some_iff.mp hcached
  have hfits := h _ [] (List.append_nil _).symm asStored stockIntent plan
    (plan_eq_ok_iff.mpr (Or.inl hget))
  have hstored := hfits.registered stockCap.id (by rw [hids]; exact List.mem_cons_self)
  exact absurd hstored (by decide +kernel)

end PlanningSystem

end Aaf
