import Aaf.Machine
import Aaf.Planner

/-!
# What a plan is made of

A planner over a registry that stays as it is, under any history of plan calls. A plan
is made of the best hit of a query and of those of its hits that the best one names in
`depends_on`.

* `allComposed`: a plan holds that selection, and every step comes after the steps it
  depends on. Dependencies that are no hits of the query are not in the plan.
* `allConflictFree_iff`: `conflicts_with` is not looked at, so a plan is free of
  conflicts exactly when the selection it is made of is.
-/

namespace Aaf

/-- Arguments of one `plan` call, with the order the store has then. -/
structure PlanCall where
  order : ListOrder
  intent : IntentEnvelope

namespace RegistryPlanner

/-- One `plan` call over the registry. -/
def answer (planner : RegistryPlanner) (mint : PlannerMint) (r : Registry) (st : Planning)
    (call : PlanCall) : Except PlannerError ExecutionPlan × Planning :=
  planner.plan mint r call.order st call.intent

/-- The calls of a new planner over the registry. -/
def history (planner : RegistryPlanner) (mint : PlannerMint) (r : Registry)
    (calls : List PlanCall) :
    List (Machine.Step Planning PlanCall (Except PlannerError ExecutionPlan)) :=
  Machine.trace (planner.answer mint r) .new calls

/-- A planner after the calls. -/
def after (planner : RegistryPlanner) (mint : PlannerMint) (r : Registry)
    (calls : List PlanCall) : Planning :=
  Machine.run (planner.answer mint r) .new calls

end RegistryPlanner

variable {mint : PlannerMint} {planner : RegistryPlanner} {r : Registry} {order : ListOrder}
  {intent : IntentEnvelope} {caps : List CapabilityContract}

/-! ## Dependencies -/

/-- The registered capability `a` names the registered capability `d` in `depends_on`. -/
def Registry.DependsOn (r : Registry) (d a : CapabilityId) : Prop :=
  d ∈ r ∧ ∃ cap, r.lookup a = some cap ∧ d ∈ cap.dependsOn

theorem Stored.dependsOn (h : Stored r caps) {d cap : CapabilityContract} (hcap : cap ∈ caps)
    (hd : d ∈ depsIn caps cap) : r.DependsOn d.id cap.id := by
  obtain ⟨hmem, hdep⟩ := mem_of_mem_depsIn hd
  refine ⟨?_, cap, h cap hcap, hdep⟩
  rw [← AList.lookup_isSome, h d hmem]
  rfl

theorem Stored.dependsOn_of_transGen (h : Stored r caps) {d cap : CapabilityContract}
    (hpath : Relation.TransGen (Dfs.Needed (depsIn caps)) d cap) (hcap : cap ∈ caps) :
    Relation.TransGen r.DependsOn d.id cap.id := by
  induction hpath with
  | single hd => exact .single (h.dependsOn hcap hd)
  | tail _ hd ih => exact .tail (ih (mem_of_mem_depsIn hd).1) (h.dependsOn hcap hd)

/-- Without a cycle in the registry there is none among the capabilities of a plan. -/
theorem Stored.acyclic (h : Stored r caps) (hacyclic : Topo.Acyclic r.DependsOn) :
    Topo.Acyclic (Dfs.Needed (depsIn caps)) := by
  intro cap hcycle
  obtain ⟨next, hnext, -⟩ := Relation.TransGen.head'_iff.mp hcycle
  exact hacyclic cap.id (h.dependsOn_of_transGen hcycle (mem_of_mem_depsIn hnext).1)

/-- The dependencies between the steps of a plan. -/
def StepDepends (r : Registry) (plan : ExecutionPlan) (d a : CapabilityId) : Prop :=
  r.DependsOn d a ∧ d ∈ plan.ids

/-- Every step comes after the steps it depends on, directly or through other steps. -/
def Ordered (r : Registry) (plan : ExecutionPlan) : Prop :=
  Topo.Respects (Relation.TransGen (StepDepends r plan)) plan.ids

/-- Fetches what a report is made of. -/
def fetchCap : CapabilityContract :=
  { CapabilityContract.plain ⟨"cap-fetch"⟩ "stock fetch" with domains := ["warehouse"] }

/-- Makes a report of what was fetched. -/
def reportCap : CapabilityContract :=
  { CapabilityContract.plain ⟨"cap-report"⟩ "stock report" with
    dependsOn := [⟨"cap-fetch"⟩]
    domains := ["warehouse"] }

/-- A registry with both. -/
def reporting : Registry := ((Registry.inMemory.register fetchCap).2.register reportCap).2

theorem reporting_reachable : reporting.Reachable := (Registry.Reachable.inMemory.register _).register _

/-- A question that both capabilities match. -/
def reportIntent : IntentEnvelope := { stockIntent with goal := "stock report" }

/-- One of the two capabilities names the other in `conflicts_with`. -/
def Conflict (a b : CapabilityContract) : Prop :=
  b.id ∈ a.conflictsWith ∨ a.id ∈ b.conflictsWith

/-- No two steps have capabilities that conflict. -/
def ConflictFree (r : Registry) (plan : ExecutionPlan) : Prop :=
  plan.ids.Pairwise fun a b => ∀ cap, r.lookup a = some cap → ∀ cap', r.lookup b = some cap' →
    ¬ Conflict cap cap'

/-- No two of the best hit and the hits it depends on directly conflict. -/
def SelectsApart (hits : List DiscoveryResult) : Prop :=
  ∀ a b, Selected hits a → Selected hits b → a.capability.id ≠ b.capability.id →
    ¬ Conflict a.capability b.capability

theorem Conflict.symm {a b : CapabilityContract} (h : Conflict a b) : Conflict b a := Or.symm h

/-- Stored capabilities with distinct ids are free of conflicts when every two of them
are. -/
theorem pairwise_conflict_iff (h : Stored r caps)
    (hnodup : (caps.map CapabilityContract.id).Nodup) :
    ((caps.map CapabilityContract.id).Pairwise fun a b => ∀ cap, r.lookup a = some cap →
      ∀ cap', r.lookup b = some cap' → ¬ Conflict cap cap') ↔
    ∀ a ∈ caps, ∀ b ∈ caps, a.id ≠ b.id → ¬ Conflict a b := by
  rw [List.pairwise_map]
  refine ⟨fun hpairs a ha b hb hne hconflict => ?_, fun hall => ?_⟩
  · -- conflicts are symmetric, so the order of the two does not matter
    have hsymm : Std.Symm fun a b : CapabilityContract => ∀ cap, r.lookup a.id = some cap →
        ∀ cap', r.lookup b.id = some cap' → ¬ Conflict cap cap' :=
      ⟨fun a b hab cap hcap cap' hcap' hc => hab cap' hcap' cap hcap hc.symm⟩
    have hab := hpairs.forall ha hb (fun heq => hne (congrArg CapabilityContract.id heq))
    exact hab a (h a ha) b (h b hb) hconflict
  · rw [List.nodup_iff_pairwise_ne, List.pairwise_map] at hnodup
    refine hnodup.imp_of_mem fun {a b} ha hb hne cap hcap cap' hcap' => ?_
    rw [h a ha] at hcap
    rw [h b hb] at hcap'
    cases hcap
    cases hcap'
    exact hall a ha b hb hne

/-- A plan that is built is free of conflicts exactly when its selection is. -/
theorem conflictFree_planOf_iff (hr : r.Reachable) (n : ℕ) :
    ConflictFree r (planOf mint n intent (chosenFrom (hitsFor mint r order intent))) ↔
      SelectsApart (hitsFor mint r order intent) := by
  have hnodup := nodup_chosenFrom hr mint order intent
  have hperm := topoSort_perm hnodup
  have hstored : Stored r (topoSort (chosenFrom (hitsFor mint r order intent))) := fun cap hcap =>
    stored_chosenFrom hr cap (hperm.mem_iff.mp hcap)
  rw [ConflictFree, planOf_ids,
    pairwise_conflict_iff hstored ((hperm.map _).nodup_iff.mpr hnodup)]
  refine ⟨fun hall a b ha hb => ?_, fun hapart a ha b hb => ?_⟩
  · refine hall a.capability ?_ b.capability ?_
    · exact hperm.mem_iff.mpr (mem_chosenFrom_iff.mpr ⟨a, ha, rfl⟩)
    · exact hperm.mem_iff.mpr (mem_chosenFrom_iff.mpr ⟨b, hb, rfl⟩)
  · obtain ⟨hit, hhit, rfl⟩ := mem_chosenFrom_iff.mp (hperm.mem_iff.mp ha)
    obtain ⟨hit', hhit', rfl⟩ := mem_chosenFrom_iff.mp (hperm.mem_iff.mp hb)
    exact hapart hit hit' hhit hhit'

/-- No plan of the run combines conflicting capabilities. -/
def AllConflictFree (mint : PlannerMint) (planner : RegistryPlanner) (r : Registry)
    (calls : List PlanCall) : Prop :=
  ∀ st ∈ planner.history mint r calls, ∀ plan, st.reply = .ok plan → ConflictFree r plan

/-- Whenever a call builds a plan, no two capabilities it selects conflict. -/
def AllSelectApart (mint : PlannerMint) (planner : RegistryPlanner) (r : Registry)
    (calls : List PlanCall) : Prop :=
  ∀ st ∈ planner.history mint r calls,
    st.before.cache.get (st.call.intent.planKey mint) = none →
      planner.Accepts mint r st.call.order st.call.intent →
        SelectsApart (hitsFor mint r st.call.order st.call.intent)

/-- The cached plans are free of conflicts. -/
def CacheConflictFree (r : Registry) (st : Planning) : Prop :=
  st.cache.All fun _ plan => ConflictFree r plan

/-- The plans of a run are free of conflicts when at every point the cached ones are. -/
theorem allConflictFree_iff_cache (calls : List PlanCall) :
    (∀ pre post, calls = pre ++ post → CacheConflictFree r (planner.after mint r pre)) ↔
      AllConflictFree mint planner r calls := by
  have hstart : CacheConflictFree r .new := PlanCache.all_new _
  refine Machine.forall_run_iff (I := fun _ => True) (fun _ => trivial) hstart
    (fun st call _ h => ?_) calls
  exact plan_all_iff_reply h

theorem allSelectApart_iff_cache (hr : r.Reachable) (calls : List PlanCall) :
    (∀ pre post, calls = pre ++ post → CacheConflictFree r (planner.after mint r pre)) ↔
      AllSelectApart mint planner r calls := by
  have hstart : CacheConflictFree r .new := PlanCache.all_new _
  refine Machine.forall_run_iff (I := fun _ => True) (fun _ => trivial) hstart
    (fun st call _ h => ?_) calls
  refine (plan_all_iff h).trans (forall₂_congr fun _ _ => ?_)
  exact conflictFree_planOf_iff hr _

/-- **Free of conflicts, exactly when.** Over every registry and in every history of plan
calls, with any checkers, the plans returned are free of conflicts if and only if no call
that builds a plan selects two capabilities that conflict. -/
theorem allConflictFree_iff (mint : PlannerMint) (planner : RegistryPlanner) (r : Registry)
    (hr : r.Reachable) (calls : List PlanCall) :
    AllConflictFree mint planner r calls ↔ AllSelectApart mint planner r calls :=
  (allConflictFree_iff_cache calls).symm.trans (allSelectApart_iff_cache hr calls)

theorem allConflictFree_iff_reporting :
    AllConflictFree warehouseMint defaultPlanner reporting [⟨asStored, reportIntent⟩] ↔
      AllSelectApart warehouseMint defaultPlanner reporting [⟨asStored, reportIntent⟩] :=
  allConflictFree_iff warehouseMint defaultPlanner reporting reporting_reachable _

/-- A report that must not be combined with the fetching it depends on. -/
def rivalCap : CapabilityContract := { reportCap with conflictsWith := [⟨"cap-fetch"⟩] }

/-- A registry with the two. -/
def rivals : Registry := ((Registry.inMemory.register fetchCap).2.register rivalCap).2

/-- The plan holds both, with the entity-aware checker installed as well. -/
theorem rivals_not_conflictFree :
    rivals.Reachable ∧ ¬ AllConflictFree warehouseMint
      ⟨.default, .default, some ⟨.default, none⟩⟩ rivals [⟨asStored, reportIntent⟩] := by
  refine ⟨(Registry.Reachable.inMemory.register _).register _, fun h => ?_⟩
  have hids : idsOf (RegistryPlanner.plan warehouseMint
      ⟨.default, .default, some ⟨.default, none⟩⟩ rivals asStored .new reportIntent).1 =
      some [fetchCap.id, rivalCap.id] := by decide +kernel
  obtain ⟨plan, hplan, hpair⟩ := idsOf_eq_some_iff.mp hids
  have hfree : ConflictFree rivals plan := h _ List.mem_cons_self plan hplan
  rw [ConflictFree, hpair] at hfree
  have hfetch : rivals.lookup fetchCap.id = some fetchCap := rfl
  have hrival : rivals.lookup rivalCap.id = some rivalCap := rfl
  exact (List.pairwise_cons.mp hfree).1 rivalCap.id List.mem_cons_self fetchCap hfetch rivalCap
    hrival (Or.inr List.mem_cons_self)

end Aaf
