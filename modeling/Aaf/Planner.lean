import Aaf.Composition
import Aaf.Dfs
import Aaf.Discovery
import Aaf.ExecutionPlan

/-!
# The planner

`RegistryPlanner::plan` (`aaf-planner`): a plan from the cache, or the capabilities that
discovery finds for the intent, cut down to the best hit and those of the other hits it
depends on, checked, put in the order of their dependencies and kept in the cache.

* `plan_cases`: the three ways a call can go.
* `topoSort_perm`, `topoSort_eq_of_perm`: the order has every chosen capability once,
  and it depends on the best hit and on which others were chosen, not on their order.
-/

namespace Aaf

/-! ## The order of the steps -/

/-- The capabilities of a set by their ids. -/
def byId (caps : List CapabilityContract) : HashMap CapabilityId CapabilityContract :=
  caps.foldl (fun map cap => map.insert cap.id cap) ∅

/-- The dependencies of a capability that are in the set. -/
def depsIn (caps : List CapabilityContract) (cap : CapabilityContract) :
    List CapabilityContract :=
  cap.dependsOn.filterMap fun dep =>
    if dep ∈ caps.map CapabilityContract.id then (byId caps).lookup dep else none

/-- `topo_sort`: depth first, dependencies before the capability itself. -/
def topoSort (caps : List CapabilityContract) : List CapabilityContract :=
  (Dfs.visitAll CapabilityContract.id (depsIn caps) (caps.length + 1) caps Dfs.start).order

section TopoSort

variable {caps caps' rest rest' : List CapabilityContract} {top cap : CapabilityContract}
  {id : CapabilityId}

theorem byId_concat (caps : List CapabilityContract) (cap : CapabilityContract) :
    byId (caps ++ [cap]) = (byId caps).insert cap.id cap := by
  rw [byId, List.foldl_append]
  rfl

theorem mem_of_lookup_byId (h : (byId caps).lookup id = some cap) : cap ∈ caps ∧ cap.id = id := by
  induction caps using List.reverseRecOn with
  | nil => cases h
  | append_singleton caps last ih =>
    rw [byId_concat] at h
    by_cases hid : id = last.id
    · rw [hid, AList.lookup_insert] at h
      cases h
      exact ⟨List.mem_append_right _ List.mem_cons_self, hid.symm⟩
    · rw [AList.lookup_insert_ne hid] at h
      exact ⟨List.mem_append_left _ (ih h).1, (ih h).2⟩

/-- Every id of the set is stored. -/
theorem exists_lookup_byId (hcap : cap ∈ caps) :
    ∃ found, (byId caps).lookup cap.id = some found := by
  induction caps using List.reverseRecOn with
  | nil => cases hcap
  | append_singleton caps last ih =>
    rw [byId_concat]
    by_cases hid : cap.id = last.id
    · exact ⟨last, by rw [hid, AList.lookup_insert]⟩
    · rw [AList.lookup_insert_ne hid]
      rcases List.mem_append.mp hcap with hcap | hcap
      · exact ih hcap
      · exact absurd (congrArg CapabilityContract.id (List.mem_singleton.mp hcap)) hid

theorem lookup_byId (hnodup : (caps.map CapabilityContract.id).Nodup) (hcap : cap ∈ caps) :
    (byId caps).lookup cap.id = some cap := by
  obtain ⟨found, hfound⟩ := exists_lookup_byId hcap
  obtain ⟨hmem, hid⟩ := mem_of_lookup_byId hfound
  rw [hfound, List.inj_on_of_nodup_map hnodup hmem hcap hid]

theorem mem_of_mem_depsIn {d : CapabilityContract} (h : d ∈ depsIn caps cap) :
    d ∈ caps ∧ d.id ∈ cap.dependsOn := by
  obtain ⟨dep, hdep, hd⟩ := List.mem_filterMap.mp h
  by_cases hin : dep ∈ caps.map CapabilityContract.id
  · rw [if_pos hin] at hd
    obtain ⟨hmem, hid⟩ := mem_of_lookup_byId hd
    rw [hid]
    exact ⟨hmem, hdep⟩
  · rw [if_neg hin] at hd
    cases hd

theorem mem_depsIn (hnodup : (caps.map CapabilityContract.id).Nodup) {d : CapabilityContract} :
    d ∈ depsIn caps cap ↔ d ∈ caps ∧ d.id ∈ cap.dependsOn := by
  refine ⟨mem_of_mem_depsIn, ?_⟩
  rintro ⟨hmem, hdep⟩
  refine List.mem_filterMap.mpr ⟨d.id, hdep, ?_⟩
  rw [if_pos (List.mem_map_of_mem hmem), lookup_byId hnodup hmem]

theorem depsIn_closed : ∀ cap ∈ caps, ∀ d ∈ depsIn caps cap, d ∈ caps :=
  fun _ _ _ hd => (mem_of_mem_depsIn hd).1

/-- **Every capability once.** -/
theorem topoSort_perm (hnodup : (caps.map CapabilityContract.id).Nodup) :
    (topoSort caps).Perm caps :=
  Dfs.perm_visitAll depsIn_closed hnodup (Nat.lt_succ_self _)

/-- The dependencies in a set do not depend on its order. -/
theorem depsIn_eq_of_perm (hnodup : (caps.map CapabilityContract.id).Nodup)
    (hperm : caps.Perm caps') (cap : CapabilityContract) : depsIn caps cap = depsIn caps' cap := by
  have hnodup' : (caps'.map CapabilityContract.id).Nodup := (hperm.map _).nodup_iff.mp hnodup
  refine List.filterMap_congr fun dep _ => ?_
  by_cases hin : dep ∈ caps.map CapabilityContract.id
  · rw [if_pos hin, if_pos ((hperm.map _).mem_iff.mp hin)]
    obtain ⟨d, hd, rfl⟩ := List.mem_map.mp hin
    rw [lookup_byId hnodup hd, lookup_byId hnodup' (hperm.mem_iff.mp hd)]
  · rw [if_neg hin, if_neg fun hin' => hin ((hperm.map _).mem_iff.mpr hin')]

/-- When the first capability depends on all others, its visit is the whole sort, and it
comes last. -/
theorem topoSort_cons (hnodup : ((top :: rest).map CapabilityContract.id).Nodup)
    (hdeps : ∀ cap ∈ rest, cap.id ∈ top.dependsOn) :
    topoSort (top :: rest) =
      (Dfs.visitAll CapabilityContract.id (depsIn (top :: rest)) (rest.length + 1)
        (depsIn (top :: rest) top) ⟨[top.id], []⟩).order ++ [top] := by
  have hstart : top.id ∉ (Dfs.start : Dfs.State CapabilityId CapabilityContract).visited :=
    List.not_mem_nil
  have hfuel : Dfs.unvisited CapabilityContract.id (top :: rest) ⟨[top.id], []⟩ <
      rest.length + 1 :=
    lt_of_lt_of_le (Dfs.unvisited_mark_lt List.mem_cons_self hstart)
      (Dfs.unvisited_start_le CapabilityContract.id (top :: rest))
  obtain ⟨new, -, hmarked⟩ := (Dfs.visit_spec depsIn_closed (rest.length + 1)).all
    (depsIn (top :: rest) top) ⟨[top.id], []⟩ (depsIn_closed top List.mem_cons_self) hfuel
  rw [topoSort, List.length_cons, Dfs.visitAll_cons,
    Dfs.visit_of_not_visited (rest.length + 1) hstart,
    Dfs.visitAll_of_visited]
  · rfl
  · intro cap hcap
    exact hmarked cap ((mem_depsIn hnodup).mpr ⟨List.mem_cons_of_mem _ hcap, hdeps cap hcap⟩)

/-- **The order of the others does not matter.** -/
theorem topoSort_eq_of_perm (hnodup : ((top :: rest).map CapabilityContract.id).Nodup)
    (hdeps : ∀ cap ∈ rest, cap.id ∈ top.dependsOn) (hperm : rest.Perm rest') :
    topoSort (top :: rest) = topoSort (top :: rest') := by
  have hnodup' : ((top :: rest').map CapabilityContract.id).Nodup :=
    ((hperm.cons top).map _).nodup_iff.mp hnodup
  have hdepsIn : depsIn (top :: rest) = depsIn (top :: rest') :=
    funext (depsIn_eq_of_perm hnodup (hperm.cons top))
  rw [topoSort_cons hnodup hdeps,
    topoSort_cons hnodup' fun cap hcap => hdeps cap (hperm.mem_iff.mpr hcap), hdepsIn,
    hperm.length_eq]

end TopoSort

/-! ## Selection and checks -/

/-- Planner errors. -/
inductive PlannerError : Type where
  | registry (e : RegistryError) : PlannerError
  | bounds (v : BoundsViolation) : PlannerError
  | unsafeComposition : PlannerError
  | unsafeEntityComposition (v : CompositionViolation) : PlannerError
  | noCapability : PlannerError
  deriving DecidableEq, Repr

/-- The query a plan is first searched with. -/
def IntentEnvelope.discoveryQuery (intent : IntentEnvelope) : DiscoveryQuery :=
  ⟨intent.goal, some intent.domain, 10⟩

/-- The hits of an intent: in its domain, and in any domain if there are none. -/
def hitsFor (mint : PlannerMint) (r : Registry) (order : ListOrder) (intent : IntentEnvelope) :
    List DiscoveryResult :=
  let hits := r.discover mint.toLowercase order intent.discoveryQuery
  if hits.isEmpty then r.discover mint.toLowercase order (.new intent.goal) else hits

/-- The best hit, and those of the others it depends on. -/
def chosenFrom : List DiscoveryResult → List CapabilityContract
  | [] => []
  | top :: rest =>
    top.capability :: (rest.map DiscoveryResult.capability).filter fun cap =>
      decide (cap.id ∈ top.capability.dependsOn)

/-- The hit is the best one, or another one that the best one depends on directly. -/
def Selected : List DiscoveryResult → DiscoveryResult → Prop
  | [], _ => False
  | top :: rest, hit =>
    hit = top ∨ hit ∈ rest ∧ hit.capability.id ∈ top.capability.dependsOn

theorem Selected.mem {hits : List DiscoveryResult} {hit : DiscoveryResult}
    (h : Selected hits hit) : hit ∈ hits := by
  rcases hits with _ | ⟨top, rest⟩
  · exact h.elim
  · rcases h with rfl | ⟨hmem, -⟩
    · exact List.mem_cons_self
    · exact List.mem_cons_of_mem _ hmem

theorem mem_chosenFrom_iff {hits : List DiscoveryResult} {cap : CapabilityContract} :
    cap ∈ chosenFrom hits ↔ ∃ hit, Selected hits hit ∧ hit.capability = cap := by
  rcases hits with _ | ⟨top, rest⟩
  · refine ⟨fun h => ?_, fun h => ?_⟩
    · cases h
    · obtain ⟨hit, hhit, -⟩ := h
      exact hhit.elim
  · rw [chosenFrom, List.mem_cons, List.mem_filter, List.mem_map, decide_eq_true_eq]
    refine ⟨?_, ?_⟩
    · rintro (rfl | ⟨⟨hit, hmem, rfl⟩, hdep⟩)
      · exact ⟨top, Or.inl rfl, rfl⟩
      · exact ⟨hit, Or.inr ⟨hmem, hdep⟩, rfl⟩
    · rintro ⟨hit, rfl | ⟨hmem, hdep⟩, rfl⟩
      · exact Or.inl rfl
      · exact Or.inr ⟨⟨hit, hmem, rfl⟩, hdep⟩

/-- `RegistryPlanner`, less the registry and the state of planning. -/
structure RegistryPlanner where
  bounds : BoundedAutonomy
  composition : CompositionChecker
  entityComposition : Option EntityAwareComposition

namespace RegistryPlanner

/-- The composition checks, the entity-aware one if it is installed. -/
def checkComposition (planner : RegistryPlanner) (chosen : List CapabilityContract) :
    Except PlannerError Unit :=
  if ¬ planner.composition.isSafe chosen then .error .unsafeComposition
  else
    match planner.entityComposition with
    | none => .ok ()
    | some ec =>
      match ec.check chosen with
      | .error v => .error (.unsafeEntityComposition v)
      | .ok () => .ok ()

/-- The capabilities pass the composition checks. -/
def Passes (planner : RegistryPlanner) (chosen : List CapabilityContract) : Prop :=
  planner.checkComposition chosen = .ok ()

instance (planner : RegistryPlanner) (chosen : List CapabilityContract) :
    Decidable (planner.Passes chosen) :=
  inferInstanceAs (Decidable (_ = Except.ok ()))

variable {planner : RegistryPlanner} {caps caps' : List CapabilityContract}

theorem passes_iff : planner.Passes caps ↔ planner.composition.isSafe caps = true ∧
    ∀ ec, planner.entityComposition = some ec → ec.check caps = .ok () := by
  rw [Passes, checkComposition]
  by_cases hsafe : planner.composition.isSafe caps = true
  · rw [if_neg (not_not.mpr hsafe)]
    rcases planner.entityComposition with _ | ec
    · simp [hsafe]
    · rcases hcheck : ec.check caps with v | u
      · simp [hcheck]
      · simp [hsafe, hcheck]
  · rw [if_pos hsafe]
    simp [hsafe]

/-- Whether a set of capabilities passes does not depend on its order. -/
theorem passes_perm (h : caps.Perm caps') : planner.Passes caps ↔ planner.Passes caps' := by
  simp only [passes_iff, EntityAwareComposition.check_eq_ok_iff,
    CompositionChecker.isSafe_perm _ h, EntityAwareComposition.violation_isNone_perm _ h]

end RegistryPlanner

/-! ## Planning -/

/-- One step of a plan, from its position and the capability; `n` node ids were used
before the plan. -/
def plannedStep (mint : PlannerMint) (n idx : ℕ) (cap : CapabilityContract) : PlannedStep where
  stepId := UInt32.ofNat (idx + 1)
  kind := if cap.deterministic then .deterministic else .agent
  capability := cap.id
  inputMapping :=
    if idx = 0 then "intent.goal → " ++ cap.id.raw
    else "step_" ++ toString idx ++ ".output → " ++ cap.id.raw
  outputId := mint.nodeId (n + idx)

/-- The plan made of the chosen capabilities. -/
def planOf (mint : PlannerMint) (n : ℕ) (intent : IntentEnvelope)
    (chosen : List CapabilityContract) : ExecutionPlan :=
  ⟨intent.intentId, (topoSort chosen).mapIdx (plannedStep mint n)⟩

/-- What a planner changes: its cache, and how far it has read into the node ids. -/
structure Planning where
  cache : PlanCache
  minted : ℕ

/-- A planner that has not planned anything yet. -/
def Planning.new : Planning := ⟨.new, 0⟩

/-- `RegistryPlanner::plan`. -/
def RegistryPlanner.plan (mint : PlannerMint) (planner : RegistryPlanner) (r : Registry)
    (order : ListOrder) (st : Planning) (intent : IntentEnvelope) :
    Except PlannerError ExecutionPlan × Planning :=
  match st.cache.get (intent.planKey mint) with
  | some plan => (.ok plan, st)
  | none =>
    let hits := hitsFor mint r order intent
    if hits.isEmpty then (.error .noCapability, st)
    else
      let chosen := chosenFrom hits
      match planner.checkComposition chosen with
      | .error e => (.error e, st)
      | .ok () =>
        let plan := planOf mint st.minted intent chosen
        let st := { st with minted := st.minted + plan.steps.length }
        match planner.bounds.validate intent plan with
        | .error v => (.error (.bounds v), st)
        | .ok () => (.ok plan, { st with cache := st.cache.put (intent.planKey mint) plan })

/-- The capabilities a call of `plan` returns, if it returns a plan. -/
def idsOf : Except PlannerError ExecutionPlan → Option (List CapabilityId)
  | .ok plan => some plan.ids
  | .error _ => none

section Plan

variable {mint : PlannerMint} {planner : RegistryPlanner} {r : Registry} {order : ListOrder}
  {st : Planning} {intent : IntentEnvelope}

theorem idsOf_eq_some_iff {result : Except PlannerError ExecutionPlan} {ids : List CapabilityId} :
    idsOf result = some ids ↔ ∃ plan, result = .ok plan ∧ plan.ids = ids := by
  rcases result with e | plan
  · simp [idsOf]
  · simp [idsOf]

@[simp]
theorem planOf_length (mint : PlannerMint) (n : ℕ) (intent : IntentEnvelope)
    (chosen : List CapabilityContract) :
    (planOf mint n intent chosen).steps.length = (topoSort chosen).length := by
  rw [planOf, List.length_mapIdx]

/-- The steps invoke the chosen capabilities in the order of the sort. -/
@[simp]
theorem planOf_ids (mint : PlannerMint) (n : ℕ) (intent : IntentEnvelope)
    (chosen : List CapabilityContract) :
    (planOf mint n intent chosen).ids = (topoSort chosen).map CapabilityContract.id := by
  refine List.ext_getElem? fun i => ?_
  rw [ExecutionPlan.ids, planOf, List.getElem?_map, List.getElem?_mapIdx, List.getElem?_map,
    Option.map_map]
  rfl

/-- The intent may be planned with what discovery finds for it. -/
structure RegistryPlanner.Accepts (planner : RegistryPlanner) (mint : PlannerMint) (r : Registry)
    (order : ListOrder) (intent : IntentEnvelope) : Prop where
  found : hitsFor mint r order intent ≠ []
  passes : planner.Passes (chosenFrom (hitsFor mint r order intent))
  length : planner.bounds.AdmitsLength (topoSort (chosenFrom (hitsFor mint r order intent))).length
  admits : planner.bounds.AdmitsIntent intent

/-- How a call of `plan` can go. -/
inductive Planned (mint : PlannerMint) (planner : RegistryPlanner) (r : Registry)
    (order : ListOrder) (st : Planning) (intent : IntentEnvelope) :
    Except PlannerError ExecutionPlan × Planning → Prop
  | hit {plan : ExecutionPlan} (hget : st.cache.get (intent.planKey mint) = some plan) :
      Planned mint planner r order st intent (.ok plan, st)
  | built {plan : ExecutionPlan} (hmiss : st.cache.get (intent.planKey mint) = none)
      (haccepts : planner.Accepts mint r order intent)
      (hplan : plan = planOf mint st.minted intent (chosenFrom (hitsFor mint r order intent))) :
      Planned mint planner r order st intent
        (.ok plan, ⟨st.cache.put (intent.planKey mint) plan, st.minted + plan.steps.length⟩)
  | refused {e : PlannerError} {n : ℕ} (hmiss : st.cache.get (intent.planKey mint) = none)
      (hnot : ¬ planner.Accepts mint r order intent) :
      Planned mint planner r order st intent (.error e, ⟨st.cache, n⟩)

/-- **One call.** A plan is taken from the cache, or built and put there, or none is
returned and the cache stays as it is. -/
theorem plan_cases (mint : PlannerMint) (planner : RegistryPlanner) (r : Registry)
    (order : ListOrder) (st : Planning) (intent : IntentEnvelope) :
    Planned mint planner r order st intent (planner.plan mint r order st intent) := by
  rw [RegistryPlanner.plan]
  rcases hget : st.cache.get (intent.planKey mint) with _ | plan
  · by_cases hfound : hitsFor mint r order intent = []
    · simp only [hfound, List.isEmpty_nil, if_true]
      exact .refused hget fun h => h.found hfound
    · have hsome : (hitsFor mint r order intent).isEmpty = false := by
        rw [List.isEmpty_eq_false_iff]
        exact hfound
      simp only [hsome, Bool.false_eq_true, if_false]
      rcases hcheck : planner.checkComposition (chosenFrom (hitsFor mint r order intent)) with e | u
      · refine .refused hget fun h => ?_
        have hpasses := h.passes
        rw [RegistryPlanner.Passes, hcheck] at hpasses
        cases hpasses
      · rcases hvalid : planner.bounds.validate intent
          (planOf mint st.minted intent (chosenFrom (hitsFor mint r order intent))) with v | u
        · refine .refused hget fun h => ?_
          rw [BoundedAutonomy.validate_eq_ok_iff.mpr ⟨(planOf_length ..) ▸ h.length, h.admits⟩]
            at hvalid
          cases hvalid
        · obtain ⟨hlength, hadmits⟩ := BoundedAutonomy.validate_eq_ok_iff.mp hvalid
          rw [planOf_length] at hlength
          exact .built hget ⟨hfound, hcheck, hlength, hadmits⟩ rfl
  · exact .hit hget

/-- The plan a call returns: the cached one, or else the one it builds. -/
theorem plan_eq_ok_iff {plan : ExecutionPlan} :
    (planner.plan mint r order st intent).1 = .ok plan ↔
      st.cache.get (intent.planKey mint) = some plan ∨
        (st.cache.get (intent.planKey mint) = none ∧ planner.Accepts mint r order intent ∧
          plan = planOf mint st.minted intent (chosenFrom (hitsFor mint r order intent))) := by
  have hcases := plan_cases mint planner r order st intent
  generalize planner.plan mint r order st intent = result at hcases
  cases hcases with
  | hit hget => simp [hget]
  | built hmiss haccepts hplan =>
    rw [← hplan]
    simp [hmiss, haccepts, eq_comm]
  | refused hmiss hnot => simp [hmiss, hnot]

/-- What a call does to a property of all cached plans: it keeps it, unless it builds a
plan that does not have it. -/
theorem plan_all_iff {P : String → ExecutionPlan → Prop} (h : st.cache.All P) :
    (planner.plan mint r order st intent).2.cache.All P ↔
      (st.cache.get (intent.planKey mint) = none → planner.Accepts mint r order intent →
        P (intent.planKey mint)
          (planOf mint st.minted intent (chosenFrom (hitsFor mint r order intent)))) := by
  have hcases := plan_cases mint planner r order st intent
  generalize planner.plan mint r order st intent = result at hcases
  cases hcases with
  | hit hget =>
    refine ⟨fun _ hmiss => ?_, fun _ => h⟩
    rw [hget] at hmiss
    cases hmiss
  | built hmiss haccepts hplan =>
    rw [← hplan, h.put_iff]
    exact ⟨fun hnew _ _ => hnew, fun hnew => hnew hmiss haccepts⟩
  | refused hmiss hnot => exact ⟨fun _ _ haccepts => absurd haccepts hnot, fun _ => h⟩

/-- A call keeps a property of all cached plans exactly when what it returns has it. -/
theorem plan_all_iff_reply {P : ExecutionPlan → Prop} (h : st.cache.All fun _ => P) :
    (planner.plan mint r order st intent).2.cache.All (fun _ => P) ↔
      ∀ plan, (planner.plan mint r order st intent).1 = .ok plan → P plan := by
  rw [plan_all_iff h]
  refine ⟨fun hbuilt plan hplan => ?_, fun hreply hmiss haccepts => ?_⟩
  · rcases plan_eq_ok_iff.mp hplan with hget | ⟨hmiss, haccepts, rfl⟩
    · exact h _ plan hget
    · exact hbuilt hmiss haccepts
  · exact hreply _ (plan_eq_ok_iff.mpr (Or.inr ⟨hmiss, haccepts, rfl⟩))

/-- The ids of the hits are distinct. -/
theorem nodup_hitsFor (hr : r.Reachable) :
    ((hitsFor mint r order intent).map fun hit => hit.capability.id).Nodup := by
  rw [hitsFor]
  split
  · exact hr.nodup_discover
  · exact hr.nodup_discover

/-- A hit is stored under its id. -/
theorem lookup_hitsFor (hr : r.Reachable) {hit : DiscoveryResult}
    (h : hit ∈ hitsFor mint r order intent) :
    r.lookup hit.capability.id = some hit.capability := by
  rw [hitsFor] at h
  split at h
  · exact hr.lookup_of_mem_list (Registry.mem_discover h).1
  · exact hr.lookup_of_mem_list (Registry.mem_discover h).1

/-- The capabilities are those stored under their ids. -/
def Stored (r : Registry) (caps : List CapabilityContract) : Prop :=
  ∀ cap ∈ caps, r.lookup cap.id = some cap

theorem stored_chosenFrom (hr : r.Reachable) :
    Stored r (chosenFrom (hitsFor mint r order intent)) := by
  intro cap hcap
  obtain ⟨hit, hhit, rfl⟩ := mem_chosenFrom_iff.mp hcap
  exact lookup_hitsFor hr hhit.mem

/-- The chosen capabilities have distinct ids. -/
theorem nodup_chosenFrom (hr : r.Reachable) (mint : PlannerMint) (order : ListOrder)
    (intent : IntentEnvelope) :
    ((chosenFrom (hitsFor mint r order intent)).map CapabilityContract.id).Nodup := by
  have h : ((hitsFor mint r order intent).map fun hit => hit.capability.id).Nodup :=
    nodup_hitsFor hr
  generalize hitsFor mint r order intent = hits at h
  rcases hits with _ | ⟨top, rest⟩
  · exact List.nodup_nil
  · have hsub : List.Sublist (chosenFrom (top :: rest))
        ((top :: rest).map DiscoveryResult.capability) := List.filter_sublist.cons_cons _
    refine List.Nodup.sublist (hsub.map _) ?_
    rw [List.map_map]
    exact h

end Plan

/-! ## A warehouse -/

/-- The order of the store as it is. -/
def asStored : ListOrder := ⟨fun l => l, fun l => List.Perm.refl l⟩

/-- The default bounds and checks. -/
def defaultPlanner : RegistryPlanner := ⟨.default, .default, none⟩

/-- ASCII lower-casing, node ids that are tallies, and the SHA-256 digests of three texts. -/
def warehouseMint : PlannerMint where
  sha256Hex text :=
    if text = "AnalyticalIntent|warehouse|check stock" then
      "e4ee014b2d3141c0c6c1f24ca4fe5b850dc6b099d570d60b8c516494a7271b58"
    else if text = "AnalyticalIntent|warehouse|stock report" then
      "8db8c403cb4ccccaca4b1825df166e31956fda9616e8a442871554101d2ff1c7"
    else "bb656236d7d8435c3579bd48f9693c270c5821eaddc65bab451bda2cec29ff82"
  toLowercase text := String.ofList (text.toList.map Text.toAsciiLowercase)
  nodeId n := ⟨String.ofList (List.replicate n 'n')⟩

/-- A question about the stock. -/
def stockIntent : IntentEnvelope where
  intentId := ⟨"int-1"⟩
  intentType := .analyticalIntent
  requester := ⟨"alice", "analyst", [], none⟩
  goal := "check stock"
  domain := "warehouse"
  constraints := ∅
  budget := ⟨100, .finite (1 / 2), 1000⟩
  deadline := none
  riskTier := .read
  approvalPolicy := "none"
  outputContract := none
  traceId := ⟨"trace-1"⟩
  depth := 0
  createdAt := 0
  entitiesInContext := []

/-- A capability that answers it. -/
def stockCap : CapabilityContract :=
  { CapabilityContract.plain ⟨"cap-stock"⟩ "check stock" with domains := ["warehouse"] }

end Aaf
