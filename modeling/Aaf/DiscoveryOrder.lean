import Aaf.Planner

/-!
# Discovery and the order of the store

A store may list its entries in any order. The ranking of `discover` is stable and
compares scores only, `discover_by_entity` keeps the order of the store, and the planner
builds on the first hit. So what they return depends on the order wherever scores tie,
or more than one capability declares the entity.

`storageOrderFree_iff` says exactly where it does not. The orders that show a dependence
are those that list one capability first, or last.
-/

namespace Aaf

/-! ## One capability first, or last -/

/-- List the id first. -/
def ListOrder.first (id : CapabilityId) : ListOrder where
  order l := if id ∈ l then id :: l.erase id else l
  perm l := by
    by_cases h : id ∈ l
    · rw [if_pos h]
      exact (List.perm_cons_erase h).symm
    · rw [if_neg h]

/-- List the id last. -/
def ListOrder.last (id : CapabilityId) : ListOrder where
  order l := if id ∈ l then l.erase id ++ [id] else l
  perm l := by
    by_cases h : id ∈ l
    · rw [if_pos h]
      exact (List.perm_append_singleton id (l.erase id)).trans (List.perm_cons_erase h).symm
    · rw [if_neg h]

namespace Registry

variable {r : Registry} {toLowercase : String → String} {q : DiscoveryQuery}
  {entity : EntityRefLite} {kind : EntityQueryKind} {order order' : ListOrder}

theorem mem_keys_of_lookup {cap : CapabilityContract} {id : CapabilityId}
    (h : r.lookup id = some cap) : id ∈ r.keys := by
  rw [← AList.mem_keys, ← AList.lookup_isSome, h]
  rfl

theorem list_first {cap : CapabilityContract} {id : CapabilityId} (h : r.lookup id = some cap) :
    ∃ rest, r.list (.first id) = cap :: rest := by
  have horder : (ListOrder.first id).order r.keys = id :: r.keys.erase id :=
    if_pos (mem_keys_of_lookup h)
  refine ⟨(r.keys.erase id).filterMap r.lookup, ?_⟩
  rw [list, horder, List.filterMap_cons, h]

theorem list_last {cap : CapabilityContract} {id : CapabilityId} (h : r.lookup id = some cap) :
    ∃ before, r.list (.last id) = before ++ [cap] := by
  have horder : (ListOrder.last id).order r.keys = r.keys.erase id ++ [id] :=
    if_pos (mem_keys_of_lookup h)
  refine ⟨(r.keys.erase id).filterMap r.lookup, ?_⟩
  rw [list, horder, List.filterMap_append, List.filterMap_cons, h]
  rfl

/-- The results of a query before they are ranked, in the order of the store as it is. -/
def results (toLowercase : String → String) (r : Registry) (q : DiscoveryQuery) :
    List DiscoveryResult :=
  q.matched toLowercase (r.list asStored)

theorem matched_perm (r : Registry) (order : ListOrder) :
    (q.matched toLowercase (r.list order)).Perm (r.results toLowercase q) :=
  (list_perm r order asStored).filterMap _

theorem Reachable.matched_singleton (hr : r.Reachable) {hit : DiscoveryResult}
    (h : hit ∈ r.results toLowercase q) :
    r.lookup hit.capability.id = some hit.capability ∧
      q.matched toLowercase [hit.capability] = [hit] := by
  obtain ⟨hlisted, hmatch, hscore⟩ := mem_matched.mp h
  refine ⟨hr.lookup_of_mem_list hlisted, ?_⟩
  rw [DiscoveryQuery.matched, List.filterMap_cons, if_pos hmatch, ← hscore]
  rfl

theorem Reachable.matched_first (hr : r.Reachable) {hit : DiscoveryResult}
    (h : hit ∈ r.results toLowercase q) :
    ∃ rest, q.matched toLowercase (r.list (.first hit.capability.id)) = hit :: rest := by
  obtain ⟨hlookup, hone⟩ := hr.matched_singleton h
  obtain ⟨rest, hlist⟩ := list_first hlookup
  refine ⟨q.matched toLowercase rest, ?_⟩
  rw [hlist, ← List.singleton_append, DiscoveryQuery.matched, List.filterMap_append]
  exact congrArg (· ++ _) hone

theorem Reachable.matched_last (hr : r.Reachable) {hit : DiscoveryResult}
    (h : hit ∈ r.results toLowercase q) :
    ∃ before, q.matched toLowercase (r.list (.last hit.capability.id)) = before ++ [hit] := by
  obtain ⟨hlookup, hone⟩ := hr.matched_singleton h
  obtain ⟨before, hlist⟩ := list_last hlookup
  refine ⟨q.matched toLowercase before, ?_⟩
  rw [hlist, DiscoveryQuery.matched, List.filterMap_append]
  exact congrArg (_ ++ ·) hone

/-- Results with one id are one result. -/
theorem Reachable.eq_of_id_eq (hr : r.Reachable) {hit hit' : DiscoveryResult}
    (h : hit ∈ r.results toLowercase q) (h' : hit' ∈ r.results toLowercase q)
    (hid : hit.capability.id = hit'.capability.id) : hit = hit' :=
  List.inj_on_of_nodup_map (hr.nodup_matched asStored toLowercase q) h h' hid

/-! ## Discovery -/

/-- `discover` returns one list, exactly when no two results within the limit tie. -/
theorem Reachable.discover_eq_iff (hr : r.Reachable) :
    (∀ order order', r.discover toLowercase order q = r.discover toLowercase order' q) ↔
      Ranking.NoTies DiscoveryResult.score q.limit (r.results toLowercase q) := by
  refine ⟨fun h => ?_, fun hties order order' => ?_⟩
  · refine Ranking.noTies_of_take_eq fun a ha b hb => ?_
    obtain ⟨rest, hfirst⟩ := hr.matched_first ha
    obtain ⟨rest', hfirst'⟩ := hr.matched_first hb
    refine ⟨rest, rest', ?_, ?_, ?_⟩
    · rw [← hfirst]
      exact matched_perm r _
    · rw [← hfirst']
      exact matched_perm r _
    · rw [← hfirst, ← hfirst']
      exact h _ _
  · have hsame : ∀ order, r.discover toLowercase order q =
        (Ranking.rank DiscoveryResult.score (r.results toLowercase q)).take q.limit := fun order =>
      (Ranking.take_rank_eq (matched_perm r order).symm hties).symm
    rw [hsame order, hsame order']

/-- `discover_by_entity` returns one list, exactly when at most one capability declares
the entity. -/
theorem Reachable.discoverByEntity_eq_iff (hr : r.Reachable) :
    (∀ order order', r.discoverByEntity order entity kind =
      r.discoverByEntity order' entity kind) ↔
    ∀ a ∈ r.list asStored, ∀ b ∈ r.list asStored, kind.Declares entity a →
      kind.Declares entity b → a = b := by
  refine ⟨fun h a ha b hb hdeclares hdeclares' => ?_, fun h order order' => ?_⟩
  · obtain ⟨rest, hfirst⟩ := list_first (hr.lookup_of_mem_list ha)
    obtain ⟨rest', hfirst'⟩ := list_first (hr.lookup_of_mem_list hb)
    have hsame := h (.first a.id) (.first b.id)
    rw [discoverByEntity, discoverByEntity, hfirst, hfirst',
      List.filter_cons_of_pos (by simpa using hdeclares),
      List.filter_cons_of_pos (by simpa using hdeclares')] at hsame
    exact (List.cons.inj hsame).1
  · have hperm : (r.discoverByEntity order entity kind).Perm
        (r.discoverByEntity order' entity kind) := (list_perm r order order').filter _
    rcases hlist : r.discoverByEntity order entity kind with _ | ⟨a, rest⟩
    · rw [hlist] at hperm
      exact hperm.nil_eq
    · -- all that is found is one capability, as often in both orders
      have hall : ∀ {o : ListOrder}, ∀ b ∈ r.discoverByEntity o entity kind, b = a := by
        have hmem : ∀ {o : ListOrder}, ∀ b ∈ r.discoverByEntity o entity kind,
            b ∈ r.list asStored ∧ kind.Declares entity b := by
          intro o b hb
          obtain ⟨hlisted, hdeclares⟩ := List.mem_filter.mp hb
          exact ⟨(list_perm r o asStored).mem_iff.mp hlisted, of_decide_eq_true hdeclares⟩
        have ha := hmem a (hlist ▸ List.mem_cons_self)
        intro o b hb
        exact h b (hmem b hb).1 a ha.1 (hmem b hb).2 ha.2
      rw [← hlist, List.eq_replicate_of_mem (hall (o := order)),
        List.eq_replicate_of_mem (hall (o := order')), hperm.length_eq]

end Registry

/-! ## The query of a plan -/

section Plan

variable {mint : PlannerMint} {planner : RegistryPlanner} {r : Registry} {order order' : ListOrder}
  {intent : IntentEnvelope}

/-- The query whose hits a plan is made of: in the domain of the intent, if a capability
there matches. -/
def planQuery (mint : PlannerMint) (r : Registry) (intent : IntentEnvelope) : DiscoveryQuery :=
  if ∃ cap ∈ r.list asStored, intent.discoveryQuery.Matches mint.toLowercase cap then
    intent.discoveryQuery
  else .new intent.goal

theorem planQuery_limit_pos (mint : PlannerMint) (r : Registry) (intent : IntentEnvelope) :
    0 < (planQuery mint r intent).limit := by
  rw [planQuery]
  split
  · exact Nat.succ_pos 9
  · exact Nat.succ_pos 4

/-- Whether anything is found does not depend on the order. -/
theorem discover_eq_nil_iff {toLowercase : String → String} {q : DiscoveryQuery}
    (hlimit : 0 < q.limit) :
    r.discover toLowercase order q = [] ↔
      ¬ ∃ cap ∈ r.list asStored, q.Matches toLowercase cap := by
  have hrank : r.discover toLowercase order q = [] ↔
      q.matched toLowercase (r.list order) = [] := by
    rw [Registry.discover, List.take_eq_nil_iff]
    refine ⟨fun h => ?_, fun h => Or.inr ?_⟩
    · rcases h with hzero | hnil
      · omega
      · have hperm : (Ranking.rank DiscoveryResult.score
            (q.matched toLowercase (r.list order))).Perm _ := Ranking.perm_rank _
        rw [hnil] at hperm
        exact hperm.nil_eq.symm
    · rw [h]
      rfl
  rw [hrank, List.eq_nil_iff_forall_not_mem]
  refine ⟨?_, fun hnone hit hhit => ?_⟩
  · rintro hnone ⟨cap, hcap, hmatch⟩
    refine hnone ⟨cap, q.scoreOf toLowercase cap⟩ (Registry.mem_matched.mpr ⟨?_, hmatch, rfl⟩)
    exact (r.list_perm order asStored).mem_iff.mpr hcap
  · obtain ⟨hcap, hmatch, -⟩ := Registry.mem_matched.mp hhit
    exact hnone ⟨hit.capability, (r.list_perm order asStored).mem_iff.mp hcap, hmatch⟩

theorem hitsFor_eq (mint : PlannerMint) (r : Registry) (order : ListOrder)
    (intent : IntentEnvelope) :
    hitsFor mint r order intent =
      r.discover mint.toLowercase order (planQuery mint r intent) := by
  rw [hitsFor, planQuery]
  have hlimit : 0 < intent.discoveryQuery.limit := Nat.succ_pos 9
  have hempty : (r.discover mint.toLowercase order intent.discoveryQuery).isEmpty = true ↔
      ¬ ∃ cap ∈ r.list asStored, intent.discoveryQuery.Matches mint.toLowercase cap := by
    rw [List.isEmpty_iff]
    exact discover_eq_nil_iff hlimit
  by_cases hfound : ∃ cap ∈ r.list asStored, intent.discoveryQuery.Matches mint.toLowercase cap
  · rw [if_pos hfound, if_neg fun h => hempty.mp h hfound]
  · rw [if_neg hfound, if_pos (hempty.mpr hfound)]

/-- The results a plan is selected from. -/
def planResults (mint : PlannerMint) (r : Registry) (intent : IntentEnvelope) :
    List DiscoveryResult :=
  r.results mint.toLowercase (planQuery mint r intent)

/-- The results in the order of the store. -/
def matchedFor (mint : PlannerMint) (r : Registry) (order : ListOrder) (intent : IntentEnvelope) :
    List DiscoveryResult :=
  (planQuery mint r intent).matched mint.toLowercase (r.list order)

theorem matchedFor_perm (mint : PlannerMint) (r : Registry) (order : ListOrder)
    (intent : IntentEnvelope) : (matchedFor mint r order intent).Perm (planResults mint r intent) :=
  Registry.matched_perm r order

theorem hitsFor_eq_take (mint : PlannerMint) (r : Registry) (order : ListOrder)
    (intent : IntentEnvelope) :
    hitsFor mint r order intent =
      (Ranking.rank DiscoveryResult.score (matchedFor mint r order intent)).take
        (planQuery mint r intent).limit := by
  rw [hitsFor_eq]
  rfl

theorem mem_planResults {hit : DiscoveryResult} (h : hit ∈ hitsFor mint r order intent) :
    hit ∈ planResults mint r intent := by
  rw [hitsFor_eq_take] at h
  exact (matchedFor_perm mint r order intent).mem_iff.mp
    (Ranking.mem_rank.mp (List.mem_of_mem_take h))

/-- The first hit is the first of the ranking. -/
theorem hitsFor_of_rank {top : DiscoveryResult} {rest : List DiscoveryResult}
    (h : Ranking.rank DiscoveryResult.score (matchedFor mint r order intent) = top :: rest) :
    ∃ rest', hitsFor mint r order intent = top :: rest' := by
  obtain ⟨k, hk⟩ := Nat.exists_eq_succ_of_ne_zero (planQuery_limit_pos mint r intent).ne'
  refine ⟨rest.take k, ?_⟩
  rw [hitsFor_eq_take, h, hk, List.take_succ_cons]

theorem le_of_hitsFor {top : DiscoveryResult} {rest : List DiscoveryResult}
    (h : hitsFor mint r order intent = top :: rest) :
    ∀ hit ∈ planResults mint r intent, hit.score ≤ top.score := by
  intro hit hhit
  rcases hrank : Ranking.rank DiscoveryResult.score (matchedFor mint r order intent)
    with _ | ⟨best, others⟩
  · rw [hitsFor_eq_take, hrank, List.take_nil] at h
    cases h
  · obtain ⟨rest', hfirst⟩ := hitsFor_of_rank hrank
    rw [h] at hfirst
    cases hfirst
    exact Ranking.le_of_rank_eq_cons hrank hit ((matchedFor_perm mint r order intent).mem_iff.mpr hhit)

/-! ## What a new planner returns -/

/-- The capabilities of the plan, if the selection is accepted. -/
theorem idsOf_plan_new_iff {ids : List CapabilityId} :
    idsOf (planner.plan mint r order .new intent).1 = some ids ↔
      planner.Accepts mint r order intent ∧
        (topoSort (chosenFrom (hitsFor mint r order intent))).map CapabilityContract.id = ids := by
  rw [idsOf_eq_some_iff]
  refine ⟨?_, ?_⟩
  · rintro ⟨plan, hplan, rfl⟩
    rcases plan_eq_ok_iff.mp hplan with hget | ⟨-, haccepts, rfl⟩
    · cases hget
    · exact ⟨haccepts, (planOf_ids ..).symm⟩
  · rintro ⟨haccepts, rfl⟩
    exact ⟨_, plan_eq_ok_iff.mpr (Or.inr ⟨rfl, haccepts, rfl⟩), planOf_ids ..⟩

/-- The capabilities of the plan are those selected. -/
theorem mem_sorted_ids (hr : r.Reachable) {hit : DiscoveryResult}
    (hhit : hit ∈ planResults mint r intent) :
    hit.capability.id ∈
        (topoSort (chosenFrom (hitsFor mint r order intent))).map CapabilityContract.id ↔
      Selected (hitsFor mint r order intent) hit := by
  have hperm := topoSort_perm (nodup_chosenFrom hr mint order intent)
  refine ⟨fun h => ?_, fun h => ?_⟩
  · obtain ⟨cap, hcap, hid⟩ := List.mem_map.mp h
    obtain ⟨hit', hselected, rfl⟩ := mem_chosenFrom_iff.mp (hperm.mem_iff.mp hcap)
    rw [hr.eq_of_id_eq hhit (mem_planResults hselected.mem) hid.symm]
    exact hselected
  · exact List.mem_map_of_mem (hperm.mem_iff.mpr (mem_chosenFrom_iff.mpr ⟨hit, h, rfl⟩))

/-- The best hit is the last step. -/
theorem getLast?_sorted_ids (hr : r.Reachable) {top : DiscoveryResult}
    {rest : List DiscoveryResult} (h : hitsFor mint r order intent = top :: rest) :
    ((topoSort (chosenFrom (hitsFor mint r order intent))).map CapabilityContract.id).getLast? =
      some top.capability.id := by
  have hnodup := nodup_chosenFrom hr mint order intent
  rw [h] at hnodup ⊢
  rw [chosenFrom] at hnodup ⊢
  rw [topoSort_cons hnodup, List.map_append]
  · exact List.getLast?_concat
  · intro cap hcap
    obtain ⟨-, hdep⟩ := List.mem_filter.mp hcap
    exact of_decide_eq_true hdep

/-- One result has the highest score, alone. -/
def Best (mint : PlannerMint) (r : Registry) (intent : IntentEnvelope) (top : DiscoveryResult) :
    Prop :=
  top ∈ planResults mint r intent ∧
    ∀ hit ∈ planResults mint r intent, hit ≠ top → hit.score < top.score

/-- For each other result that the best one depends on directly, it is settled by the
scores whether it is within the limit. -/
def DepsSettled (mint : PlannerMint) (r : Registry) (intent : IntentEnvelope)
    (top : DiscoveryResult) : Prop :=
  ∀ hit ∈ planResults mint r intent, hit ≠ top → hit.capability.id ∈ top.capability.dependsOn →
    Ranking.Settled DiscoveryResult.score (planQuery mint r intent).limit
      (planResults mint r intent) hit

/-- The best result is the first hit in every order. -/
theorem Best.first_hit {top : DiscoveryResult} (h : Best mint r intent top) (order : ListOrder) :
    ∃ rest, hitsFor mint r order intent = top :: rest := by
  have hperm := matchedFor_perm mint r order intent
  obtain ⟨rest, hrank⟩ := Ranking.rank_eq_cons_of_lt (hperm.mem_iff.mpr h.1)
    fun hit hhit hne => h.2 hit (hperm.mem_iff.mp hhit) hne
  exact hitsFor_of_rank hrank

/-- A selected hit other than the best is one the best depends on. -/
theorem selected_iff {top hit : DiscoveryResult} {rest : List DiscoveryResult}
    (h : hitsFor mint r order intent = top :: rest) (hne : hit ≠ top) :
    Selected (hitsFor mint r order intent) hit ↔
      hit ∈ hitsFor mint r order intent ∧ hit.capability.id ∈ top.capability.dependsOn := by
  rw [h, Selected, List.mem_cons]
  simp [hne]

/-- Then every order selects the same capabilities. -/
theorem Best.selected {top : DiscoveryResult} (h : Best mint r intent top)
    (hsettled : DepsSettled mint r intent top) (order order' : ListOrder) {hit : DiscoveryResult}
    (hhit : Selected (hitsFor mint r order intent) hit) :
    Selected (hitsFor mint r order' intent) hit := by
  obtain ⟨rest, hfirst⟩ := h.first_hit order
  obtain ⟨rest', hfirst'⟩ := h.first_hit order'
  by_cases hne : hit = top
  · rw [hfirst', hne]
    exact Or.inl rfl
  · obtain ⟨hmem, hdep⟩ := (selected_iff hfirst hne).mp hhit
    refine (selected_iff hfirst' hne).mpr ⟨?_, hdep⟩
    have hresult := mem_planResults hmem
    rw [hitsFor_eq_take] at hmem ⊢
    exact ((hsettled hit hresult hne hdep).mem_take_iff hresult (matchedFor_perm mint r order intent)
      (matchedFor_perm mint r order' intent)).mp hmem

/-- And the plan is made of the same capabilities in the same order. -/
theorem Best.topoSort_eq (hr : r.Reachable) {top : DiscoveryResult} (h : Best mint r intent top)
    (hsettled : DepsSettled mint r intent top) (order order' : ListOrder) :
    (chosenFrom (hitsFor mint r order intent)).Perm
        (chosenFrom (hitsFor mint r order' intent)) ∧
      topoSort (chosenFrom (hitsFor mint r order intent)) =
        topoSort (chosenFrom (hitsFor mint r order' intent)) := by
  have hnodup := nodup_chosenFrom hr mint order intent
  have hperm : (chosenFrom (hitsFor mint r order intent)).Perm
      (chosenFrom (hitsFor mint r order' intent)) := by
    refine (List.perm_ext_iff_of_nodup (List.Nodup.of_map _ hnodup)
      (List.Nodup.of_map _ (nodup_chosenFrom hr mint order' intent))).mpr fun cap => ?_
    rw [mem_chosenFrom_iff, mem_chosenFrom_iff]
    refine exists_congr fun hit => and_congr_left fun _ => ?_
    exact ⟨h.selected hsettled order order', h.selected hsettled order' order⟩
  refine ⟨hperm, ?_⟩
  obtain ⟨rest, hfirst⟩ := h.first_hit order
  obtain ⟨rest', hfirst'⟩ := h.first_hit order'
  rw [hfirst, hfirst'] at hperm ⊢
  rw [hfirst] at hnodup
  rw [chosenFrom] at hnodup
  rw [chosenFrom, chosenFrom] at hperm ⊢
  refine topoSort_eq_of_perm hnodup (fun cap hcap => ?_) hperm.cons_inv
  obtain ⟨-, hdep⟩ := List.mem_filter.mp hcap
  exact of_decide_eq_true hdep

theorem Best.accepts (hr : r.Reachable) {top : DiscoveryResult} (h : Best mint r intent top)
    (hsettled : DepsSettled mint r intent top) (haccepts : planner.Accepts mint r order intent)
    (order' : ListOrder) : planner.Accepts mint r order' intent := by
  obtain ⟨hperm, hsort⟩ := h.topoSort_eq hr hsettled order order'
  obtain ⟨rest, hfirst⟩ := h.first_hit order'
  refine ⟨?_, (RegistryPlanner.passes_perm hperm).mp haccepts.passes, ?_, haccepts.admits⟩
  · rw [hfirst]
    exact List.cons_ne_nil _ _
  · rw [← hsort]
    exact haccepts.length

/-- A plan that is the same in every order has one best result. -/
theorem best_of_eq (hr : r.Reachable)
    (h : ∀ order', idsOf (planner.plan mint r order' .new intent).1 =
      idsOf (planner.plan mint r order .new intent).1)
    (haccepts : planner.Accepts mint r order intent) {top : DiscoveryResult}
    {rest : List DiscoveryResult} (hfirst : hitsFor mint r order intent = top :: rest) :
    Best mint r intent top := by
  have htop : top ∈ planResults mint r intent := by
    apply mem_planResults
    rw [hfirst]
    exact List.mem_cons_self
  refine ⟨htop, fun hit hhit hne => lt_of_le_of_ne (le_of_hitsFor hfirst hit hhit) fun hscore => ?_⟩
  -- listed first, the result that ties would be the last step of the plan
  obtain ⟨others, hlisted⟩ := hr.matched_first hhit
  have hperm : (hit :: others).Perm (planResults mint r intent) := by
    rw [← hlisted]
    exact matchedFor_perm mint r _ intent
  have hle : ∀ b ∈ others, b.score ≤ hit.score := by
    intro b hb
    rw [hscore]
    exact le_of_hitsFor hfirst b (hperm.mem_iff.mp (List.mem_cons_of_mem _ hb))
  obtain ⟨ranked, hrank⟩ := Ranking.rank_cons_of_le hle
  rw [← hlisted] at hrank
  obtain ⟨rest', hfirst'⟩ := hitsFor_of_rank hrank
  have hsame := (h (.first hit.capability.id)).trans (idsOf_plan_new_iff.mpr ⟨haccepts, rfl⟩)
  obtain ⟨-, hids⟩ := idsOf_plan_new_iff.mp hsame
  have hlast := getLast?_sorted_ids hr hfirst'
  rw [hids, getLast?_sorted_ids hr hfirst] at hlast
  exact hne (hr.eq_of_id_eq htop hhit (Option.some.inj hlast)).symm

/-- And of the results the best one depends on it is settled which are hits. -/
theorem depsSettled_of_eq (hr : r.Reachable)
    (h : ∀ order', idsOf (planner.plan mint r order' .new intent).1 =
      idsOf (planner.plan mint r order .new intent).1)
    (haccepts : planner.Accepts mint r order intent) {top : DiscoveryResult}
    (hbest : Best mint r intent top) : DepsSettled mint r intent top := by
  intro hit hhit hne hdep
  -- in every order the plan has the same capabilities
  have hsame : ∀ order', hit ∈ hitsFor mint r order' intent ↔
      hit.capability.id ∈
        (topoSort (chosenFrom (hitsFor mint r order intent))).map CapabilityContract.id := by
    intro order'
    obtain ⟨rest', hfirst'⟩ := hbest.first_hit order'
    obtain ⟨-, hids⟩ := idsOf_plan_new_iff.mp
      ((h order').trans (idsOf_plan_new_iff.mpr ⟨haccepts, rfl⟩))
    rw [← hids, mem_sorted_ids hr hhit, selected_iff hfirst' hne]
    exact ⟨fun hmem => ⟨hmem, hdep⟩, fun hmem => hmem.1⟩
  obtain ⟨after, hlisted⟩ := hr.matched_first hhit
  obtain ⟨before, hlisted'⟩ := hr.matched_last hhit
  have hfirst : (hit :: after).Perm (planResults mint r intent) := by
    rw [← hlisted]
    exact matchedFor_perm mint r _ intent
  have hlast : (before ++ [hit]).Perm (planResults mint r intent) := by
    rw [← hlisted']
    exact matchedFor_perm mint r _ intent
  have hiff := (hsame (.first hit.capability.id)).trans (hsame (.last hit.capability.id)).symm
  rw [hitsFor_eq_take, hitsFor_eq_take, matchedFor, matchedFor, hlisted, hlisted'] at hiff
  have hnodup : (planResults mint r intent).Nodup :=
    List.Nodup.of_map _ (hr.nodup_matched asStored _ _)
  exact Ranking.settled_of_mem_take_iff hnodup hfirst hlast hiff

/-- A new planner plans the same capabilities in every order, exactly when nothing is
accepted in any, or the scores settle what is selected. -/
theorem plan_eq_iff (hr : r.Reachable) :
    (∀ order order', idsOf (planner.plan mint r order .new intent).1 =
      idsOf (planner.plan mint r order' .new intent).1) ↔
    ∀ order, planner.Accepts mint r order intent →
      ∃ top, Best mint r intent top ∧ DepsSettled mint r intent top := by
  refine ⟨fun h order haccepts => ?_, fun h order order' => ?_⟩
  · obtain ⟨top, rest, hfirst⟩ := List.exists_cons_of_ne_nil haccepts.found
    have hbest := best_of_eq hr (fun order' => h order' order) haccepts hfirst
    exact ⟨top, hbest, depsSettled_of_eq hr (fun order' => h order' order) haccepts hbest⟩
  · have hmove : ∀ {order order' : ListOrder} {ids : List CapabilityId},
        idsOf (planner.plan mint r order .new intent).1 = some ids →
        idsOf (planner.plan mint r order' .new intent).1 = some ids := by
      intro order order' ids hids
      obtain ⟨haccepts, rfl⟩ := idsOf_plan_new_iff.mp hids
      obtain ⟨top, hbest, hsettled⟩ := h order haccepts
      refine idsOf_plan_new_iff.mpr ⟨hbest.accepts hr hsettled haccepts order', ?_⟩
      rw [(hbest.topoSort_eq hr hsettled order order').2]
    exact Option.ext fun ids => ⟨hmove, hmove⟩

end Plan

/-! ## Independence of the order -/

/-- What is discovered for the query, discovered for the entity and planned for the intent
with an empty cache is the same in every order of the store. -/
structure StorageOrderFree (mint : PlannerMint) (planner : RegistryPlanner) (r : Registry)
    (q : DiscoveryQuery) (entity : EntityRefLite) (kind : EntityQueryKind)
    (intent : IntentEnvelope) : Prop where
  discover : ∀ order order', r.discover mint.toLowercase order q =
    r.discover mint.toLowercase order' q
  discoverByEntity : ∀ order order', r.discoverByEntity order entity kind =
    r.discoverByEntity order' entity kind
  plan : ∀ order order', idsOf (planner.plan mint r order .new intent).1 =
    idsOf (planner.plan mint r order' .new intent).1

/-- No ties where it matters: results share a score only beyond the limit, at most one
capability declares the entity, and if the selection for the intent is accepted in some
order, then one result is best and it is settled which of its dependencies are hits. -/
structure TiesSettled (mint : PlannerMint) (planner : RegistryPlanner) (r : Registry)
    (q : DiscoveryQuery) (entity : EntityRefLite) (kind : EntityQueryKind)
    (intent : IntentEnvelope) : Prop where
  results : Ranking.NoTies DiscoveryResult.score q.limit (r.results mint.toLowercase q)
  declared : ∀ a ∈ r.list asStored, ∀ b ∈ r.list asStored, kind.Declares entity a →
    kind.Declares entity b → a = b
  selection : ∀ order, planner.Accepts mint r order intent →
    ∃ top, Best mint r intent top ∧ DepsSettled mint r intent top

/-- **Independent of the order, exactly when.** For every registry, query, entity and
intent, what is returned does not depend on the order in which the store lists its
entries if and only if the ties are settled. -/
theorem storageOrderFree_iff (mint : PlannerMint) (planner : RegistryPlanner) (r : Registry)
    (hr : r.Reachable) (q : DiscoveryQuery) (entity : EntityRefLite) (kind : EntityQueryKind)
    (intent : IntentEnvelope) :
    StorageOrderFree mint planner r q entity kind intent ↔
      TiesSettled mint planner r q entity kind intent := by
  refine ⟨fun h => ⟨?_, ?_, ?_⟩, fun h => ⟨?_, ?_, ?_⟩⟩
  · exact hr.discover_eq_iff.mp h.discover
  · exact hr.discoverByEntity_eq_iff.mp h.discoverByEntity
  · exact (plan_eq_iff hr).mp h.plan
  · exact hr.discover_eq_iff.mpr h.results
  · exact hr.discoverByEntity_eq_iff.mpr h.declared
  · exact (plan_eq_iff hr).mpr h.selection

/-- A second capability that answers the question about the stock as well as the first. -/
def shelfCap : CapabilityContract :=
  { CapabilityContract.plain ⟨"cap-shelf"⟩ "check stock" with domains := ["warehouse"] }

/-- A registry with the two. -/
def shelves : Registry := ((Registry.inMemory.register stockCap).2.register shelfCap).2

theorem shelves_reachable : shelves.Reachable :=
  (Registry.Reachable.inMemory.register _).register _

/-- The entity whose readers are asked for. -/
def stockEntity : EntityRefLite := ⟨"warehouse.Stock", ⟨1, 0, 0⟩, none, none⟩

theorem storageOrderFree_iff_shelves :
    shelves.Reachable ∧
      (StorageOrderFree warehouseMint defaultPlanner shelves (.new "check stock") stockEntity .reads
          stockIntent ↔
        TiesSettled warehouseMint defaultPlanner shelves (.new "check stock") stockEntity .reads
          stockIntent) :=
  ⟨shelves_reachable, storageOrderFree_iff warehouseMint defaultPlanner shelves shelves_reachable
    (.new "check stock") stockEntity .reads stockIntent⟩

/-- The plan is the capability that happens to be listed first. -/
theorem shelves_order_matters :
    shelves.Reachable ∧ ¬ StorageOrderFree warehouseMint defaultPlanner shelves
      (.new "check stock") stockEntity .reads stockIntent := by
  refine ⟨shelves_reachable, fun h => ?_⟩
  have hstock : idsOf (defaultPlanner.plan warehouseMint shelves (.first stockCap.id) .new
      stockIntent).1 = some [stockCap.id] := by decide +kernel
  have hshelf : idsOf (defaultPlanner.plan warehouseMint shelves (.first shelfCap.id) .new
      stockIntent).1 = some [shelfCap.id] := by decide +kernel
  have hsame := h.plan (.first stockCap.id) (.first shelfCap.id)
  rw [hstock, hshelf] at hsame
  exact absurd hsame (by decide)

end Aaf
