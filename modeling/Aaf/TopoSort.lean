import Aaf.DfsOrder
import Aaf.Paths
import Aaf.Planner
import Aaf.Ranking

/-!
# The order of the capabilities

`topo_sort` (`aaf-planner`), for every list of capabilities. `topoSort_correct`: the
recursion ends, whatever depends on what; each id is returned once; and without a cycle
every capability stands after those it depends on. Where two capabilities share an id, the
order is that of the dependencies of the one that is returned.

Its documentation also calls the sort stable, in that capabilities of one depth keep their
input order. They need not: a dependency is pulled before its first dependent.
`topoSort_stable_iff` says which input orders are kept.
-/

namespace Aaf

/-- The id `k` is needed before the id `a`: a capability of the list has `a` and depends on
`k`, and the list has `k`. -/
def Dep (caps : List CapabilityContract) (k a : CapabilityId) : Prop :=
  ∃ cap ∈ caps, cap.id = a ∧ k ∈ cap.dependsOn ∧ k ∈ caps.map CapabilityContract.id

section TopoSort

variable {caps : List CapabilityContract} {k a : CapabilityId}

theorem exists_mem_depsIn_iff {cap : CapabilityContract} :
    (∃ d ∈ depsIn caps cap, d.id = k) ↔
      k ∈ cap.dependsOn ∧ k ∈ caps.map CapabilityContract.id := by
  constructor
  · rintro ⟨d, hd, rfl⟩
    obtain ⟨hmem, hdep⟩ := mem_of_mem_depsIn hd
    exact ⟨hdep, List.mem_map_of_mem hmem⟩
  · rintro ⟨hdep, hid⟩
    obtain ⟨c, hc, rfl⟩ := List.mem_map.mp hid
    obtain ⟨d, hd⟩ := exists_lookup_byId hc
    refine ⟨d, List.mem_filterMap.mpr ⟨c.id, hdep, ?_⟩, (mem_of_lookup_byId hd).2⟩
    rw [if_pos hid, hd]

/-- What the search needs, by id. -/
theorem keyNeeded_iff :
    Dfs.KeyNeeded CapabilityContract.id (depsIn caps) caps k a ↔ Dep caps k a := by
  simp only [Dfs.KeyNeeded, Dep, exists_mem_depsIn_iff]

/-- The recursion ends in what `topoSort` returns. -/
theorem topoSort_visits (caps : List CapabilityContract) :
    ∃ st, Dfs.Visits CapabilityContract.id (depsIn caps) caps Dfs.start st ∧
      st.order = topoSort caps :=
  ⟨_, Dfs.visitAll_visits depsIn_closed _ caps Dfs.start (fun _ hcap => hcap)
    (lt_of_le_of_lt (Dfs.unvisited_start_le _ _) (Nat.lt_succ_self _)), rfl⟩

/-- Each id is returned once, by one of its capabilities. -/
theorem topoSort_ids (caps : List CapabilityContract) :
    ((topoSort caps).map CapabilityContract.id).Nodup ∧
      (∀ cap ∈ topoSort caps, cap ∈ caps) ∧
      ∀ id, id ∈ (topoSort caps).map CapabilityContract.id ↔
        id ∈ caps.map CapabilityContract.id := by
  obtain ⟨st, hvisits, horder⟩ := topoSort_visits caps
  obtain ⟨new, hnew, hmarked, -⟩ := hvisits.spec depsIn_closed fun _ hcap => hcap
  have hall : topoSort caps = new := by
    rw [← horder, hnew.order]
    rfl
  rw [hall]
  refine ⟨hnew.nodup, hnew.mem, fun id => ⟨fun hid => ?_, fun hid => ?_⟩⟩
  · obtain ⟨cap, hcap, rfl⟩ := List.mem_map.mp hid
    exact List.mem_map_of_mem (hnew.mem cap hcap)
  · obtain ⟨cap, hcap, rfl⟩ := List.mem_map.mp hid
    exact ((hnew.visited _).mp (hmarked cap hcap)).resolve_left List.not_mem_nil

/-- Every capability returned stands after the ids it depends on. -/
theorem topoSort_ordered (hacyclic : Topo.Acyclic (Dep caps)) :
    Dfs.Ordered CapabilityContract.id (depsIn caps) (topoSort caps) := by
  obtain ⟨st, hvisits, horder⟩ := topoSort_visits caps
  have hrel : Dfs.KeyNeeded CapabilityContract.id (depsIn caps) caps = Dep caps := by
    funext k a
    exact propext keyNeeded_iff
  rw [← horder]
  exact hvisits.ordered depsIn_closed (hrel ▸ hacyclic) (.start fun _ hcap => hcap)

/-- The ids respect the dependencies among the capabilities returned. -/
theorem topoSort_respects (hacyclic : Topo.Acyclic (Dep caps)) :
    Topo.Respects (Dep (topoSort caps)) ((topoSort caps).map CapabilityContract.id) := by
  obtain ⟨hnodup, hmem, -⟩ := topoSort_ids caps
  rintro pre a post hsplit k ⟨cap, hcap, hid, hdep, hk⟩
  obtain ⟨before, rest, hout, rfl, hrest⟩ := List.map_eq_append_iff.mp hsplit
  obtain ⟨c, after, rfl, hc, -⟩ := List.map_eq_cons_iff.mp hrest
  have hc' : c ∈ topoSort caps := by
    rw [hout]
    exact List.mem_append_right _ List.mem_cons_self
  have hsame : cap = c := List.inj_on_of_nodup_map hnodup hcap hc' (hid.trans hc.symm)
  have hk' : k ∈ caps.map CapabilityContract.id := by
    obtain ⟨d, hd, rfl⟩ := List.mem_map.mp hk
    exact List.mem_map_of_mem (hmem d hd)
  obtain ⟨d, hd, rfl⟩ := exists_mem_depsIn_iff.mpr ⟨hsame ▸ hdep, hk'⟩
  exact topoSort_ordered hacyclic before c after hout d hd

/-- Where capabilities with one id agree, the dependencies among those returned are all. -/
theorem Dep.of_agree
    (hagree : ∀ c ∈ caps, ∀ c' ∈ caps, c.id = c'.id → c.dependsOn = c'.dependsOn)
    (h : Dep caps k a) : Dep (topoSort caps) k a := by
  obtain ⟨-, hmem, hids⟩ := topoSort_ids caps
  obtain ⟨cap, hcap, rfl, hdep, hk⟩ := h
  obtain ⟨c, hc, hid⟩ := List.mem_map.mp ((hids cap.id).mpr (List.mem_map_of_mem hcap))
  refine ⟨c, hc, hid, ?_, (hids k).mpr hk⟩
  rw [hagree c (hmem c hc) cap hcap hid]
  exact hdep

end TopoSort

/-- **The sort.** The recursion ends, in one state; each id is returned once; and without a
cycle a capability stands after all capabilities returned that it depends on, directly or
not, which are all of the list where capabilities that share an id agree. -/
theorem topoSort_correct (caps : List CapabilityContract) :
    (∃ st, Dfs.Visits CapabilityContract.id (depsIn caps) caps Dfs.start st ∧
      (∀ st', Dfs.Visits CapabilityContract.id (depsIn caps) caps Dfs.start st' → st' = st) ∧
      st.order = topoSort caps) ∧
    (∀ cap ∈ topoSort caps, cap ∈ caps) ∧
    (∀ id, ((topoSort caps).map CapabilityContract.id).count id =
      if id ∈ caps.map CapabilityContract.id then 1 else 0) ∧
    (Topo.Acyclic (Dep caps) →
      Topo.Respects (Relation.TransGen (Dep (topoSort caps)))
        ((topoSort caps).map CapabilityContract.id) ∧
      ((∀ c ∈ caps, ∀ c' ∈ caps, c.id = c'.id → c.dependsOn = c'.dependsOn) →
        Topo.Respects (Relation.TransGen (Dep caps))
          ((topoSort caps).map CapabilityContract.id))) := by
  obtain ⟨hnodup, hmem, hids⟩ := topoSort_ids caps
  obtain ⟨st, hvisits, horder⟩ := topoSort_visits caps
  refine ⟨⟨st, hvisits, fun st' h => h.unique hvisits, horder⟩, hmem, fun id => ?_,
    fun hacyclic => ⟨?_, fun hagree => ?_⟩⟩
  · rw [hnodup.count]
    simp only [hids]
  · intro pre a post hsplit k hpath
    exact (topoSort_respects hacyclic).mem_of_transGen hpath hsplit
  · intro pre a post hsplit k hpath
    have hle : Dep caps ≤ Dep (topoSort caps) := fun _ _ => Dep.of_agree hagree
    exact (topoSort_respects hacyclic).mem_of_transGen
      (Relation.TransGen.mono hle _ _ hpath) hsplit

/-- A capability with an id and dependencies. -/
def dependent (id : String) (deps : List String) : CapabilityContract :=
  { CapabilityContract.plain ⟨id⟩ id with dependsOn := deps.map CapabilityId.mk }

/-- Two capabilities share the id `c`, and only the second depends on `d`. -/
def twice : List CapabilityContract :=
  [dependent "c" [], dependent "a" ["c"], dependent "c" ["d"], dependent "d" []]

/-- The first `c` is returned, and so `d` comes after `a`, which needs it by way of `c`. -/
theorem twice_not_respected :
    ¬ ∀ caps : List CapabilityContract, Topo.Acyclic (Dep caps) →
      Topo.Respects (Relation.TransGen (Dep caps))
        ((topoSort caps).map CapabilityContract.id) := by
  intro h
  have hacyclic : Topo.Acyclic (Dep twice) := by
    refine Topo.acyclic_of_rank
      (fun id => if id.raw = "a" then 2 else if id.raw = "c" then 1 else 0) ?_
    rintro k a ⟨cap, hcap, rfl, hdep, -⟩
    simp only [twice, List.mem_cons, List.not_mem_nil, or_false] at hcap
    rcases hcap with rfl | rfl | rfl | rfl
    · cases hdep
    · rw [List.mem_singleton.mp hdep]
      decide
    · rw [List.mem_singleton.mp hdep]
      decide
    · cases hdep
  have hids : (topoSort twice).map CapabilityContract.id = [⟨"c"⟩] ++ ⟨"a"⟩ :: [⟨"d"⟩] := by
    decide +kernel
  have hpath : Relation.TransGen (Dep twice) ⟨"d"⟩ ⟨"a"⟩ :=
    .tail (.single ⟨dependent "c" ["d"], by simp [twice], rfl, by decide, by decide⟩)
      ⟨dependent "a" ["c"], by simp [twice], rfl, by decide, by decide⟩
  have hbefore := h twice hacyclic _ _ _ hids _ hpath
  exact absurd hbefore (by decide)

/-! ## Input order -/

/-- The length of the longest chain of dependencies below a capability. -/
def DepthIs (caps : List CapabilityContract) (cap : CapabilityContract) (depth : ℕ) : Prop :=
  Topo.HeightIs (Dfs.Needed (depsIn caps)) cap depth

/-- Capabilities of one depth keep their input order. -/
def Stable (caps : List CapabilityContract) : Prop :=
  ∀ x y depth, DepthIs caps x depth → DepthIs caps y depth →
    List.Sublist [x, y] caps → List.Sublist [x, y] (topoSort caps)

section Stable

variable {caps : List CapabilityContract} {x y : CapabilityContract} {depth : ℕ}

/-- A rank that grows from dependency to dependent, inside the list, excludes a cycle. -/
theorem acyclic_of_dependsOn (rank : CapabilityContract → ℕ)
    (hlt : ∀ c ∈ caps, ∀ d ∈ caps, d.id ∈ c.dependsOn → rank d < rank c) :
    Topo.Acyclic (Dfs.Needed (depsIn caps)) := by
  have hpath : ∀ {d c}, Relation.TransGen (Dfs.Needed (depsIn caps)) d c → c ∈ caps →
      rank d < rank c := by
    intro d c h
    induction h with
    | single hneeded =>
      obtain ⟨hd, hdep⟩ := mem_of_mem_depsIn hneeded
      exact fun hc => hlt _ hc _ hd hdep
    | tail _ hneeded ih =>
      obtain ⟨hd, hdep⟩ := mem_of_mem_depsIn hneeded
      exact fun hc => lt_trans (ih hd) (hlt _ hc _ hd hdep)
  intro c hcycle
  obtain ⟨d, hneeded, -⟩ := Relation.TransGen.head'_iff.mp hcycle
  exact absurd (hpath hcycle (mem_of_mem_depsIn hneeded).1) (Nat.lt_irrefl _)

/-- The capabilities of depth zero are those without a dependency in the list. -/
theorem depthIs_zero_iff : DepthIs caps x 0 ↔ depsIn caps x = [] := by
  rw [List.eq_nil_iff_forall_not_mem]
  constructor
  · intro h d hd
    exact absurd (h.longest 1 d ((Topo.Walk.nil d).tail hd)) (by decide)
  · intro hnone
    refine ⟨⟨x, hnone, .nil x⟩, fun m s hwalk => ?_⟩
    cases hwalk with
    | nil => exact le_rfl
    | tail _ hedge => exact absurd hedge (hnone _)

/-- What has one depth with a capability is not needed by it. -/
theorem DepthIs.not_reaches (hx : DepthIs caps x depth) (hy : DepthIs caps y depth)
    (hne : x ≠ y) : ¬ Dfs.Reaches (depsIn caps) y x := by
  intro hpath
  rcases Relation.reflTransGen_iff_eq_or_transGen.mp hpath with rfl | hpath
  · exact hne rfl
  · exact absurd (hx.lt_of_transGen hy hpath) (Nat.lt_irrefl depth)

variable (hnodup : (caps.map CapabilityContract.id).Nodup)
  (hacyclic : Topo.Acyclic (Dfs.Needed (depsIn caps)))

include hnodup hacyclic

/-- Without a cycle every capability has a depth: the sort itself is a rank. -/
theorem exists_depthIs (cap : CapabilityContract) : ∃ depth, DepthIs caps cap depth := by
  classical
  have hrespects : Topo.Respects (Dfs.Needed (depsIn caps)) (topoSort caps) :=
    Dfs.respects_visitAll depsIn_closed hnodup hacyclic (Nat.lt_succ_self _)
  have hlt : ∀ d c, Dfs.Needed (depsIn caps) d c →
      (topoSort caps).idxOf d < (topoSort caps).idxOf c := fun d c hneeded =>
    hrespects.idxOf_lt hneeded
      ((topoSort_perm hnodup).mem_iff.mpr (mem_of_mem_depsIn hneeded).1)
  exact Topo.exists_heightIs hlt cap

/-- Of two capabilities of one depth the one comes first that the search comes to first. -/
theorem pair_sublist_topoSort_iff (hx : DepthIs caps x depth) (hy : DepthIs caps y depth)
    (hpair : List.Sublist [x, y] caps) :
    List.Sublist [x, y] (topoSort caps) ↔ Dfs.FirstTo (depsIn caps) x y caps := by
  have hxmem : x ∈ caps := hpair.subset (by simp)
  have hymem : y ∈ caps := hpair.subset (by simp)
  have hne : x ≠ y := by
    have := hnodup.of_map.sublist hpair
    simp at this
    exact this
  obtain ⟨st, hvisits, horder⟩ := topoSort_visits caps
  have hperm := topoSort_perm hnodup
  have hfirst := hvisits.first depsIn_closed hnodup hacyclic hxmem hymem
    (hy.not_reaches hx hne.symm) (hx.not_reaches hy hne) (.start fun _ hcap => hcap)
    List.not_mem_nil List.not_mem_nil ⟨x, hxmem, Or.inl .refl⟩
  rw [horder] at hfirst
  rcases hfirst with ⟨hfirst, pre, post, hsplit, hnot⟩ | ⟨hfirst, pre, post, hsplit, hnot⟩
  · refine iff_of_true ?_ hfirst
    have hmem : y ∈ pre ++ x :: post := hsplit ▸ hperm.mem_iff.mpr hymem
    have hpost : y ∈ post := by simpa [hnot, hne.symm] using hmem
    rw [hsplit]
    exact List.sublist_append_of_sublist_right ((List.singleton_sublist.mpr hpost).cons_cons x)
  · refine iff_of_false (fun hsub => hnot ?_) hfirst.asymm
    have hnodup' : (topoSort caps).Nodup := hperm.nodup_iff.mpr hnodup.of_map
    rw [hsplit] at hsub hnodup'
    exact Ranking.mem_of_pair_sublist hnodup' hsub

/-- **Stability.** Every capability has a depth, and those of one depth keep their input
order exactly when the search comes to them in that order. -/
theorem topoSort_stable_iff :
    (∀ cap ∈ caps, ∃ depth, DepthIs caps cap depth) ∧
    (Stable caps ↔ ∀ x y depth, DepthIs caps x depth → DepthIs caps y depth →
      List.Sublist [x, y] caps → Dfs.FirstTo (depsIn caps) x y caps) := by
  refine ⟨fun cap _ => exists_depthIs hnodup hacyclic cap, ?_⟩
  refine forall_congr' fun x => forall_congr' fun y => forall_congr' fun depth => ?_
  refine forall_congr' fun hx => forall_congr' fun hy => forall_congr' fun hpair => ?_
  exact pair_sublist_topoSort_iff hnodup hacyclic hx hy hpair

end Stable

/-- `y` is pulled before `x` where the capability that depends on it comes first. -/
def pulled : List CapabilityContract :=
  [dependent "a" ["y"], dependent "x" [], dependent "y" []]

/-- Where it comes last, the input order is kept. -/
def kept : List CapabilityContract :=
  [dependent "x" [], dependent "y" [], dependent "a" ["y"]]

/-- Of the two of depth zero the search comes to `x` first, and `a` is alone in its depth. -/
theorem kept_stable : Stable kept := by
  have hnodup : (kept.map CapabilityContract.id).Nodup := by decide
  have hacyclic : Topo.Acyclic (Dfs.Needed (depsIn kept)) :=
    acyclic_of_dependsOn (fun cap => cap.dependsOn.length) (by decide)
  have hx : DepthIs kept (dependent "x" []) 0 := depthIs_zero_iff.mpr (by decide +kernel)
  have hy : DepthIs kept (dependent "y" []) 0 := depthIs_zero_iff.mpr (by decide +kernel)
  have ha : ¬ DepthIs kept (dependent "a" ["y"]) 0 := by
    rw [depthIs_zero_iff]
    decide +kernel
  refine (topoSort_stable_iff hnodup hacyclic).2.mpr fun x y depth hdx hdy hpair => ?_
  have hmem : [x, y] ∈ kept.sublistsLen 2 := List.mem_sublistsLen.mpr ⟨hpair, rfl⟩
  simp only [kept, List.sublistsLen, List.sublistsLenAux, List.mem_cons, List.cons.injEq,
    Function.comp_apply, id_eq, and_true, List.not_mem_nil, or_false] at hmem
  rcases hmem with ⟨rfl, rfl⟩ | ⟨rfl, rfl⟩ | ⟨rfl, rfl⟩
  · exact absurd (hy.unique hdx ▸ hdy) ha
  · exact absurd (hx.unique hdx ▸ hdy) ha
  · refine .here .refl (hy.not_reaches hx fun heq => ?_)
    exact absurd (congrArg CapabilityContract.id heq) (by decide)

/-- `x` and `y` change places. -/
theorem pulled_not_stable :
    ¬ ∀ caps : List CapabilityContract, (caps.map CapabilityContract.id).Nodup →
      Topo.Acyclic (Dfs.Needed (depsIn caps)) → Stable caps := by
  intro h
  have hacyclic : Topo.Acyclic (Dfs.Needed (depsIn pulled)) :=
    acyclic_of_dependsOn (fun cap => cap.dependsOn.length) (by decide)
  have hx : DepthIs pulled (dependent "x" []) 0 := depthIs_zero_iff.mpr (by decide +kernel)
  have hy : DepthIs pulled (dependent "y" []) 0 := depthIs_zero_iff.mpr (by decide +kernel)
  have hsub := h pulled (by decide) hacyclic _ _ 0 hx hy (List.sublist_cons_self _ _)
  exact absurd (hsub.map CapabilityContract.id) (by decide +kernel)

end Aaf
