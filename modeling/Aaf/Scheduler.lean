import Aaf.GraphValidation
import Aaf.Paths

/-!
# Levels of a graph

`parallel_levels` (`aaf-runtime`): nodes of one level have no edges between them and may
run in parallel. A node's level is one more than the greatest level of its predecessors,
which are all there because the order of a validated graph puts them first.

`parallelLevels_correct`: the levels partition the nodes, none is empty, the level of a
node is the length of the longest path to it, and no other levelling has fewer levels.
-/

namespace Aaf

/-! ## The code -/

/-- A node's level, from the levels of its predecessors. -/
def levelOf (edges : List Edge) (level : HashMap NodeId ℕ) (n : NodeId) : ℕ :=
  (((edges.filter fun e => decide (e.toNode = n)).map fun e =>
    (level.lookup e.fromNode).getD 0 + 1).max?).getD 0

/-- The levels of the nodes, in topological order. -/
def levelTable (edges : List Edge) (order : List NodeId) : HashMap NodeId ℕ :=
  order.foldl (fun level n => level.insert n (levelOf edges level n)) ∅

/-- `levels[l]` out of bounds. -/
inductive LevelFault : Type where
  | outOfBounds : LevelFault
  deriving DecidableEq, Repr

/-- `levels[l].push(n)`. -/
def pushLevel (levels : List (List NodeId)) (entry : NodeId × ℕ) :
    Except LevelFault (List (List NodeId)) :=
  if entry.2 < levels.length then .ok (levels.modify entry.2 (· ++ [entry.1]))
  else .error .outOfBounds

/-- The entries of a table, as the hash map enumerates them. -/
def levelEntries (hash : HashOrder) (level : HashMap NodeId ℕ) : List (NodeId × ℕ) :=
  (hash.order level.keys).map fun n => (n, (level.lookup n).getD 0)

/-- `parallel_levels`. -/
def parallelLevels (hash : HashOrder) (g : Graph) : Except LevelFault (List (List NodeId)) :=
  let entries := levelEntries hash (levelTable g.edges g.order)
  let maxLevel := ((entries.map Prod.snd).max?).getD 0
  (entries.foldlM pushLevel (List.replicate (maxLevel + 1) [])).map (List.map sortById)

/-! ## The table -/

variable {edges : List Edge}

/-- The level a table gives a node. -/
def rankIn (level : HashMap NodeId ℕ) (n : NodeId) : ℕ := (level.lookup n).getD 0

/-- Only the predecessors of a node matter for its level. -/
theorem levelOf_congr {level level' : HashMap NodeId ℕ} {n : NodeId}
    (h : ∀ y, HasEdge edges y n → level.lookup y = level'.lookup y) :
    levelOf edges level n = levelOf edges level' n := by
  have hmap : ((edges.filter fun e => decide (e.toNode = n)).map fun e =>
        (level.lookup e.fromNode).getD 0 + 1) =
      (edges.filter fun e => decide (e.toNode = n)).map fun e =>
        (level'.lookup e.fromNode).getD 0 + 1 := by
    refine List.map_congr_left fun e he => ?_
    obtain ⟨he, hto⟩ := List.mem_filter.mp he
    have hedge : HasEdge edges e.fromNode n := of_decide_eq_true hto ▸ he
    rw [h _ hedge]
  rw [levelOf, levelOf, hmap]

/-- A node's level is above those of its predecessors. -/
theorem lt_levelOf {level : HashMap NodeId ℕ} {y n : NodeId} (h : HasEdge edges y n) :
    rankIn level y < levelOf edges level n := by
  refine List.le_max?_getD_of_mem (List.mem_map.mpr ⟨⟨y, n⟩, ?_, rfl⟩)
  exact List.mem_filter.mpr ⟨h, decide_eq_true rfl⟩

/-- It is no higher than it has to be. -/
theorem levelOf_ne_zero {level : HashMap NodeId ℕ} {n : NodeId}
    (h : levelOf edges level n ≠ 0) :
    ∃ y, HasEdge edges y n ∧ rankIn level y + 1 = levelOf edges level n := by
  rcases hmax : ((edges.filter fun e => decide (e.toNode = n)).map fun e =>
    (level.lookup e.fromNode).getD 0 + 1).max? with _ | l
  · exact absurd (by rw [levelOf, hmax]; rfl) h
  · obtain ⟨e, he, hl⟩ := List.mem_map.mp (List.max?_mem hmax)
    obtain ⟨he, hto⟩ := List.mem_filter.mp he
    refine ⟨e.fromNode, of_decide_eq_true hto ▸ he, ?_⟩
    rw [levelOf, hmax]
    exact hl

/-- In an order that respects the edges, every node finds the levels of its predecessors. -/
theorem lookup_levelTable (order : List NodeId) (hnodup : order.Nodup)
    (hrespects : Topo.Respects (HasEdge edges) order) (x : NodeId) :
    (levelTable edges order).lookup x =
      if x ∈ order then some (levelOf edges (levelTable edges order) x) else none := by
  induction order using List.reverseRecOn generalizing x with
  | nil => rfl
  | append_singleton order n ih =>
    have hn : n ∉ order := fun hmem =>
      (List.nodup_append.mp hnodup).2.2 n hmem n (List.mem_singleton.mpr rfl) rfl
    have hrespects' : Topo.Respects (HasEdge edges) order := fun pre x post hsplit =>
      hrespects pre x (post ++ [n]) (by rw [hsplit, List.append_assoc, List.cons_append])
    have htable : levelTable edges (order ++ [n]) =
        (levelTable edges order).insert n (levelOf edges (levelTable edges order) n) := by
      rw [levelTable, List.foldl_append]
      rfl
    -- the new entry is nobody's predecessor so far
    have hpred : ∀ x ∈ order ++ [n], ∀ y, HasEdge edges y x → y ≠ n := by
      rintro x hx y hedge rfl
      rcases List.mem_append.mp hx with hx | hx
      · obtain ⟨pre, post, hsplit⟩ := List.append_of_mem hx
        exact hn (hsplit ▸ List.mem_append_left _ (hrespects' pre x post hsplit y hedge))
      · rw [List.mem_singleton] at hx
        exact hn (hrespects order y [] rfl y (hx ▸ hedge))
    have hlevel : ∀ x ∈ order ++ [n], levelOf edges (levelTable edges (order ++ [n])) x =
        levelOf edges (levelTable edges order) x := by
      intro x hx
      refine levelOf_congr fun y hedge => ?_
      rw [htable, AList.lookup_insert_ne (hpred x hx y hedge)]
    have hold := ih (List.nodup_append.mp hnodup).1 hrespects' x
    by_cases hx : x ∈ order ++ [n]
    · rw [if_pos hx, hlevel x hx, htable]
      by_cases hxn : x = n
      · subst hxn
        rw [AList.lookup_insert]
      · have hmem : x ∈ order :=
          (List.mem_append.mp hx).resolve_right fun h => hxn (List.mem_singleton.mp h)
        rw [AList.lookup_insert_ne hxn, hold, if_pos hmem]
    · have hxn : x ≠ n := fun h => hx (List.mem_append_right _ (List.mem_singleton.mpr h))
      rw [if_neg hx, htable, AList.lookup_insert_ne hxn, hold,
        if_neg fun h => hx (List.mem_append_left _ h)]

/-! ## The levels -/

/-- Putting every entry at its level, in bounds. -/
theorem foldlM_pushLevel (bound : ℕ) (entries : List (NodeId × ℕ))
    (h : ∀ entry ∈ entries, entry.2 < bound) :
    entries.foldlM pushLevel (List.replicate bound []) = .ok ((List.range bound).map fun i =>
      (entries.filter fun entry => decide (entry.2 = i)).map Prod.fst) := by
  induction entries using List.reverseRecOn with
  | nil =>
    rw [List.foldlM_nil]
    refine congrArg Except.ok (List.ext_getElem (by simp) fun i hi _ => ?_)
    simp
  | append_singleton entries entry ih =>
    have hlt : entry.2 < bound := h entry (List.mem_append_right _ (List.mem_singleton.mpr rfl))
    rw [Loop.foldlM_concat_ok]
    refine ⟨_, ih fun e he => h e (List.mem_append_left _ he), ?_⟩
    rw [pushLevel, if_pos (by simpa using hlt)]
    refine congrArg Except.ok (List.ext_getElem (by simp) fun i hi _ => ?_)
    rw [List.getElem_modify, List.getElem_map, List.getElem_map, List.getElem_range,
      List.filter_append, List.map_append]
    by_cases hi : entry.2 = i
    · simp [hi]
    · simp [hi]

/-- The highest level of some nodes. -/
def topLevel (level : HashMap NodeId ℕ) (nodes : List NodeId) : ℕ :=
  ((nodes.map (rankIn level)).max?).getD 0

theorem le_topLevel {level : HashMap NodeId ℕ} {nodes : List NodeId} {n : NodeId}
    (h : n ∈ nodes) : rankIn level n ≤ topLevel level nodes :=
  List.le_max?_getD_of_mem (List.mem_map_of_mem h)

/-- One of the nodes has the highest level. -/
theorem exists_topLevel (level : HashMap NodeId ℕ) {nodes : List NodeId} (h : nodes ≠ []) :
    ∃ n ∈ nodes, rankIn level n = topLevel level nodes := by
  rw [topLevel]
  rcases hmax : (nodes.map (rankIn level)).max? with _ | l
  · exact absurd (List.map_eq_nil_iff.mp (List.max?_eq_none_iff.mp hmax)) h
  · exact List.mem_map.mp (List.max?_mem hmax)

theorem topLevel_perm {level : HashMap NodeId ℕ} {nodes nodes' : List NodeId}
    (h : nodes.Perm nodes') : topLevel level nodes = topLevel level nodes' := by
  rcases nodes with _ | ⟨n, nodes⟩
  · rw [List.nil_perm.mp h]
  · obtain ⟨x, hx, hlevel⟩ := exists_topLevel level (List.cons_ne_nil n nodes)
    have hne : nodes' ≠ [] := fun hnil =>
      List.cons_ne_nil n nodes (List.perm_nil.mp (hnil ▸ h))
    obtain ⟨y, hy, hlevel'⟩ := exists_topLevel level hne
    refine le_antisymm ?_ ?_
    · exact hlevel ▸ le_topLevel (h.mem_iff.mp hx)
    · exact hlevel' ▸ le_topLevel (h.mem_iff.mpr hy)

/-- Sorting by id forgets the order before. -/
theorem sortById_perm {l l' : List NodeId} (h : l.Perm l') : sortById l = sortById l' := by
  have hperm : (sortById l).Perm (sortById l') :=
    (List.perm_insertionSort _ l).trans (h.trans (List.perm_insertionSort _ l').symm)
  have hanti : ∀ a b : NodeId, a ∈ sortById l → b ∈ sortById l' → a.raw ≤ b.raw →
      b.raw ≤ a.raw → a = b := fun a b _ _ hab hba =>
    NodeId.raw_injective (le_antisymm hab hba)
  exact hperm.eq_of_pairwise hanti (sorted_sortById l) (sorted_sortById l')

/-- The nodes by level, each level sorted. -/
def levelsOf (level : HashMap NodeId ℕ) (nodes : List NodeId) : List (List NodeId) :=
  (List.range (topLevel level nodes + 1)).map fun i =>
    sortById (nodes.filter fun n => decide (rankIn level n = i))

theorem levelsOf_perm {level : HashMap NodeId ℕ} {nodes nodes' : List NodeId}
    (h : nodes.Perm nodes') : levelsOf level nodes = levelsOf level nodes' := by
  rw [levelsOf, levelsOf, topLevel_perm h]
  exact List.map_congr_left fun i _ => sortById_perm (h.filter _)

/-- The function returns the levels of the nodes in its table. -/
theorem parallelLevels_eq (hash : HashOrder) (g : Graph) :
    parallelLevels hash g = .ok (levelsOf (levelTable g.edges g.order)
      (levelTable g.edges g.order).keys) := by
  let level := levelTable g.edges g.order
  rw [levelsOf_perm (hash.perm level.keys).symm]
  have hvalues : (levelEntries hash level).map Prod.snd =
      (hash.order level.keys).map (rankIn level) := by
    rw [levelEntries, List.map_map]
    rfl
  have hpush := foldlM_pushLevel (topLevel level (hash.order level.keys) + 1)
    (levelEntries hash level) fun entry hentry => by
      obtain ⟨n, hn, rfl⟩ := List.mem_map.mp hentry
      exact Nat.lt_succ_of_le (le_topLevel hn)
  rw [parallelLevels, hvalues]
  change (List.foldlM pushLevel (List.replicate (topLevel level _ + 1) []) _).map _ = _
  rw [hpush]
  refine congrArg Except.ok ?_
  rw [List.map_map, levelsOf]
  refine List.map_congr_left fun i _ => congrArg sortById ?_
  dsimp only
  rw [levelEntries, List.filter_map, List.map_map]
  exact List.map_id _

/-! ## Validated graphs -/

/-- Every node stands in one level, and the edges go from lower to higher levels. -/
structure Levelling (g : Graph) (levels : List (List NodeId)) : Prop where
  partition : levels.flatten.Perm g.nodes.keys
  forward : ∀ e ∈ g.edges, ∀ (i j : ℕ) (l l' : List NodeId), levels[i]? = some l →
    levels[j]? = some l' → e.fromNode ∈ l → e.toNode ∈ l' → i < j

/-- A validated graph passed the reference checks. -/
theorem ValidGraph.wellFormed (g : ValidGraph) :
    WellFormed g.nodes g.edges g.compensators := by
  obtain ⟨hash, nodes, edges, compensators, h⟩ := g.validated
  have hwf := wellFormed_of_accepted h
  obtain ⟨st, -, -, -, heq⟩ := validate_of_wellFormed hash hwf
  rw [h] at heq
  split at heq
  · cases heq
  · rw [Except.ok.inj (Except.ok.inj heq)]
    exact hwf

namespace ValidGraph

variable {g : ValidGraph} {x y : NodeId}

/-- The table that is computed for a graph. -/
def levels (g : ValidGraph) : HashMap NodeId ℕ := levelTable g.edges g.order

theorem mem_order_of_hasEdge (h : HasEdge g.edges y x) : y ∈ g.order ∧ x ∈ g.order := by
  obtain ⟨hfrom, hto⟩ := g.wellFormed.endpoints _ h
  exact ⟨(g.orderSpec.mem_order y).mpr hfrom, (g.orderSpec.mem_order x).mpr hto⟩

theorem lookup_levels (x : NodeId) : g.levels.lookup x =
    if x ∈ g.order then some (levelOf g.edges g.levels x) else none :=
  lookup_levelTable g.order g.orderSpec.order_nodup g.orderSpec.respects x

theorem rankIn_levels (hx : x ∈ g.order) : rankIn g.levels x = levelOf g.edges g.levels x := by
  rw [rankIn, lookup_levels, if_pos hx]
  rfl

/-- An edge goes up. -/
theorem rankIn_lt (h : HasEdge g.edges y x) : rankIn g.levels y < rankIn g.levels x := by
  rw [rankIn_levels (mem_order_of_hasEdge h).2]
  exact lt_levelOf h

/-- A level that is not the lowest is one above a predecessor's. -/
theorem rankIn_ne_zero (h : rankIn g.levels x ≠ 0) :
    ∃ y, HasEdge g.edges y x ∧ rankIn g.levels y + 1 = rankIn g.levels x := by
  by_cases hx : x ∈ g.order
  · rw [rankIn_levels hx] at h ⊢
    exact levelOf_ne_zero h
  · rw [rankIn, lookup_levels, if_neg hx] at h
    exact absurd rfl h

/-- A node's level is the length of the longest path to it. -/
theorem heightIs (g : ValidGraph) (x : NodeId) :
    Topo.HeightIs (HasEdge g.edges) x (rankIn g.levels x) := by
  have hlt : ∀ y x, HasEdge g.edges y x → rankIn g.levels y < rankIn g.levels x :=
    fun _ _ => rankIn_lt
  exact .of_rank hlt (fun _ => rankIn_ne_zero) x

theorem keys_levels_perm (g : ValidGraph) : g.levels.keys.Perm g.nodes.keys := by
  refine (List.perm_ext_iff_of_nodup (AList.keys_nodup _) (AList.keys_nodup _)).mpr fun x => ?_
  rw [← AList.mem_keys, ← AList.mem_keys, ← g.orderSpec.mem_order, ← AList.lookup_isSome,
    lookup_levels]
  by_cases hx : x ∈ g.order
  · simp [hx]
  · simp [hx]

/-- The levels of the graph's nodes. -/
def layers (g : ValidGraph) : List (List NodeId) := levelsOf g.levels g.nodes.keys

theorem parallelLevels_eq_layers (g : ValidGraph) (hash : HashOrder) :
    parallelLevels hash g.toGraph = .ok g.layers := by
  rw [parallelLevels_eq]
  exact congrArg Except.ok (levelsOf_perm g.keys_levels_perm)

/-- What stands in a level. -/
theorem mem_layer {i : ℕ} {l : List NodeId} (h : g.layers[i]? = some l) :
    x ∈ l ↔ x ∈ g.nodes ∧ rankIn g.levels x = i := by
  rw [layers, levelsOf, List.getElem?_map, Option.map_eq_some_iff] at h
  obtain ⟨j, hj, rfl⟩ := h
  obtain ⟨hlt, rfl⟩ := List.getElem?_eq_some_iff.mp hj
  rw [mem_sortById, List.mem_filter, AList.mem_keys, List.getElem_range, decide_eq_true_eq]

/-- No level is empty: the longest path to a node of the highest level meets them all. -/
theorem layer_ne_nil {l : List NodeId} (h : l ∈ g.layers) : l ≠ [] := by
  obtain ⟨i, hi⟩ := List.mem_iff_getElem?.mp h
  obtain ⟨x, hx, htop⟩ := exists_topLevel g.levels g.wellFormed.nonempty
  have hle : i ≤ rankIn g.levels x := by
    have hlt := (List.getElem?_eq_some_iff.mp hi).1
    rw [layers, levelsOf, List.length_map, List.length_range] at hlt
    omega
  obtain ⟨y, hpath, hy⟩ := Topo.exists_rank_eq (fun _ => rankIn_ne_zero) hle
  refine List.ne_nil_of_mem ((mem_layer hi).mpr ⟨?_, hy⟩)
  rcases Relation.ReflTransGen.cases_head hpath with rfl | ⟨z, hedge, -⟩
  · exact AList.mem_keys.mpr hx
  · exact (g.wellFormed.endpoints _ hedge).1

/-- Every level is sorted by id, without repetitions. -/
theorem layer_sorted {l : List NodeId} (h : l ∈ g.layers) :
    l.Pairwise fun a b => a.raw < b.raw := by
  obtain ⟨i, -, rfl⟩ := List.mem_map.mp h
  have hnodup : (sortById (g.nodes.keys.filter fun n => decide (rankIn g.levels n = i))).Nodup :=
    nodup_sortById ((AList.keys_nodup _).filter _)
  refine ((sorted_sortById _).and hnodup).imp fun hab => ?_
  exact lt_of_le_of_ne hab.1 fun heq => hab.2 (NodeId.raw_injective heq)

theorem levelling_layers (g : ValidGraph) : Levelling g.toGraph g.layers := by
  refine ⟨?_, fun e he i j l l' hi hj hfrom hto => ?_⟩
  · refine (List.perm_ext_iff_of_nodup ?_ (AList.keys_nodup _)).mpr fun x => ?_
    · refine List.nodup_flatten.mpr ⟨fun l hl => (layer_sorted hl).imp fun hab heq => ?_, ?_⟩
      · exact absurd (heq ▸ hab) (lt_irrefl _)
      · refine List.pairwise_iff_getElem.mpr fun i j hi hj hij x hxi hxj => ?_
        have hlow := (mem_layer (List.getElem?_eq_getElem hi)).mp hxi
        have hhigh := (mem_layer (List.getElem?_eq_getElem hj)).mp hxj
        omega
    · rw [List.mem_flatten, ← AList.mem_keys]
      refine ⟨?_, fun hx => ?_⟩
      · rintro ⟨l, hl, hxl⟩
        obtain ⟨i, hi⟩ := List.mem_iff_getElem?.mp hl
        exact ((mem_layer hi).mp hxl).1
      · have hlt : rankIn g.levels x < g.layers.length := by
          rw [layers, levelsOf, List.length_map, List.length_range]
          exact Nat.lt_succ_of_le (le_topLevel (AList.mem_keys.mp hx))
        exact ⟨_, List.getElem_mem hlt,
          (mem_layer (List.getElem?_eq_getElem hlt)).mpr ⟨hx, rfl⟩⟩
  · rw [← ((mem_layer hi).mp hfrom).2, ← ((mem_layer hj).mp hto).2]
    exact rankIn_lt he

end ValidGraph

/-- In a levelling, a path of some length needs more levels than that. -/
theorem Levelling.lt_length {g : ValidGraph} {levels : List (List NodeId)}
    (h : Levelling g.toGraph levels) {n : ℕ} {s x : NodeId} (hx : x ∈ g.nodes)
    (hwalk : Topo.Walk (HasEdge g.edges) n s x) : n < levels.length := by
  -- the level a node stands in grows along the edges
  have hindex : ∀ y ∈ g.nodes, ∃ l, levels[levels.findIdx (y ∈ ·)]? = some l ∧ y ∈ l := by
    intro y hy
    obtain ⟨l, hl, hyl⟩ := List.mem_flatten.mp (h.partition.mem_iff.mpr (AList.mem_keys.mp hy))
    have hlt : levels.findIdx (y ∈ ·) < levels.length :=
      List.findIdx_lt_length.mpr ⟨l, hl, decide_eq_true hyl⟩
    exact ⟨_, List.getElem?_eq_getElem hlt, of_decide_eq_true (List.findIdx_getElem (w := hlt))⟩
  have hrank : ∀ y z, HasEdge g.edges y z →
      levels.findIdx (y ∈ ·) < levels.findIdx (z ∈ ·) := by
    intro y z hedge
    obtain ⟨hy, hz⟩ := g.wellFormed.endpoints _ hedge
    obtain ⟨l, hl, hyl⟩ := hindex y hy
    obtain ⟨l', hl', hzl⟩ := hindex z hz
    exact h.forward _ hedge _ _ l l' hl hl' hyl hzl
  have hle := hwalk.add_le_rank hrank
  obtain ⟨l, hl, -⟩ := hindex x hx
  have := (List.getElem?_eq_some_iff.mp hl).1
  omega

/-- **Levels.** Whatever the hash maps do, a validated graph is cut into the same levels:
none is empty, each is sorted by id, every node stands in exactly one, at the length of the
longest path from a source to it, edges go up, and there are no levellings with fewer
levels. -/
theorem parallelLevels_correct (g : ValidGraph) :
    ∃ levels, (∀ hash, parallelLevels hash g.toGraph = .ok levels) ∧
      (∀ l ∈ levels, l ≠ []) ∧ (∀ l ∈ levels, l.Pairwise fun a b => a.raw < b.raw) ∧
      Levelling g.toGraph levels ∧
      (∀ i l, levels[i]? = some l → ∀ x ∈ l, Topo.HeightIs (HasEdge g.edges) x i) ∧
      ∀ levels', Levelling g.toGraph levels' → levels.length ≤ levels'.length := by
  refine ⟨g.layers, g.parallelLevels_eq_layers, fun _ => ValidGraph.layer_ne_nil,
    fun _ => ValidGraph.layer_sorted, g.levelling_layers, fun i l hi x hx => ?_, ?_⟩
  · rw [← ((ValidGraph.mem_layer hi).mp hx).2]
    exact g.heightIs x
  · intro levels' hlevels'
    obtain ⟨x, hx, htop⟩ := exists_topLevel g.levels g.wellFormed.nonempty
    obtain ⟨s, -, hwalk⟩ := (g.heightIs x).reached
    have hlt := hlevels'.lt_length (AList.mem_keys.mpr hx) hwalk
    rw [ValidGraph.layers, levelsOf, List.length_map, List.length_range]
    omega

end Aaf
