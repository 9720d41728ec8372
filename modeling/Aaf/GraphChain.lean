import Aaf.GraphValidation

/-!
# Building a graph, and chains

`GraphBuilder` (`aaf-runtime`), and the graph that comes of adding nodes one by one, each with an
edge from the one before. When the ids are distinct such a chain is always accepted, and since
every edge goes forward there is only one order: the one in which the nodes were added
(`chain_build`).
-/

namespace Topo

universe u

variable {α : Type u} [DecidableEq α]

/-- The positions in a duplicate-free list grow along it. -/
theorem pairwise_idxOf {l : List α} (h : l.Nodup) :
    l.Pairwise fun a b => l.idxOf a < l.idxOf b := by
  rw [List.pairwise_iff_getElem]
  intro i j hi hj hij
  rw [h.idxOf_getElem i hi, h.idxOf_getElem j hj]
  exact hij

/-- **A chain has one order.** A list with the same elements, in which each one stands behind
the one before it, is the list itself. -/
theorem eq_of_isChain {order l : List α} (hperm : order.Perm l) (hnodup : l.Nodup)
    (h : l.IsChain fun a b => order.idxOf a < order.idxOf b) : order = l := by
  have : Trans (fun a b : α => order.idxOf a < order.idxOf b)
      (fun a b => order.idxOf a < order.idxOf b) (fun a b => order.idxOf a < order.idxOf b) :=
    ⟨fun hab hbc => lt_trans hab hbc⟩
  have horder := pairwise_idxOf (hperm.nodup_iff.mpr hnodup)
  exact List.Perm.eq_of_pairwise (fun a b _ _ hab hba => absurd hab (lt_asymm hba)) horder
    (List.isChain_iff_pairwise.mp h) hperm

end Topo

namespace Aaf

/-! ## The builder -/

/-- `GraphBuilder`. -/
structure GraphBuilder where
  nodes : HashMap NodeId Node
  edges : List Edge
  compensators : HashMap NodeId Node

namespace GraphBuilder

/-- `GraphBuilder::new`. -/
def new : GraphBuilder := ⟨∅, [], ∅⟩

/-- `add_node`: a node replaces the one with its id. -/
def addNode (b : GraphBuilder) (node : Node) : GraphBuilder :=
  { b with nodes := b.nodes.insert node.id node }

/-- `add_edge`. -/
def addEdge (b : GraphBuilder) (fromNode toNode : NodeId) : GraphBuilder :=
  { b with edges := b.edges ++ [⟨fromNode, toNode⟩] }

/-- `add_compensator`. -/
def addCompensator (b : GraphBuilder) (forStep : NodeId) (compensator : Node) : GraphBuilder :=
  { b with compensators := b.compensators.insert forStep compensator }

/-- `build`. -/
def build (b : GraphBuilder) (hash : HashOrder) :
    Except KahnFault (Except GraphValidationError Graph) :=
  Graph.validateWithCompensators hash b.nodes b.edges b.compensators

/-- One more node, behind the previous one. -/
def link (st : GraphBuilder × Option NodeId) (node : Node) : GraphBuilder × Option NodeId :=
  let b := st.1.addNode node
  match st.2 with
  | some p => (b.addEdge p node.id, some node.id)
  | none => (b, some node.id)

/-- The nodes, each behind the one before it. -/
def chain (nodes : List Node) : GraphBuilder := (nodes.foldl link (new, none)).1

end GraphBuilder

/-! ## Chains -/

/-- The edges of a chain. -/
def chainEdges : List NodeId → List Edge
  | a :: b :: ids => ⟨a, b⟩ :: chainEdges (b :: ids)
  | _ => []

/-- What holds along a chain holds of its edges. -/
theorem forall_chainEdges_iff {R : NodeId → NodeId → Prop} {ids : List NodeId} :
    (∀ e ∈ chainEdges ids, R e.fromNode e.toNode) ↔ ids.IsChain R := by
  induction ids using chainEdges.induct with
  | case1 a b ids ih =>
    rw [chainEdges, List.forall_mem_cons, ih, List.isChain_cons_cons]
  | case2 ids h =>
    rcases ids with _ | ⟨a, _ | ⟨b, ids⟩⟩
    · simp [chainEdges]
    · simp [chainEdges]
    · exact absurd rfl (h a b ids)

/-- The ends of the edges are in the chain. -/
theorem mem_of_mem_chainEdges {e : Edge} {ids : List NodeId} (h : e ∈ chainEdges ids) :
    e.fromNode ∈ ids ∧ e.toNode ∈ ids := by
  induction ids using chainEdges.induct with
  | case1 a b ids ih =>
    rw [chainEdges, List.mem_cons] at h
    rcases h with rfl | h
    · simp
    · exact ⟨List.mem_cons_of_mem _ (ih h).1, List.mem_cons_of_mem _ (ih h).2⟩
  | case2 ids h' =>
    rcases ids with _ | ⟨a, _ | ⟨b, ids⟩⟩
    · cases h
    · cases h
    · exact absurd rfl (h' a b ids)

/-- One more node at the end of a chain. -/
theorem chainEdges_concat (ids : List NodeId) (last id : NodeId) :
    chainEdges (ids ++ [last] ++ [id]) = chainEdges (ids ++ [last]) ++ [⟨last, id⟩] := by
  induction ids with
  | nil => rfl
  | cons a ids ih =>
    rcases ids with _ | ⟨b, ids⟩
    · rfl
    · exact congrArg (⟨a, b⟩ :: ·) ih

namespace GraphBuilder

/-- What the loop has built. -/
structure Chained (nodes : List Node) (st : GraphBuilder × Option NodeId) : Prop where
  last : st.2 = (nodes.map Node.id).getLast?
  edges : st.1.edges = chainEdges (nodes.map Node.id)
  mem : ∀ id, id ∈ st.1.nodes ↔ id ∈ nodes.map Node.id
  compensators : st.1.compensators = ∅
  lookup : (nodes.map Node.id).Nodup → ∀ node ∈ nodes, st.1.nodes.lookup node.id = some node

theorem chained_foldl (nodes : List Node) : Chained nodes (nodes.foldl link (new, none)) := by
  induction nodes using List.reverseRecOn with
  | nil => exact ⟨rfl, rfl, fun id => by simp [new], rfl, fun _ node h => by cases h⟩
  | append_singleton nodes node ih =>
    rw [List.foldl_append, List.foldl_cons, List.foldl_nil]
    generalize nodes.foldl link (new, none) = st at ih
    obtain ⟨b, prev⟩ := st
    have hlast : (link (b, prev) node).2 = ((nodes ++ [node]).map Node.id).getLast? := by
      rw [List.map_append, List.map_singleton, List.getLast?_concat, link]
      cases prev <;> rfl
    have hnodes : (link (b, prev) node).1.nodes = b.nodes.insert node.id node := by
      rw [link]
      cases prev <;> rfl
    have hcompensators : (link (b, prev) node).1.compensators = b.compensators := by
      rw [link]
      cases prev <;> rfl
    refine ⟨hlast, ?_, fun id => ?_, hcompensators.trans ih.compensators, fun hnodup n hn => ?_⟩
    · have hprev := ih.last
      have hedges := ih.edges
      rw [List.map_append, List.map_singleton]
      rcases List.eq_nil_or_concat (nodes.map Node.id) with hnil | ⟨ids, last, hids⟩
      · rw [hnil] at hprev hedges ⊢
        obtain rfl : prev = none := hprev
        exact hedges
      · rw [List.concat_eq_append] at hids
        rw [hids] at hprev hedges ⊢
        rw [List.getLast?_concat] at hprev
        obtain rfl : prev = some last := hprev
        rw [chainEdges_concat, ← hedges]
        rfl
    · rw [hnodes, AList.mem_insert, ih.mem, List.map_append, List.mem_append, List.map_singleton,
        List.mem_singleton]
      exact or_comm
    · rw [List.map_append, List.map_singleton, List.nodup_append] at hnodup
      rw [hnodes]
      rcases List.mem_append.mp hn with hn | hn
      · have hne : n.id ≠ node.id :=
          hnodup.2.2 n.id (List.mem_map_of_mem hn) node.id (List.mem_singleton_self _)
        rw [AList.lookup_insert_ne hne]
        exact ih.lookup hnodup.1 n hn
      · rw [List.mem_singleton.mp hn, AList.lookup_insert]

/-- **Chains are accepted as they are.** The graph of nodes with distinct ids, at least one, is
valid; it has these nodes, no compensators, and runs them in the order in which they were added. -/
theorem chain_build (hash : HashOrder) {nodes : List Node} (hne : nodes ≠ [])
    (hnodup : (nodes.map Node.id).Nodup) :
    ∃ g, (chain nodes).build hash = .ok (.ok g) ∧ g.order = nodes.map Node.id ∧
      g.compensators = ∅ ∧ ∀ node ∈ nodes, g.nodes.lookup node.id = some node := by
  have hchain := chained_foldl nodes
  have hmem : ∀ id, id ∈ (chain nodes).nodes ↔ id ∈ nodes.map Node.id := hchain.mem
  have hedges : (chain nodes).edges = chainEdges (nodes.map Node.id) := hchain.edges
  have hcompensators : (chain nodes).compensators = ∅ := hchain.compensators
  -- positions along the chain leave no room for a cycle
  have hrank : (nodes.map Node.id).IsChain fun a b =>
      (nodes.map Node.id).idxOf a < (nodes.map Node.id).idxOf b :=
    (Topo.pairwise_idxOf hnodup).isChain
  have hacyclic : Topo.Acyclic (HasEdge (chain nodes).edges) := by
    refine Topo.acyclic_of_rank (nodes.map Node.id).idxOf fun a b hab => ?_
    rw [HasEdge, hedges] at hab
    exact forall_chainEdges_iff.mpr hrank _ hab
  obtain ⟨r, hr, haccept, hspec⟩ := validateWithCompensators_correct hash (chain nodes).nodes
    (chain nodes).edges (chain nodes).compensators
  have hends : ∀ e ∈ (chain nodes).edges,
      e.fromNode ∈ (chain nodes).nodes ∧ e.toNode ∈ (chain nodes).nodes := by
    intro e he
    rw [hedges] at he
    obtain ⟨hfrom, hto⟩ := mem_of_mem_chainEdges he
    exact ⟨(hmem _).mpr hfrom, (hmem _).mpr hto⟩
  have hkeys : (chain nodes).nodes.keys ≠ [] := by
    obtain ⟨node, hnode⟩ := List.exists_mem_of_ne_nil nodes hne
    have hin := (hmem node.id).mpr (List.mem_map_of_mem hnode)
    exact List.ne_nil_of_mem (AList.mem_keys.mp hin)
  have hnone : ∀ k, k ∈ (chain nodes).compensators → k ∈ (chain nodes).nodes := by
    rw [hcompensators]
    exact fun k hk => absurd hk (AList.notMem_empty k)
  obtain ⟨g, rfl⟩ := haccept.mpr ⟨hkeys, hends, hnone, hacyclic⟩
  obtain ⟨hgnodes, -, hgcomp, hcount, hforward⟩ := hspec g rfl
  refine ⟨g, hr, ?_, hgcomp.trans hcompensators, ?_⟩
  · have hperm : g.order.Perm (nodes.map Node.id) := by
      rw [List.perm_iff_count]
      intro id
      rw [hcount id, hnodup.count]
      simp only [hmem]
    refine Topo.eq_of_isChain hperm hnodup (forall_chainEdges_iff.mp fun e he => ?_)
    rw [← hedges] at he
    exact hforward e he
  · rw [hgnodes]
    exact hchain.lookup hnodup

end GraphBuilder

end Aaf
