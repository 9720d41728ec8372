import Aaf.GraphOrder

/-!
# Kahn's algorithm, in full

`Aaf.GraphOrder` proves the loop's invariants. Here they are read at its end. When
the queue runs dry every unplaced node waits for an unplaced predecessor, so
nodes are left over exactly when the graph has a cycle: validation accepts the
acyclic graphs that pass the reference checks, and no others. And since the queue
is the sorted set of ready nodes at every pop, the order is the greedy one, which
depends on neither the order of the edges nor the hash maps.
-/

namespace Aaf

variable {edges : List Edge} {nodes compensators : HashMap NodeId Node}

/-! ## Acceptance -/

/-- When a loop has ended, a node it left over waits for another one. -/
theorem KahnInv.exists_unplaced {nodes : List NodeId} {st : KahnState}
    (h : KahnInv edges nodes st) (hqueue : st.queue = [])
    (hfrom : ∀ e ∈ edges, e.fromNode ∈ nodes) {x : NodeId} (hx : x ∈ nodes)
    (hout : x ∉ st.order) : ∃ y, (y ∈ nodes ∧ y ∉ st.order) ∧ HasEdge edges y x := by
  by_contra hnone
  -- a node that does not wait for anything would be in the queue
  have hready : Topo.Ready (HasEdge edges) (· ∈ nodes) st.order x := by
    refine ⟨hx, hout, fun y hyx => ?_⟩
    by_contra hy
    exact hnone ⟨y, ⟨hfrom _ hyx, hy⟩, hyx⟩
  have hmem := h.mem_queue_iff.mpr hready
  rw [hqueue] at hmem
  cases hmem

/-- A loop that ended on an acyclic graph has placed every node. -/
theorem KahnInv.placed_all {nodes : List NodeId} {st : KahnState} (h : KahnInv edges nodes st)
    (hqueue : st.queue = []) (hfrom : ∀ e ∈ edges, e.fromNode ∈ nodes)
    (hacyclic : Topo.Acyclic (HasEdge edges)) : ∀ x ∈ nodes, x ∈ st.order := by
  by_contra hleft
  push Not at hleft
  obtain ⟨x₀, hx₀, hx₀'⟩ := hleft
  have hfin : {x | x ∈ nodes ∧ x ∉ st.order}.Finite :=
    nodes.finite_toSet.subset fun x hx => hx.1
  -- a source among the unplaced nodes would not wait for anything
  obtain ⟨x, ⟨hx, hx'⟩, hsource⟩ := hacyclic.exists_source hfin ⟨x₀, hx₀, hx₀'⟩
  obtain ⟨y, hy, hyx⟩ := h.exists_unplaced hqueue hfrom hx hx'
  exact hsource y hy hyx

/-- Where everything is placed, nothing is placed twice. -/
theorem KahnInv.length_eq_of_placed {nodes : List NodeId} {st : KahnState}
    (h : KahnInv edges nodes st) (hnodup : nodes.Nodup) (hall : ∀ x ∈ nodes, x ∈ st.order) :
    st.visited.length = nodes.length := by
  have hle := (hnodup.subperm hall).length_le
  rw [h.visited_length]
  exact le_antisymm h.length_le hle

theorem OrderSpec.respects {g : Graph} (h : OrderSpec g) :
    Topo.Respects (HasEdge g.edges) g.order := fun pre x post hsplit =>
  fromNode_mem_iff.mpr (h.predecessor_mem pre x post hsplit)

/-- An accepted order leaves no room for a cycle. -/
theorem OrderSpec.acyclic {g : Graph} (h : OrderSpec g)
    (hend : ∀ e ∈ g.edges, e.toNode ∈ g.nodes) : Topo.Acyclic (HasEdge g.edges) :=
  h.respects.acyclic h.order_nodup fun _ x hyx => (h.mem_order x).mpr (hend _ hyx)

/-- In an accepted order every edge goes forward. -/
theorem OrderSpec.idxOf_lt {g : Graph} (h : OrderSpec g) {e : Edge} (he : e ∈ g.edges)
    (hfrom : e.fromNode ∈ g.nodes) : g.order.idxOf e.fromNode < g.order.idxOf e.toNode :=
  h.respects.idxOf_lt he ((h.mem_order _).mpr hfrom)

/-- What validation returns on a graph that passes the reference checks. -/
theorem validate_accepts_iff (hash : HashOrder) (h : WellFormed nodes edges compensators) :
    (∃ g, Graph.validateWithCompensators hash nodes edges compensators = .ok (.ok g)) ↔
      Topo.Acyclic (HasEdge edges) := by
  obtain ⟨st, hinv, -, hqueue, heq⟩ := validate_of_wellFormed hash h
  rw [heq]
  have hfrom : ∀ e ∈ edges, e.fromNode ∈ nodes.keys := fun e he => (h.endpoints e he).1
  have hto : ∀ e ∈ edges, e.toNode ∈ nodes.keys := fun e he => (h.endpoints e he).2
  by_cases hlen : st.visited.length = nodes.keys.length
  · rw [if_neg (not_not.mpr hlen)]
    refine ⟨fun _ => ?_, fun _ => ⟨_, rfl⟩⟩
    have hspec : OrderSpec ⟨nodes, edges, st.order, compensators⟩ :=
      ⟨hinv.order_nodup, hinv.mem_order_iff hlen, hinv.closed, h.compensators_known⟩
    exact hspec.acyclic hto
  · rw [if_pos hlen]
    refine ⟨?_, fun hacyclic => absurd ?_ hlen⟩
    · rintro ⟨g, hg⟩
      cases hg
    · exact hinv.length_eq_of_placed (AList.keys_nodup nodes) fun x hx =>
        hinv.placed_all hqueue hfrom hacyclic x hx

/-- **Kahn's algorithm is correct.** Validation never faults; it accepts exactly
the non-empty acyclic graphs over known nodes; and an accepted graph keeps its
nodes, edges and compensators and gets an order in which each node stands once and
every edge goes forward. -/
theorem validateWithCompensators_correct (hash : HashOrder) (nodes : HashMap NodeId Node)
    (edges : List Edge) (compensators : HashMap NodeId Node) :
    ∃ r, Graph.validateWithCompensators hash nodes edges compensators = .ok r ∧
      ((∃ g, r = .ok g) ↔
        nodes.keys ≠ [] ∧ (∀ e ∈ edges, e.fromNode ∈ nodes ∧ e.toNode ∈ nodes) ∧
          (∀ k, k ∈ compensators → k ∈ nodes) ∧ Topo.Acyclic (HasEdge edges)) ∧
      ∀ g, r = .ok g →
        g.nodes = nodes ∧ g.edges = edges ∧ g.compensators = compensators ∧
          (∀ x, g.order.count x = if x ∈ nodes then 1 else 0) ∧
          ∀ e ∈ edges, g.order.idxOf e.fromNode < g.order.idxOf e.toNode := by
  by_cases hwf : WellFormed nodes edges compensators
  · obtain ⟨r, hr, hspec⟩ := validateWithCompensators_spec hash nodes edges compensators
    have haccept := validate_accepts_iff hash hwf
    obtain ⟨st, -, -, -, heq⟩ := validate_of_wellFormed hash hwf
    rw [hr] at haccept heq
    refine ⟨r, hr, ?_, fun g hg => ?_⟩
    · refine ⟨?_, ?_⟩
      · rintro ⟨g, rfl⟩
        exact ⟨hwf.nonempty, hwf.endpoints, hwf.compensators_known, haccept.mp ⟨g, rfl⟩⟩
      · rintro ⟨-, -, -, hacyclic⟩
        obtain ⟨g, hg⟩ := haccept.mpr hacyclic
        exact ⟨g, Except.ok.inj hg⟩
    · have hg' := hspec g hg
      obtain ⟨hn, he, hc⟩ : g.nodes = nodes ∧ g.edges = edges ∧ g.compensators = compensators := by
        rw [hg] at heq
        split at heq
        · cases heq
        · cases heq
          exact ⟨rfl, rfl, rfl⟩
      refine ⟨hn, he, hc, fun x => ?_, fun e hedge => ?_⟩
      · simp only [hg'.order_nodup.count, hg'.mem_order, hn]
      · exact hg'.idxOf_lt (he ▸ hedge) (hn ▸ (hwf.endpoints e hedge).1)
  · obtain ⟨err, -, herr⟩ := validate_of_malformed hash hwf
    refine ⟨_, herr, ⟨?_, ?_⟩, fun g hg => by cases hg⟩
    · rintro ⟨g, hg⟩
      cases hg
    · rintro ⟨hne, hend, hcomp, -⟩
      exact absurd ⟨hne, hend, hcomp⟩ hwf

/-! ## Reproducibility -/

theorem NodeId.raw_injective : Function.Injective NodeId.raw := by
  rintro ⟨a⟩ ⟨b⟩ rfl
  rfl

/-- An accepted graph was placed greedily, whatever the hash maps did. -/
theorem validate_greedy {hash : HashOrder} {g : Graph}
    (h : Graph.validateWithCompensators hash nodes edges compensators = .ok (.ok g)) :
    Topo.Greedy (HasEdge edges) (· ∈ nodes) NodeId.raw g.order ∧
      g.order.length = nodes.keys.length := by
  obtain ⟨st, hinv, hgreedy, -, heq⟩ := validate_of_wellFormed hash (wellFormed_of_accepted h)
  rw [h] at heq
  split at heq
  · cases heq
  · rename_i hlen
    cases heq
    exact ⟨hgreedy.greedy, by rw [← hinv.visited_length, not_not.mp hlen]⟩

/-- Permuting the edges changes neither the reference checks nor the relation. -/
theorem WellFormed.perm {edges' : List Edge} (h : WellFormed nodes edges compensators)
    (hperm : edges.Perm edges') : WellFormed nodes edges' compensators :=
  ⟨h.nonempty, fun e he => h.endpoints e (hperm.mem_iff.mpr he), h.compensators_known⟩

theorem hasEdge_perm {edges' : List Edge} (hperm : edges.Perm edges') :
    HasEdge edges' = HasEdge edges := by
  funext a b
  exact propext hperm.mem_iff.symm

/-- **Execution order is reproducible.** A permutation of the edges and another
iteration order of the hash maps validate as well and give the same order: at each
position the node with the greatest id among those not yet placed whose
predecessors all are. -/
theorem validateWithCompensators_order_reproducible (hash hash' : HashOrder)
    (nodes : HashMap NodeId Node) (edges edges' : List Edge)
    (compensators : HashMap NodeId Node) (hperm : edges.Perm edges') (g : Graph)
    (h : Graph.validateWithCompensators hash nodes edges compensators = .ok (.ok g)) :
    (∃ g', Graph.validateWithCompensators hash' nodes edges' compensators = .ok (.ok g') ∧
      g'.order = g.order) ∧
    ∀ pre x post, g.order = pre ++ x :: post →
      Topo.Ready (HasEdge edges) (· ∈ nodes) pre x ∧
        ∀ y, Topo.Ready (HasEdge edges) (· ∈ nodes) pre y → y.raw ≤ x.raw := by
  have hwf := wellFormed_of_accepted h
  obtain ⟨hgreedy, hlen⟩ := validate_greedy h
  refine ⟨?_, hgreedy⟩
  -- the other run accepts too: the relation is the same
  have hacyclic : Topo.Acyclic (HasEdge edges') := by
    rw [hasEdge_perm hperm]
    exact (validate_accepts_iff hash hwf).mp ⟨g, h⟩
  obtain ⟨g', hg'⟩ := (validate_accepts_iff hash' (hwf.perm hperm)).mpr hacyclic
  obtain ⟨hgreedy', hlen'⟩ := validate_greedy hg'
  rw [hasEdge_perm hperm] at hgreedy'
  have heq : g'.order = g.order :=
    Topo.Greedy.eq_of_length_eq NodeId.raw_injective [] hgreedy' hgreedy (hlen'.trans hlen.symm)
  exact ⟨g', hg', heq⟩

/-- Two sources `a`, `b` and their common target `c`. -/
def joinNodes : HashMap NodeId Node :=
  [⟨⟨"a"⟩, .deterministic ⟨"a"⟩ .read 0 fun _ _ => .ok .null⟩,
    ⟨⟨"b"⟩, .deterministic ⟨"b"⟩ .read 0 fun _ _ => .ok .null⟩,
    ⟨⟨"c"⟩, .deterministic ⟨"c"⟩ .read 0 fun _ _ => .ok .null⟩].toAList

theorem joinNodes_order_reproducible :
    ∃ g', Graph.validateWithCompensators ⟨List.reverse, List.reverse_perm⟩ joinNodes
        [⟨⟨"b"⟩, ⟨"c"⟩⟩, ⟨⟨"a"⟩, ⟨"c"⟩⟩] ∅ = .ok (.ok g') ∧
      g'.order = [⟨"b"⟩, ⟨"a"⟩, ⟨"c"⟩] :=
  (validateWithCompensators_order_reproducible ⟨fun l => l, fun l => .refl l⟩
    ⟨List.reverse, List.reverse_perm⟩ joinNodes [⟨⟨"a"⟩, ⟨"c"⟩⟩, ⟨⟨"b"⟩, ⟨"c"⟩⟩]
    [⟨⟨"b"⟩, ⟨"c"⟩⟩, ⟨⟨"a"⟩, ⟨"c"⟩⟩] ∅ (.swap _ _ _)
    ⟨joinNodes, [⟨⟨"a"⟩, ⟨"c"⟩⟩, ⟨⟨"b"⟩, ⟨"c"⟩⟩], [⟨"b"⟩, ⟨"a"⟩, ⟨"c"⟩], ∅⟩ (by rfl)).1

end Aaf
