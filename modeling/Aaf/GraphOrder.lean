import Aaf.Graph
import Aaf.Topo

/-!
# The order a validated graph carries

Kahn's loop keeps one invariant (`KahnInv`): the in-degree table counts the
edges whose source is not placed yet, with their multiplicity; the queue is the
set of unplaced nodes with no such edge; and every placed node came after all
its predecessors. While a node's children are being relaxed the table is behind
by the children still to come, which is the second invariant (`RelaxInv`). The
queue is moreover sorted, so that every pop takes the greatest ready node
(`GreedyInv`).

A validated graph therefore has an order without duplicates, over known nodes,
in which every edge goes forward (`OrderSpec`, `ValidGraph.orderSpec`).
-/

namespace Aaf

variable {edges : List Edge} {nodes : List NodeId}

/-! ## The tables -/

/-- Edges into `x` whose source has not been placed. -/
def pending (edges : List Edge) (order : List NodeId) (x : NodeId) : ℕ :=
  (edges.filter fun e => decide (e.toNode = x ∧ e.fromNode ∉ order)).length

/-- The children of `n`, in edge order, with multiplicity. -/
def childrenOf (edges : List Edge) (n : NodeId) : List NodeId :=
  (edges.filter fun e => decide (e.fromNode = n)).map (·.toNode)

theorem pending_cons (e : Edge) (order : List NodeId) (x : NodeId) :
    pending (e :: edges) order x =
      (if e.toNode = x ∧ e.fromNode ∉ order then 1 else 0) + pending edges order x := by
  unfold pending
  rw [List.filter_cons]
  by_cases h : e.toNode = x ∧ e.fromNode ∉ order
  · rw [if_pos (decide_eq_true h), if_pos h, List.length_cons, Nat.add_comm]
  · rw [if_neg (by simpa using h), if_neg h, Nat.zero_add]

theorem childrenOf_cons (e : Edge) (n : NodeId) :
    childrenOf (e :: edges) n =
      (if e.fromNode = n then [e.toNode] else []) ++ childrenOf edges n := by
  unfold childrenOf
  rw [List.filter_cons]
  by_cases h : e.fromNode = n
  · rw [if_pos (decide_eq_true h), if_pos h]
    rfl
  · rw [if_neg (by simpa using h), if_neg h, List.nil_append]

theorem lookup_zeros (x : NodeId) (m : HashMap NodeId ℕ) (l : List NodeId) :
    (l.foldl (fun m k => m.insert k 0) m).lookup x = if x ∈ l then some 0 else m.lookup x := by
  induction l generalizing m with
  | nil => simp
  | cons k l ih =>
    rw [List.foldl_cons, ih]
    by_cases hl : x ∈ l
    · simp [hl]
    · by_cases hk : x = k
      · subst hk
        simp [hl]
      · simp [hl, hk, AList.lookup_insert_ne hk]

/-- The in-degree table counts the edges into each node. -/
theorem lookup_indegrees (hto : ∀ e ∈ edges, e.toNode ∈ nodes) (x : NodeId) :
    (indegrees nodes edges).lookup x = if x ∈ nodes then some (pending edges [] x) else none := by
  rw [indegrees]
  induction edges using List.reverseRecOn with
  | nil =>
    rw [List.foldl_nil, lookup_zeros]
    simp [pending]
  | append_singleton edges e ih =>
    have hto' : ∀ e' ∈ edges, e'.toNode ∈ nodes := fun e' he' => hto e' (by simp [he'])
    have hmem : e.toNode ∈ nodes := hto e (by simp)
    rw [List.foldl_append, List.foldl_cons, List.foldl_nil]
    by_cases hx : x = e.toNode
    · subst hx
      rw [AList.lookup_insert]
      have := ih hto'
      simp only [if_pos hmem] at this ⊢
      rw [this]
      simp [pending]
    · rw [AList.lookup_insert_ne hx, ih hto']
      have hne : e.toNode ≠ x := fun h => hx h.symm
      simp [pending, hne]

/-- The adjacency table lists each node's children. -/
theorem lookup_adjacency (n : NodeId) :
    ((adjacency edges).lookup n).getD [] = childrenOf edges n := by
  rw [adjacency]
  induction edges using List.reverseRecOn with
  | nil => rfl
  | append_singleton edges e ih =>
    rw [List.foldl_append, List.foldl_cons, List.foldl_nil]
    by_cases hn : n = e.fromNode
    · subst hn
      rw [AList.lookup_insert, ih]
      simp [childrenOf]
    · rw [AList.lookup_insert_ne hn, ih]
      have hne : e.fromNode ≠ n := fun h => hn h.symm
      simp [childrenOf, hne]

/-- Placing `n` discharges its edges: what was pending is what stays pending
plus the children of `n`. -/
theorem pending_place {order : List NodeId} {n : NodeId} (hn : n ∉ order) (x : NodeId) :
    pending edges order x = pending edges (order ++ [n]) x + (childrenOf edges n).count x := by
  induction edges with
  | nil => rfl
  | cons e edges ih =>
    rw [pending_cons, pending_cons, childrenOf_cons]
    by_cases hto : e.toNode = x
    · by_cases hfrom : e.fromNode = n
      · -- the edge moves from the pending ones to the children
        rw [if_pos ⟨hto, hfrom ▸ hn⟩, if_neg fun h => h.2 (by simp [hfrom]), if_pos hfrom,
          List.singleton_append, hto, List.count_cons_self]
        omega
      · by_cases ho : e.fromNode ∈ order
        · rw [if_neg fun h => h.2 ho, if_neg fun h => h.2 (List.mem_append_left _ ho),
            if_neg hfrom, List.nil_append]
          omega
        · rw [if_pos ⟨hto, ho⟩, if_pos ⟨hto, by simp [ho, hfrom]⟩, if_neg hfrom, List.nil_append]
          omega
    · rw [if_neg fun h => hto h.1, if_neg fun h => hto h.1, List.count_append]
      have hz : (if e.fromNode = n then [e.toNode] else []).count x = 0 := by
        split
        · simp [hto]
        · rfl
      omega

/-! ## The loop invariant -/

/-- The invariant between two pops. -/
structure KahnInv (edges : List Edge) (nodes : List NodeId) (st : KahnState) : Prop where
  order_nodup : st.order.Nodup
  order_mem : ∀ x ∈ st.order, x ∈ nodes
  queue_nodup : st.queue.Nodup
  queue_iff : ∀ x, x ∈ st.queue ↔ x ∈ nodes ∧ x ∉ st.order ∧ pending edges st.order x = 0
  indeg : ∀ x, st.indeg.lookup x =
    if x ∈ nodes then some (pending edges st.order x) else none
  /-- every placed node came after its predecessors -/
  closed : ∀ pre x post, st.order = pre ++ x :: post → ∀ e ∈ edges, e.toNode = x → e.fromNode ∈ pre
  visited_nodup : st.visited.Nodup
  visited_iff : ∀ x, x ∈ st.visited ↔ x ∈ st.order

/-- The invariant while the children of the last placed node are relaxed;
`rest` are the children still to come. -/
structure RelaxInv (edges : List Edge) (nodes : List NodeId) (order visited : List NodeId)
    (rest : List NodeId) (st : KahnState) : Prop where
  order_eq : st.order = order
  visited_eq : st.visited = visited
  queue_nodup : st.queue.Nodup
  queue_iff : ∀ x, x ∈ st.queue ↔
    x ∈ nodes ∧ x ∉ order ∧ pending edges order x + rest.count x = 0
  indeg : ∀ x, st.indeg.lookup x =
    if x ∈ nodes then some (pending edges order x + rest.count x) else none

theorem mem_sortById {x : NodeId} {l : List NodeId} : x ∈ sortById l ↔ x ∈ l :=
  (List.perm_insertionSort _ l).mem_iff

theorem nodup_sortById {l : List NodeId} (h : l.Nodup) : (sortById l).Nodup :=
  (List.perm_insertionSort _ l).nodup_iff.mpr h

/-- Relaxing one child succeeds and moves the invariant on. -/
theorem RelaxInv.step {order visited rest : List NodeId} {st : KahnState} {child : NodeId}
    (h : RelaxInv edges nodes order visited (child :: rest) st)
    (hmem : child ∈ nodes) (hplaced : child ∉ order) :
    ∃ st', relax st child = .ok st' ∧ RelaxInv edges nodes order visited rest st' := by
  have hd : st.indeg.lookup child = some (pending edges order child + rest.count child + 1) := by
    rw [h.indeg child, if_pos hmem, List.count_cons_self]
    rfl
  have hcount : ∀ x, x ≠ child → (child :: rest).count x = rest.count x :=
    fun x hx => List.count_cons_of_ne (Ne.symm hx)
  have hindeg : ∀ x, (st.indeg.insert child (pending edges order child + rest.count child)).lookup x
      = if x ∈ nodes then some (pending edges order x + rest.count x) else none := by
    intro x
    by_cases hx : x = child
    · subst hx
      rw [AList.lookup_insert, if_pos hmem]
    · rw [AList.lookup_insert_ne hx, h.indeg x, hcount x hx]
  have hnot : child ∉ st.queue := by
    rw [h.queue_iff, List.count_cons_self]
    omega
  rw [relax]
  rw [hd]
  by_cases hz : pending edges order child + rest.count child = 0
  · -- the last edge into `child` is discharged: it joins the queue
    refine ⟨_, if_pos hz, h.order_eq, h.visited_eq, ?_, fun x => ?_, hindeg⟩
    · exact nodup_sortById (List.nodup_append.mpr
        ⟨h.queue_nodup, List.nodup_singleton child, by
          rintro a ha b hb rfl
          rw [List.mem_singleton] at hb
          exact hnot (hb ▸ ha)⟩)
    · rw [mem_sortById, List.mem_append, List.mem_singleton]
      by_cases hx : x = child
      · subst hx
        simp [hmem, hplaced, hz]
      · rw [h.queue_iff, hcount x hx]
        simp [hx]
  · refine ⟨_, if_neg hz, h.order_eq, h.visited_eq, h.queue_nodup, fun x => ?_, hindeg⟩
    by_cases hx : x = child
    · subst hx
      exact ⟨fun hq => absurd hq hnot, fun hq => absurd hq.2.2 hz⟩
    · rw [h.queue_iff, hcount x hx]

/-- Relaxing all children succeeds. -/
theorem RelaxInv.all {order visited : List NodeId} :
    ∀ {rest : List NodeId} {st : KahnState}, RelaxInv edges nodes order visited rest st →
      (∀ c ∈ rest, c ∈ nodes ∧ c ∉ order) →
      ∃ st', rest.foldlM relax st = .ok st' ∧ RelaxInv edges nodes order visited [] st' := by
  intro rest
  induction rest with
  | nil => exact fun h _ => ⟨_, rfl, h⟩
  | cons child rest ih =>
    intro st h hrest
    obtain ⟨hmem, hplaced⟩ := hrest child (List.mem_cons_self ..)
    obtain ⟨st₁, h₁, hinv₁⟩ := h.step hmem hplaced
    obtain ⟨st₂, h₂, hinv₂⟩ := ih hinv₁ fun c hc => hrest c (List.mem_cons_of_mem _ hc)
    refine ⟨st₂, ?_, hinv₂⟩
    rw [List.foldlM_cons, Loop.bind_ok_iff]
    exact ⟨st₁, h₁, h₂⟩

theorem closed_concat {order : List NodeId} {n : NodeId}
    (hc : ∀ pre x post, order = pre ++ x :: post →
      ∀ e ∈ edges, e.toNode = x → e.fromNode ∈ pre)
    (hn : ∀ e ∈ edges, e.toNode = n → e.fromNode ∈ order) :
    ∀ pre x post, order ++ [n] = pre ++ x :: post →
      ∀ e ∈ edges, e.toNode = x → e.fromNode ∈ pre :=
  -- "after its predecessors" is a justified log of placements
  (Loop.Justified.concat (J := fun pre x => ∀ e ∈ edges, e.toNode = x → e.fromNode ∈ pre) hc hn)

/-- No edge into a node with nothing pending comes from an unplaced node. -/
theorem fromNode_mem_of_pending {order : List NodeId} {x : NodeId}
    (h : pending edges order x = 0) {e : Edge} (he : e ∈ edges) (hto : e.toNode = x) :
    e.fromNode ∈ order := by
  by_contra hfrom
  have hmem : e ∈ edges.filter fun e => decide (e.toNode = x ∧ e.fromNode ∉ order) :=
    List.mem_filter.mpr ⟨he, by simp [hto, hfrom]⟩
  rw [List.length_eq_zero_iff.mp h] at hmem
  cases hmem

/-- No child of a queued node is placed: its edge from that node would have to be discharged
first. -/
theorem KahnInv.child_notMem {st : KahnState} {n c : NodeId} (h : KahnInv edges nodes st)
    (hplaced : n ∉ st.order) (hpred : ∀ e ∈ edges, e.toNode = n → e.fromNode ∈ st.order)
    {e : Edge} (he : e ∈ edges) (hfrom : e.fromNode = n) (hto : e.toNode = c) :
    c ∉ st.order ++ [n] := by
  intro hin
  rcases List.mem_append.mp hin with hin | hin
  · obtain ⟨pre, post, hsplit⟩ := List.append_of_mem hin
    have hbefore := h.closed pre c post hsplit e he hto
    rw [hfrom] at hbefore
    exact hplaced (hsplit ▸ List.mem_append_left _ hbefore)
  · rw [List.mem_singleton] at hin
    exact hplaced (hfrom ▸ hpred e he (hto.trans hin))

/-- Where the relaxation of the children starts. -/
theorem KahnInv.relaxInv_place {st : KahnState} {n : NodeId} (h : KahnInv edges nodes st)
    (hplaced : n ∉ st.order) (hn : st.queue.getLast? = some n) :
    RelaxInv edges nodes (st.order ++ [n]) (st.visited.insert n) (childrenOf edges n)
      (place st n) := by
  have hqueue : st.queue = st.queue.dropLast ++ [n] :=
    (List.dropLast_append_getLast? n hn).symm
  have hnodup := h.queue_nodup
  rw [hqueue, List.nodup_append] at hnodup
  refine ⟨rfl, rfl, hnodup.1, fun x => ?_, fun x => ?_⟩
  · rw [← pending_place hplaced x]
    have hx : x ∈ st.queue.dropLast ↔ x ∈ st.queue ∧ x ≠ n := by
      refine ⟨fun hd => ⟨?_, ?_⟩, ?_⟩
      · rw [hqueue]
        exact List.mem_append_left _ hd
      · rintro rfl
        exact hnodup.2.2 x hd x (List.mem_singleton.mpr rfl) rfl
      · rintro ⟨hq, hne⟩
        rw [hqueue, List.mem_append, List.mem_singleton] at hq
        exact hq.resolve_right hne
    rw [place, hx, h.queue_iff]
    simp only [List.mem_append, List.mem_singleton, not_or]
    tauto
  · rw [← pending_place hplaced x]
    exact h.indeg x

/-- One pop: the greatest queued node is placed and its children relaxed. -/
theorem KahnInv.pop {st : KahnState} {n : NodeId} (h : KahnInv edges nodes st)
    (hto : ∀ e ∈ edges, e.toNode ∈ nodes) (hn : st.queue.getLast? = some n) :
    n ∉ st.order ∧ ∃ st', (childrenOf edges n).foldlM relax (place st n) = .ok st' ∧
      st'.order = st.order ++ [n] ∧ KahnInv edges nodes st' := by
  obtain ⟨hmem, hplaced, hzero⟩ := (h.queue_iff n).mp (List.mem_of_getLast? hn)
  have hpred : ∀ e ∈ edges, e.toNode = n → e.fromNode ∈ st.order :=
    fun e he hto => fromNode_mem_of_pending hzero he hto
  have hchild : ∀ c ∈ childrenOf edges n, c ∈ nodes ∧ c ∉ st.order ++ [n] := by
    intro c hc
    obtain ⟨e, he, rfl⟩ := List.mem_map.mp hc
    obtain ⟨he, hfrom⟩ := List.mem_filter.mp he
    exact ⟨hto e he, h.child_notMem hplaced hpred he (of_decide_eq_true hfrom) rfl⟩
  obtain ⟨st', hst', hend⟩ := (h.relaxInv_place hplaced hn).all hchild
  refine ⟨hplaced, st', hst', hend.order_eq, ?_, ?_, hend.queue_nodup, ?_, ?_, ?_, ?_, ?_⟩
  · rw [hend.order_eq]
    exact List.nodup_append.mpr ⟨h.order_nodup, List.nodup_singleton n, by
      rintro a ha b hb rfl
      rw [List.mem_singleton] at hb
      exact hplaced (hb ▸ ha)⟩
  · rw [hend.order_eq]
    intro x hx
    rcases List.mem_append.mp hx with hx | hx
    · exact h.order_mem x hx
    · exact List.mem_singleton.mp hx ▸ hmem
  · intro x
    rw [hend.queue_iff, hend.order_eq]
    simp
  · intro x
    rw [hend.indeg, hend.order_eq]
    simp
  · rw [hend.order_eq]
    exact closed_concat h.closed hpred
  · rw [hend.visited_eq]
    exact h.visited_nodup.insert
  · intro x
    rw [hend.visited_eq, hend.order_eq, List.mem_insert_iff, h.visited_iff, List.mem_append,
      List.mem_singleton]
    tauto

/-- A duplicate-free list of known nodes is no longer than the list of nodes. -/
theorem KahnInv.length_le {st : KahnState} (h : KahnInv edges nodes st) :
    st.order.length ≤ nodes.length :=
  (h.order_nodup.subperm h.order_mem).length_le

/-! ## The sorted queue -/

/-- The edge relation of an edge list. -/
def HasEdge (edges : List Edge) (a b : NodeId) : Prop := ⟨a, b⟩ ∈ edges

theorem fromNode_mem_iff {l : List NodeId} {x : NodeId} :
    (∀ y, HasEdge edges y x → y ∈ l) ↔ ∀ e ∈ edges, e.toNode = x → e.fromNode ∈ l := by
  refine ⟨fun h e he hto => h e.fromNode ?_, fun h y hy => h ⟨y, x⟩ hy rfl⟩
  rw [HasEdge, ← hto]
  exact he

/-- The queue is sorted by id, and every node was placed as the greatest ready one. -/
structure GreedyInv (edges : List Edge) (nodes : List NodeId) (st : KahnState) : Prop where
  sorted : st.queue.Pairwise fun a b => a.raw ≤ b.raw
  greedy : Topo.Greedy (HasEdge edges) (· ∈ nodes) NodeId.raw st.order

theorem sorted_sortById (l : List NodeId) :
    (sortById l).Pairwise fun a b => a.raw ≤ b.raw := by
  have : Std.Total fun a b : NodeId => a.raw ≤ b.raw := ⟨fun a b => le_total a.raw b.raw⟩
  have : IsTrans NodeId fun a b => a.raw ≤ b.raw := ⟨fun a b c => le_trans⟩
  exact List.pairwise_insertionSort _ l

/-- Relaxing a child leaves the queue sorted, and the order alone. -/
theorem relax_sorted {st st' : KahnState} {child : NodeId} (h : relax st child = .ok st')
    (hs : st.queue.Pairwise fun a b => a.raw ≤ b.raw) :
    st'.queue.Pairwise fun a b => a.raw ≤ b.raw := by
  rw [relax] at h
  rcases hd : st.indeg.lookup child with _ | _ | d
  · rw [hd] at h
    cases h
    exact hs
  · rw [hd] at h
    cases h
  · rw [hd] at h
    dsimp only at h
    split at h
    · cases h
      exact sorted_sortById _
    · cases h
      exact hs

/-- The queue holds exactly the ready nodes. -/
theorem KahnInv.mem_queue_iff {st : KahnState} (h : KahnInv edges nodes st) {x : NodeId} :
    x ∈ st.queue ↔ Topo.Ready (HasEdge edges) (· ∈ nodes) st.order x := by
  rw [h.queue_iff, Topo.Ready, fromNode_mem_iff]
  refine ⟨fun hx => ⟨hx.1, hx.2.1, fun e he => fromNode_mem_of_pending hx.2.2 he⟩,
    fun hx => ⟨hx.1, hx.2.1, ?_⟩⟩
  rw [pending, List.length_eq_zero_iff, List.filter_eq_nil_iff]
  intro e he hpend
  obtain ⟨hto, hfrom⟩ := of_decide_eq_true hpend
  exact hfrom (hx.2.2 e he hto)

/-- One pop takes the greatest ready node. -/
theorem GreedyInv.pop {st st' : KahnState} {n : NodeId} (hk : KahnInv edges nodes st)
    (h : GreedyInv edges nodes st) (hn : st.queue.getLast? = some n)
    (hst' : (childrenOf edges n).foldlM relax (place st n) = .ok st')
    (horder : st'.order = st.order ++ [n]) : GreedyInv edges nodes st' := by
  have hqueue : st.queue = st.queue.dropLast ++ [n] :=
    (List.dropLast_append_getLast? n hn).symm
  have hsorted := h.sorted
  rw [hqueue, List.pairwise_append] at hsorted
  refine ⟨?_, ?_⟩
  · have hplace : (place st n).queue.Pairwise fun a b => a.raw ≤ b.raw := hsorted.1
    exact Loop.foldlM_ok (I := fun _ st => st.queue.Pairwise fun a b => a.raw ≤ b.raw) hplace
      (fun _ _ _ _ hs hstep => relax_sorted hstep hs) hst'
  · rw [horder]
    refine h.greedy.concat (hk.mem_queue_iff.mp (List.mem_of_getLast? hn)) fun y hy => ?_
    -- a ready node is in the queue, hence not after its last element
    have hy' := hk.mem_queue_iff.mpr hy
    rw [hqueue, List.mem_append, List.mem_singleton] at hy'
    rcases hy' with hy' | rfl
    · exact hsorted.2.2 y hy' n (List.mem_singleton.mpr rfl)
    · exact le_refl _

/-- The whole loop: with one unit of fuel for each node still to be placed it
runs until the queue is empty, and never decrements a zero in-degree. -/
theorem KahnInv.loop (hto : ∀ e ∈ edges, e.toNode ∈ nodes) :
    ∀ (fuel : ℕ) {st : KahnState}, KahnInv edges nodes st → GreedyInv edges nodes st →
      nodes.length ≤ st.order.length + fuel →
      ∃ st', kahn (adjacency edges) fuel st = .ok st' ∧ KahnInv edges nodes st' ∧
        GreedyInv edges nodes st' ∧ st'.queue = [] := by
  intro fuel
  induction fuel with
  | zero =>
    intro st h hg hfuel
    rcases hq : st.queue.getLast? with _ | n
    · refine ⟨st, ?_, h, hg, List.getLast?_eq_none_iff.mp hq⟩
      rw [kahn, hq]
    · -- one more pop would make the order longer than the list of nodes
      obtain ⟨-, st', -, horder, hinv⟩ := h.pop hto hq
      have hlen := hinv.length_le
      rw [horder, List.length_append, List.length_singleton] at hlen
      omega
  | succ fuel ih =>
    intro st h hg hfuel
    rcases hq : st.queue.getLast? with _ | n
    · refine ⟨st, ?_, h, hg, List.getLast?_eq_none_iff.mp hq⟩
      rw [kahn, hq]
    · obtain ⟨-, st₁, hst₁, horder, hinv₁⟩ := h.pop hto hq
      have hfuel₁ : nodes.length ≤ st₁.order.length + fuel := by
        rw [horder, List.length_append, List.length_singleton]
        omega
      obtain ⟨st₂, hst₂, hinv₂, hg₂, hempty⟩ := ih hinv₁ (hg.pop h hq hst₁ horder) hfuel₁
      refine ⟨st₂, ?_, hinv₂, hg₂, hempty⟩
      rw [kahn, hq]
      dsimp only
      rw [lookup_adjacency, Loop.bind_ok_iff]
      exact ⟨st₁, hst₁, hst₂⟩

/-- The state before the first pop. -/
theorem kahnInv_initial (hash : HashOrder) (hto : ∀ e ∈ edges, e.toNode ∈ nodes) :
    KahnInv edges nodes
      { queue := initialQueue hash (indegrees nodes edges), indeg := indegrees nodes edges,
        order := [], visited := [] } := by
  have hlookup := lookup_indegrees hto
  have hqueue : ∀ x, x ∈ initialQueue hash (indegrees nodes edges) ↔
      (indegrees nodes edges).lookup x = some 0 := by
    intro x
    rw [initialQueue, mem_sortById, List.mem_filter, (hash.perm _).mem_iff, decide_eq_true_eq]
    refine ⟨fun h => h.2, fun h => ⟨?_, h⟩⟩
    rw [← AList.mem_keys, ← AList.lookup_isSome, h]
    rfl
  have hnodup : (initialQueue hash (indegrees nodes edges)).Nodup :=
    nodup_sortById (((hash.perm _).nodup_iff.mpr (AList.keys_nodup _)).filter _)
  refine ⟨List.nodup_nil, fun x hx => absurd hx (List.not_mem_nil), hnodup, fun x => ?_, hlookup,
    fun pre x post h => ?_, List.nodup_nil, fun x => Iff.rfl⟩
  · rw [hqueue, hlookup]
    by_cases hx : x ∈ nodes
    · simp [hx]
    · simp [hx]
  · simp at h

theorem greedyInv_initial (hash : HashOrder) :
    GreedyInv edges nodes
      { queue := initialQueue hash (indegrees nodes edges), indeg := indegrees nodes edges,
        order := [], visited := [] } :=
  ⟨sorted_sortById _, Loop.Justified.nil⟩

/-! ## What validation guarantees -/

/-- The guarantees of validation. -/
structure OrderSpec (g : Graph) : Prop where
  order_nodup : g.order.Nodup
  mem_order : ∀ x, x ∈ g.order ↔ x ∈ g.nodes
  predecessor_mem : ∀ pre x post, g.order = pre ++ x :: post →
    ∀ e ∈ g.edges, e.toNode = x → e.fromNode ∈ pre
  compensators_known : ∀ x, x ∈ g.compensators → x ∈ g.nodes

/-- A node does not come before itself. -/
theorem OrderSpec.notMem_of_split {g : Graph} (h : OrderSpec g) {pre post : List NodeId}
    {x : NodeId} (hsplit : g.order = pre ++ x :: post) : x ∉ pre := by
  intro hx
  have hnodup := h.order_nodup
  rw [hsplit, List.nodup_append] at hnodup
  exact hnodup.2.2 x hx x (List.mem_cons_self ..) rfl

/-- Edges that pass the reference check join known nodes. -/
theorem endpoints_mem {nodes : HashMap NodeId Node} (h : missingEndpoint nodes edges = none) :
    ∀ e ∈ edges, e.fromNode ∈ nodes ∧ e.toNode ∈ nodes := by
  intro e he
  have hnone := List.findSome?_eq_none_iff.mp h e he
  by_cases hfrom : e.fromNode ∈ nodes
  · by_cases hto : e.toNode ∈ nodes
    · exact ⟨hfrom, hto⟩
    · rw [if_neg (not_not.mpr hfrom), if_pos hto] at hnone
      cases hnone
  · rw [if_pos hfrom] at hnone
    cases hnone

/-- What validation checks before it sorts: a node, known endpoints, and
compensators of known nodes. -/
structure WellFormed (nodes : HashMap NodeId Node) (edges : List Edge)
    (compensators : HashMap NodeId Node) : Prop where
  nonempty : nodes.keys ≠ []
  endpoints : ∀ e ∈ edges, e.fromNode ∈ nodes ∧ e.toNode ∈ nodes
  compensators_known : ∀ x, x ∈ compensators → x ∈ nodes

/-- A graph that fails a reference check is refused, and not for a cycle. -/
theorem validate_of_malformed (hash : HashOrder) {nodes : HashMap NodeId Node}
    {compensators : HashMap NodeId Node} (h : ¬ WellFormed nodes edges compensators) :
    ∃ e, (∀ name, e ≠ .cycle name) ∧
      Graph.validateWithCompensators hash nodes edges compensators = .ok (.error e) := by
  rw [Graph.validateWithCompensators]
  by_cases hempty : nodes.keys.isEmpty = true
  · rw [if_pos hempty]
    exact ⟨_, by simp, rfl⟩
  rw [if_neg hempty]
  rcases hmiss : missingEndpoint nodes edges with _ | k
  swap
  · exact ⟨_, by simp, rfl⟩
  rcases hcomp : (hash.order compensators.keys).find? (fun k => decide (k ∉ nodes)) with _ | k
  swap
  · exact ⟨_, by simp, rfl⟩
  -- all three checks passed
  refine absurd ⟨?_, endpoints_mem hmiss, fun x hx => ?_⟩ h
  · exact fun hnil => hempty (List.isEmpty_iff.mpr hnil)
  · by_contra hx'
    have hfind := List.find?_eq_none.mp hcomp x ((hash.perm _).mem_iff.mpr hx)
    exact hfind (decide_eq_true hx')

/-- What is accepted has passed the reference checks. -/
theorem wellFormed_of_accepted {hash : HashOrder} {nodes : HashMap NodeId Node}
    {compensators : HashMap NodeId Node} {g : Graph}
    (h : Graph.validateWithCompensators hash nodes edges compensators = .ok (.ok g)) :
    WellFormed nodes edges compensators := by
  by_contra hwf
  obtain ⟨e, -, he⟩ := validate_of_malformed hash hwf
  rw [h] at he
  cases he

/-- A graph that passes the reference checks is sorted until nothing is ready,
and accepted when that placed every node. -/
theorem validate_of_wellFormed (hash : HashOrder) {nodes : HashMap NodeId Node}
    {compensators : HashMap NodeId Node} (h : WellFormed nodes edges compensators) :
    ∃ st, KahnInv edges nodes.keys st ∧ GreedyInv edges nodes.keys st ∧ st.queue = [] ∧
      Graph.validateWithCompensators hash nodes edges compensators =
        .ok (if st.visited.length ≠ nodes.keys.length then
          .error (.cycle
            (((hash.order nodes.keys).find? fun k => decide (k ∉ st.visited)).getD ⟨"unknown"⟩).raw)
        else .ok ⟨nodes, edges, st.order, compensators⟩) := by
  have hto : ∀ e ∈ edges, e.toNode ∈ nodes.keys := fun e he => (h.endpoints e he).2
  obtain ⟨st, hst, hinv, hgreedy, hqueue⟩ := (kahnInv_initial hash hto).loop hto nodes.keys.length
    (greedyInv_initial hash) (Nat.le_add_left _ _)
  refine ⟨st, hinv, hgreedy, hqueue, ?_⟩
  have hempty : ¬ nodes.keys.isEmpty = true := fun he => h.nonempty (List.isEmpty_iff.mp he)
  have hmiss : missingEndpoint nodes edges = none := by
    rw [missingEndpoint, List.findSome?_eq_none_iff]
    intro e he
    obtain ⟨hfrom, hto⟩ := h.endpoints e he
    rw [if_neg (not_not.mpr hfrom), if_neg (not_not.mpr hto)]
  have hcomp : (hash.order compensators.keys).find? (fun k => decide (k ∉ nodes)) = none := by
    rw [List.find?_eq_none]
    intro x hx
    rw [decide_eq_true_eq, not_not]
    exact h.compensators_known x ((hash.perm _).mem_iff.mp hx)
  rw [Graph.validateWithCompensators, if_neg hempty, hmiss]
  dsimp only
  rw [hcomp]
  dsimp only
  rw [hst]
  by_cases hlen : st.visited.length = nodes.keys.length
  · rw [if_neg (not_not.mpr hlen)]
    exact if_neg (not_not.mpr hlen)
  · rw [if_pos hlen]
    exact if_pos hlen

/-- The visited nodes are as many as the placed ones. -/
theorem KahnInv.visited_length {st : KahnState} (h : KahnInv edges nodes st) :
    st.visited.length = st.order.length := by
  have hperm : st.visited.Perm st.order :=
    (List.perm_ext_iff_of_nodup h.visited_nodup h.order_nodup).mpr h.visited_iff
  exact hperm.length_eq

/-- As many placed nodes as there are nodes: all of them are placed. -/
theorem KahnInv.mem_order_iff {st : KahnState} (h : KahnInv edges nodes st)
    (hlen : st.visited.length = nodes.length) (x : NodeId) : x ∈ st.order ↔ x ∈ nodes := by
  rw [h.visited_length] at hlen
  have hperm : st.order.Perm nodes :=
    (h.order_nodup.subperm h.order_mem).perm_of_length_le (Nat.le_of_eq hlen.symm)
  exact hperm.mem_iff

/-- **Validation is sound, and never faults.** -/
theorem validateWithCompensators_spec (hash : HashOrder) (nodes : HashMap NodeId Node)
    (edges : List Edge) (compensators : HashMap NodeId Node) :
    ∃ r, Graph.validateWithCompensators hash nodes edges compensators = .ok r ∧
      ∀ g, r = .ok g → OrderSpec g := by
  by_cases hwf : WellFormed nodes edges compensators
  · obtain ⟨st, hinv, -, -, heq⟩ := validate_of_wellFormed hash hwf
    refine ⟨_, heq, fun g hg => ?_⟩
    split at hg
    · cases hg
    · rename_i hlen
      cases hg
      exact ⟨hinv.order_nodup, hinv.mem_order_iff (not_not.mp hlen), hinv.closed,
        hwf.compensators_known⟩
  · obtain ⟨e, -, he⟩ := validate_of_malformed hash hwf
    exact ⟨_, he, fun g hg => by cases hg⟩

/-- A validated graph meets its specification. -/
theorem ValidGraph.orderSpec (g : ValidGraph) : OrderSpec g.toGraph := by
  obtain ⟨hash, nodes, edges, compensators, h⟩ := g.validated
  obtain ⟨r, hr, hspec⟩ := validateWithCompensators_spec hash nodes edges compensators
  rw [h] at hr
  exact hspec _ (by cases hr; rfl)

/-- The executor's node lookup never fails on a validated graph. -/
theorem ValidGraph.lookup_of_mem (g : ValidGraph) {x : NodeId} (h : x ∈ g.order) :
    ∃ node, g.nodes.lookup x = some node :=
  Option.isSome_iff_exists.mp (AList.lookup_isSome.mpr ((g.orderSpec.mem_order x).mp h))

theorem ValidGraph.lookup_ne_none (g : ValidGraph) {pre post : List NodeId} {x : NodeId}
    (h : g.order = pre ++ x :: post) : g.nodes.lookup x ≠ none := by
  have hmem : x ∈ g.order := by
    rw [h]
    exact List.mem_append_right _ (List.mem_cons_self ..)
  obtain ⟨node, hnode⟩ := g.lookup_of_mem hmem
  rw [hnode]
  exact nofun

end Aaf
