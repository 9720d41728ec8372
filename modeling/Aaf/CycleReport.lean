import Aaf.GraphValidation
import Aaf.Paths

/-!
# Which node a cycle report names

When Kahn's loop ends with nodes left over, validation reports the first of them that the
hash map enumerates: "it's part of a cycle", says the code. The nodes left over are those
that a cycle leads to (`notMem_order_iff`), so the node need not be on one.

`cycleReport_iff`: the report names a node of a cycle exactly when the first node that a
cycle leads to lies on a cycle, and for every iteration order exactly when all nodes that
a cycle leads to do.
-/

namespace Aaf

variable {edges : List Edge} {nodes compensators : HashMap NodeId Node}

/-- The node lies on a directed cycle. -/
def OnCycle (edges : List Edge) (n : NodeId) : Prop := Relation.TransGen (HasEdge edges) n n

/-- The first element of a list with a property. -/
def First {α : Type} (p : α → Prop) (l : List α) (a : α) : Prop :=
  p a ∧ ∃ pre post, l = pre ++ a :: post ∧ ∀ b ∈ pre, ¬ p b

/-- What `find?` finds. -/
theorem find?_eq_some_iff_first {α : Type} {f : α → Bool} {l : List α} {a : α} :
    l.find? f = some a ↔ First (fun x => f x = true) l a := by
  rw [List.find?_eq_some_iff_append, First]
  simp

/-- Only the elements of the list matter. -/
theorem First.congr {α : Type} {p q : α → Prop} {l : List α} {a : α}
    (h : ∀ x ∈ l, (p x ↔ q x)) : First p l a ↔ First q l a := by
  have himp : ∀ {p q : α → Prop}, (∀ x ∈ l, (p x ↔ q x)) → First p l a → First q l a := by
    rintro p q h ⟨ha, pre, post, rfl, hpre⟩
    refine ⟨(h a (by simp)).mp ha, pre, post, rfl, fun b hb hq => ?_⟩
    exact hpre b hb ((h b (List.mem_append_left _ hb)).mpr hq)
  exact ⟨himp h, himp fun x hx => (h x hx).symm⟩

/-- Any element of a finite list comes first in some order of it. -/
theorem exists_first {p : NodeId → Prop} {l : List NodeId} {a : NodeId} (ha : a ∈ l)
    (hp : p a) : ∃ hash : HashOrder, First p (hash.order l) a := by
  have hperm : ∀ l : List NodeId, (if a ∈ l then a :: l.erase a else l).Perm l := by
    intro l
    by_cases h : a ∈ l
    · rw [if_pos h]
      exact (List.perm_cons_erase h).symm
    · rw [if_neg h]
  refine ⟨⟨fun l => if a ∈ l then a :: l.erase a else l, hperm⟩, hp, [], l.erase a, ?_, ?_⟩
  · exact if_pos ha
  · exact fun _ hb => absurd hb List.not_mem_nil

/-- The nodes the loop leaves over are those that a cycle leads to. -/
theorem KahnInv.notMem_order_iff {nodes : List NodeId} {st : KahnState}
    (h : KahnInv edges nodes st) (hqueue : st.queue = [])
    (hfrom : ∀ e ∈ edges, e.fromNode ∈ nodes) {x : NodeId} (hx : x ∈ nodes) :
    x ∉ st.order ↔ Topo.LedTo (HasEdge edges) x := by
  constructor
  · intro hout
    have hfin : {x | x ∈ nodes ∧ x ∉ st.order}.Finite :=
      nodes.finite_toSet.subset fun x hx => hx.1
    refine Topo.ledTo_of_predecessors hfin ?_ ⟨hx, hout⟩
    rintro x ⟨hx, hout⟩
    exact h.exists_unplaced hqueue hfrom hx hout
  · rintro ⟨c, hcycle, hpath⟩ hin
    have hrespects : Topo.Respects (HasEdge edges) st.order := fun pre x post hsplit =>
      fromNode_mem_iff.mpr (h.closed pre x post hsplit)
    exact hrespects.not_cycle h.order_nodup (hrespects.mem_of_reflTransGen hpath hin) hcycle

/-- A cycle is only reported for a graph that passes the reference checks. -/
theorem wellFormed_of_cycle {hash : HashOrder} {name : String}
    (h : Graph.validateWithCompensators hash nodes edges compensators =
      .ok (.error (.cycle name))) : WellFormed nodes edges compensators := by
  by_contra hwf
  obtain ⟨e, hne, he⟩ := validate_of_malformed hash hwf
  rw [h] at he
  cases he
  exact hne name rfl

/-- What the search among the nodes left over finds. -/
theorem KahnInv.find?_unvisited {st : KahnState} (h : KahnInv edges nodes.keys st)
    (hqueue : st.queue = []) (hfrom : ∀ e ∈ edges, e.fromNode ∈ nodes.keys) (hash : HashOrder)
    (n : NodeId) :
    (hash.order nodes.keys).find? (fun k => decide (k ∉ st.visited)) = some n ↔
      First (Topo.LedTo (HasEdge edges)) (hash.order nodes.keys) n := by
  rw [find?_eq_some_iff_first]
  refine First.congr fun x hx => ?_
  rw [decide_eq_true_eq, h.visited_iff]
  exact h.notMem_order_iff hqueue hfrom ((hash.perm _).mem_iff.mp hx)

/-- The node reported is the first one that a cycle leads to. -/
theorem validate_cycle_iff (hash : HashOrder) (nodes : HashMap NodeId Node) (edges : List Edge)
    (compensators : HashMap NodeId Node) (n : NodeId) :
    Graph.validateWithCompensators hash nodes edges compensators =
        .ok (.error (.cycle n.raw)) ↔
      WellFormed nodes edges compensators ∧
        First (Topo.LedTo (HasEdge edges)) (hash.order nodes.keys) n := by
  by_cases hwf : WellFormed nodes edges compensators
  swap
  · exact iff_of_false (fun h => hwf (wellFormed_of_cycle h)) fun h => hwf h.1
  rw [and_iff_right hwf]
  obtain ⟨st, hinv, -, hqueue, heq⟩ := validate_of_wellFormed hash hwf
  rw [heq, ← hinv.find?_unvisited hqueue fun e he => (hwf.endpoints e he).1]
  by_cases hlen : st.visited.length = nodes.keys.length
  · -- everything is placed: nothing is reported, and nothing left to find
    rw [if_neg (not_not.mpr hlen)]
    refine iff_of_false (fun h => by cases h) fun hfind => ?_
    obtain ⟨hout, -⟩ := find?_eq_some_iff_first.mp hfind
    have hin := (hash.perm _).mem_iff.mp (List.mem_of_find?_eq_some hfind)
    exact of_decide_eq_true hout ((hinv.visited_iff n).mpr ((hinv.mem_order_iff hlen n).mpr hin))
  · rw [if_pos hlen]
    rcases hfind : (hash.order nodes.keys).find? (fun k => decide (k ∉ st.visited)) with _ | m
    · -- something is left over, so something is found
      refine absurd (hinv.length_eq_of_placed (AList.keys_nodup nodes) fun x hx => ?_) hlen
      have hno := List.find?_eq_none.mp hfind x ((hash.perm _).mem_iff.mpr hx)
      rw [decide_eq_true_eq, not_not] at hno
      exact (hinv.visited_iff x).mp hno
    · rw [Option.getD_some]
      constructor
      · intro h
        injection h with h
        injection h with h
        injection h with h
        rw [NodeId.raw_injective h]
      · rintro ⟨⟩
        rfl

/-- **The cycle report.** With one iteration order of the hash maps the node reported lies
on a cycle exactly when the first node that a cycle leads to does; with any, exactly when
all nodes that a cycle leads to do. -/
theorem cycleReport_iff (nodes : HashMap NodeId Node) (edges : List Edge)
    (compensators : HashMap NodeId Node) :
    (∀ hash : HashOrder,
      (∀ n : NodeId, Graph.validateWithCompensators hash nodes edges compensators =
        .ok (.error (.cycle n.raw)) → OnCycle edges n) ↔
      (WellFormed nodes edges compensators →
        ∀ n, First (Topo.LedTo (HasEdge edges)) (hash.order nodes.keys) n → OnCycle edges n)) ∧
    ((∀ (hash : HashOrder) (n : NodeId),
      Graph.validateWithCompensators hash nodes edges compensators =
        .ok (.error (.cycle n.raw)) → OnCycle edges n) ↔
      (WellFormed nodes edges compensators →
        ∀ n ∈ nodes.keys, Topo.LedTo (HasEdge edges) n → OnCycle edges n)) := by
  refine ⟨fun hash => ⟨fun h hwf n hn => ?_, fun h n hreport => ?_⟩,
    fun h hwf n hn hled => ?_, fun h hash n hreport => ?_⟩
  · exact h n ((validate_cycle_iff hash nodes edges compensators n).mpr ⟨hwf, hn⟩)
  · obtain ⟨hwf, hn⟩ := (validate_cycle_iff hash nodes edges compensators n).mp hreport
    exact h hwf n hn
  · obtain ⟨hash, hfirst⟩ := exists_first hn hled
    exact h hash n ((validate_cycle_iff hash nodes edges compensators n).mpr ⟨hwf, hfirst⟩)
  · obtain ⟨hwf, hled, pre, post, hsplit, -⟩ :=
      (validate_cycle_iff hash nodes edges compensators n).mp hreport
    refine h hwf n ((hash.perm _).mem_iff.mp ?_) hled
    rw [hsplit]
    exact List.mem_append_right _ List.mem_cons_self

/-- `a` and `b` on a cycle that leads to `c`: `c` is reported when it is enumerated first. -/
theorem joinNodes_report_off_cycle :
    ¬ ∀ (hash : HashOrder) (n : NodeId), Graph.validateWithCompensators hash joinNodes
      [⟨⟨"a"⟩, ⟨"b"⟩⟩, ⟨⟨"b"⟩, ⟨"a"⟩⟩, ⟨⟨"b"⟩, ⟨"c"⟩⟩] ∅ = .ok (.error (.cycle n.raw)) →
        OnCycle [⟨⟨"a"⟩, ⟨"b"⟩⟩, ⟨⟨"b"⟩, ⟨"a"⟩⟩, ⟨⟨"b"⟩, ⟨"c"⟩⟩] n := by
  intro h
  have hcycle := h ⟨List.reverse, List.reverse_perm⟩ ⟨"c"⟩ (by rfl)
  -- no edge leaves `c`
  obtain ⟨y, hedge, -⟩ := Relation.TransGen.head'_iff.mp hcycle
  simp [HasEdge] at hedge

end Aaf
