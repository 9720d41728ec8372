import Mathlib.Order.WellFoundedSet
import Aaf.Loop

/-!
# Topological orders

A relation `E` on any type, read as the edges of a directed graph. A list
`Respects` the edges when every element stands after all its predecessors. Two
facts tie such lists to cycles:

* a duplicate-free list that respects the edges and holds every edge's target
  leaves no room for a cycle (`Respects.acyclic`);
* without a cycle, every non-empty finite set has an element with no predecessor
  inside it (`Acyclic.exists_source`), so a placement can always go on.

Among all such orders one is singled out by a key: at every position the `Ready`
element with the greatest key. That order is unique (`Greedy.eq_of_length_eq`).
-/

namespace Topo

universe u v

variable {α : Type u} {E : α → α → Prop}

/-! ## Cycles -/

/-- No path leads from an element back to itself. -/
def Acyclic (E : α → α → Prop) : Prop := ∀ x, ¬ Relation.TransGen E x x

/-- A rank that grows along the edges leaves no cycle. -/
theorem acyclic_of_rank (rank : α → ℕ) (h : ∀ y x, E y x → rank y < rank x) : Acyclic E := by
  intro x hcycle
  have hpath : ∀ {y x}, Relation.TransGen E y x → rank y < rank x := by
    intro y x hyx
    induction hyx with
    | single hedge => exact h _ _ hedge
    | tail _ hedge ih => exact lt_trans ih (h _ _ hedge)
  exact lt_irrefl _ (hpath hcycle)

/-- Every element of the list stands after all its predecessors. -/
def Respects (E : α → α → Prop) (order : List α) : Prop :=
  ∀ pre x post, order = pre ++ x :: post → ∀ y, E y x → y ∈ pre

/-- In a list that respects the edges, what leads to an element stands before it. -/
theorem Respects.mem_of_transGen {order : List α} (h : Respects E order) {y x : α}
    (hpath : Relation.TransGen E y x) :
    ∀ {pre post : List α}, order = pre ++ x :: post → y ∈ pre := by
  induction hpath with
  | single hyx => exact fun hsplit => h _ _ _ hsplit y hyx
  | @tail z x _ hzx ih =>
    intro pre post hsplit
    -- the last step comes from the left of `x`, and the path to it from further left
    obtain ⟨left, right, rfl⟩ := List.append_of_mem (h _ _ _ hsplit z hzx)
    have hy : y ∈ left := ih (by rw [hsplit, List.append_assoc, List.cons_append])
    exact List.mem_append_left _ hy

/-- What leads to an element of the list is in the list. -/
theorem Respects.mem_of_reflTransGen {order : List α} (h : Respects E order) {y x : α}
    (hpath : Relation.ReflTransGen E y x) (hx : x ∈ order) : y ∈ order := by
  rcases Relation.reflTransGen_iff_eq_or_transGen.mp hpath with rfl | hpath
  · exact hx
  · obtain ⟨pre, post, rfl⟩ := List.append_of_mem hx
    exact List.mem_append_left _ (h.mem_of_transGen hpath rfl)

/-- No element of the list lies on a cycle. -/
theorem Respects.not_cycle {order : List α} (h : Respects E order) (hnodup : order.Nodup) {x : α}
    (hx : x ∈ order) : ¬ Relation.TransGen E x x := by
  intro hcycle
  obtain ⟨pre, post, rfl⟩ := List.append_of_mem hx
  have hbefore : x ∈ pre := h.mem_of_transGen hcycle rfl
  exact (List.nodup_append.mp hnodup).2.2 x hbefore x List.mem_cons_self rfl

/-- **An order excludes cycles.** -/
theorem Respects.acyclic {order : List α} (h : Respects E order) (hnodup : order.Nodup)
    (hmem : ∀ y x, E y x → x ∈ order) : Acyclic E := by
  intro x hcycle
  obtain ⟨z, -, hzx⟩ := Relation.TransGen.tail'_iff.mp hcycle
  exact h.not_cycle hnodup (hmem z x hzx) hcycle

/-- Along an edge the positions grow; what is not in the list has the last one. -/
theorem Respects.idxOf_lt [DecidableEq α] {order : List α} (h : Respects E order) {y x : α}
    (hedge : E y x) (hy : y ∈ order) : order.idxOf y < order.idxOf x := by
  by_cases hx : x ∈ order
  · obtain ⟨pre, post, rfl, hnot⟩ := List.eq_append_cons_of_mem hx
    have hpre : y ∈ pre := h pre x post rfl y hedge
    rw [List.idxOf_append_of_mem hpre, List.idxOf_append_of_notMem hnot, List.idxOf_cons_self]
    exact lt_of_lt_of_le (List.idxOf_lt_length_of_mem hpre) (Nat.le_add_right _ _)
  · rw [List.idxOf_eq_length hx]
    exact List.idxOf_lt_length_of_mem hy

/-- **Without a cycle there is a source.** Every non-empty finite set has an
element with no predecessor in the set. -/
theorem Acyclic.exists_source (h : Acyclic E) {s : Set α} (hfin : s.Finite) (hs : s.Nonempty) :
    ∃ x ∈ s, ∀ y ∈ s, ¬ E y x := by
  -- paths of an acyclic relation are a strict order, well-founded on a finite set
  have : IsStrictOrder α (Relation.TransGen E) := { irrefl := h }
  have hwf : s.WellFoundedOn (Relation.TransGen E) := hfin.wellFoundedOn
  obtain ⟨x₀, hx₀⟩ := hs
  obtain ⟨x, -, hmin⟩ := WellFounded.has_min hwf Set.univ ⟨⟨x₀, hx₀⟩, trivial⟩
  refine ⟨x.1, x.2, fun y hy hyx => ?_⟩
  exact hmin ⟨y, hy⟩ trivial (Relation.TransGen.single hyx)

/-! ## Greedy orders -/

/-- `x` may be placed next: it is a vertex, not placed, and all its predecessors are. -/
def Ready (E : α → α → Prop) (V : α → Prop) (placed : List α) (x : α) : Prop :=
  V x ∧ x ∉ placed ∧ ∀ y, E y x → y ∈ placed

/-- At every position stands the ready element with the greatest key. -/
def Greedy {β : Type v} [LE β] (E : α → α → Prop) (V : α → Prop) (key : α → β)
    (order : List α) : Prop :=
  ∀ pre x post, order = pre ++ x :: post →
    Ready E V pre x ∧ ∀ y, Ready E V pre y → key y ≤ key x

variable {β : Type v} {V : α → Prop} {key : α → β}

/-- The greedy order grows by the greatest ready element. -/
theorem Greedy.concat [LE β] {order : List α} {x : α} (h : Greedy E V key order)
    (hx : Ready E V order x) (hmax : ∀ y, Ready E V order y → key y ≤ key x) :
    Greedy E V key (order ++ [x]) :=
  Loop.Justified.concat
    (J := fun pre x => Ready E V pre x ∧ ∀ y, Ready E V pre y → key y ≤ key x) h ⟨hx, hmax⟩

/-- **The greedy order is unique.** Two greedy continuations of one placement, of
the same length, are equal. -/
theorem Greedy.eq_of_length_eq [PartialOrder β] (hkey : Function.Injective key) :
    ∀ (pre : List α) {l l' : List α}, Greedy E V key (pre ++ l) → Greedy E V key (pre ++ l') →
      l.length = l'.length → l = l' := by
  intro pre l
  induction l generalizing pre with
  | nil =>
    intro l' _ _ hlen
    exact (List.length_eq_zero_iff.mp hlen.symm).symm
  | cons x l ih =>
    intro l' h h' hlen
    cases l' with
    | nil => cases hlen
    | cons x' l' =>
      -- each head is ready and at least as great as the other
      obtain ⟨hx, hmax⟩ := h pre x l rfl
      obtain ⟨hx', hmax'⟩ := h' pre x' l' rfl
      have heq : x = x' := hkey (le_antisymm (hmax' x hx) (hmax x' hx'))
      subst heq
      rw [List.append_cons] at h h'
      rw [ih (pre ++ [x]) h h' (Nat.succ.inj hlen)]

end Topo
