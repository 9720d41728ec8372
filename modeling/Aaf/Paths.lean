import Aaf.Topo

/-!
# Heights, and what a cycle leads to

Two questions about a relation `E` on any type, read as the edges of a directed graph.

* **Height.** How long is the longest walk from a source to an element (`HeightIs`)? A
  rank that grows along the edges, and that never grows by more than it has to, answers
  it (`HeightIs.of_rank`).
* **Cycles.** In a finite set in which every element has a predecessor, a cycle leads to
  each element (`ledTo_of_predecessors`), though the element need not lie on one.
-/

namespace Topo

universe u

variable {α : Type u} {E : α → α → Prop}

/-! ## Walks and heights -/

/-- A walk of a number of edges. -/
inductive Walk (E : α → α → Prop) : ℕ → α → α → Prop
  | nil (x : α) : Walk E 0 x x
  | tail {n : ℕ} {x y z : α} (h : Walk E n x y) (hedge : E y z) : Walk E (n + 1) x z

/-- `n` is the length of the longest walk to `x`, and it starts at a source. -/
structure HeightIs (E : α → α → Prop) (x : α) (n : ℕ) : Prop where
  reached : ∃ s, (∀ y, ¬ E y s) ∧ Walk E n s x
  longest : ∀ m s, Walk E m s x → m ≤ n

/-- An element has one height. -/
theorem HeightIs.unique {x : α} {m n : ℕ} (hm : HeightIs E x m) (hn : HeightIs E x n) :
    m = n := by
  obtain ⟨s, -, hs⟩ := hm.reached
  obtain ⟨t, -, ht⟩ := hn.reached
  exact le_antisymm (hn.longest _ _ hs) (hm.longest _ _ ht)

theorem Walk.trans {m n : ℕ} {x y z : α} (h : Walk E m x y) (h' : Walk E n y z) :
    Walk E (m + n) x z := by
  induction h' with
  | nil => exact h
  | tail _ hedge ih => exact (ih h).tail hedge

/-- A path is a walk of some length. -/
theorem exists_walk {x y : α} (h : Relation.ReflTransGen E x y) : ∃ n, Walk E n x y := by
  induction h with
  | refl => exact ⟨0, .nil x⟩
  | tail _ hedge ih =>
    obtain ⟨n, hwalk⟩ := ih
    exact ⟨n + 1, hwalk.tail hedge⟩

/-- What leads to an element is not as high. -/
theorem HeightIs.lt_of_transGen {x y : α} {m n : ℕ} (hx : HeightIs E x m) (hy : HeightIs E y n)
    (h : Relation.TransGen E x y) : m < n := by
  obtain ⟨z, hpath, hedge⟩ := Relation.TransGen.tail'_iff.mp h
  obtain ⟨k, hwalk⟩ := exists_walk hpath
  obtain ⟨s, -, hreach⟩ := hx.reached
  have hle := hy.longest _ _ ((hreach.trans hwalk).tail hedge)
  omega

/-- A rank that grows along the edges grows by the length of a walk. -/
theorem Walk.add_le_rank {rank : α → ℕ} (hlt : ∀ y x, E y x → rank y < rank x) {n : ℕ}
    {x y : α} (h : Walk E n x y) : rank x + n ≤ rank y := by
  induction h with
  | nil => exact le_rfl
  | tail _ hedge ih =>
    have := hlt _ _ hedge
    omega

theorem Walk.head {n : ℕ} {x y z : α} (hedge : E x y) (h : Walk E n y z) :
    Walk E (n + 1) x z := by
  rw [Nat.add_comm]
  exact ((Walk.nil x).tail hedge).trans h

/-- Where a rank grows along the edges, every element has a height. -/
theorem exists_heightIs {rank : α → ℕ} (hlt : ∀ y x, E y x → rank y < rank x) (x : α) :
    ∃ n, HeightIs E x n := by
  classical
  have hbound : ∀ m s, Walk E m s x → m ≤ rank x := fun m s h =>
    le_trans (Nat.le_add_left _ _) (h.add_le_rank hlt)
  obtain ⟨s, hs⟩ : ∃ s, Walk E (Nat.findGreatest (fun m => ∃ s, Walk E m s x) (rank x)) s x :=
    Nat.findGreatest_spec (P := fun m => ∃ s, Walk E m s x) (Nat.zero_le _) ⟨x, .nil x⟩
  have hlongest : ∀ m s, Walk E m s x →
      m ≤ Nat.findGreatest (fun m => ∃ s, Walk E m s x) (rank x) := fun m s h =>
    Nat.le_findGreatest (hbound m s h) ⟨s, h⟩
  -- a longest walk starts at a source, or it could be made longer
  refine ⟨_, ⟨s, fun y hedge => ?_, hs⟩, hlongest⟩
  exact absurd (hlongest _ _ (hs.head hedge)) (Nat.not_succ_le_self _)

/-- **Heights by rank.** A rank that grows along the edges, and that at every element but
those of rank zero is one more than at some predecessor, is the height. -/
theorem HeightIs.of_rank {rank : α → ℕ} (hlt : ∀ y x, E y x → rank y < rank x)
    (hstep : ∀ x, rank x ≠ 0 → ∃ y, E y x ∧ rank y + 1 = rank x) (x : α) :
    HeightIs E x (rank x) := by
  refine ⟨?_, fun m s h => ?_⟩
  · induction hn : rank x generalizing x with
    | zero => exact ⟨x, fun y hedge => Nat.not_lt_zero _ (hn ▸ hlt y x hedge), .nil x⟩
    | succ n ih =>
      obtain ⟨y, hedge, hy⟩ := hstep x (hn ▸ Nat.succ_ne_zero n)
      obtain ⟨s, hs, hwalk⟩ := ih y (Nat.succ.inj (hy.trans hn))
      exact ⟨s, hs, hwalk.tail hedge⟩
  · exact le_trans (Nat.le_add_left _ _) (h.add_le_rank hlt)

/-- Below a rank of an element every smaller one is taken, on the way to the element. -/
theorem exists_rank_eq {rank : α → ℕ}
    (hstep : ∀ x, rank x ≠ 0 → ∃ y, E y x ∧ rank y + 1 = rank x) {n : ℕ} {x : α}
    (hn : n ≤ rank x) : ∃ y, Relation.ReflTransGen E y x ∧ rank y = n := by
  induction hr : rank x generalizing x with
  | zero => exact ⟨x, .refl, by omega⟩
  | succ r ih =>
    rcases Nat.lt_or_eq_of_le hn with hlt | heq
    · obtain ⟨y, hedge, hy⟩ := hstep x (hr ▸ Nat.succ_ne_zero r)
      obtain ⟨z, hpath, hz⟩ := ih (x := y) (by omega) (by omega)
      exact ⟨z, hpath.tail hedge, hz⟩
    · exact ⟨x, .refl, heq.symm⟩

/-! ## What a cycle leads to -/

/-- `x` lies on a cycle or some cycle leads to it. -/
def LedTo (E : α → α → Prop) (x : α) : Prop :=
  ∃ c, Relation.TransGen E c c ∧ Relation.ReflTransGen E c x

/-- **A cycle leads there.** Going back from predecessor to predecessor in a finite set ends
in a cycle. -/
theorem ledTo_of_predecessors {s : Set α} (hfin : s.Finite)
    (hpred : ∀ x ∈ s, ∃ y ∈ s, E y x) {x : α} (hx : x ∈ s) : LedTo E x := by
  by_contra hled
  -- no cycle lies among the elements of `s` that lead to `x`
  let cone : Set α := {y | y ∈ s ∧ Relation.ReflTransGen E y x}
  have hacyclic : Acyclic fun y z => E y z ∧ z ∈ cone := by
    intro c hcycle
    obtain ⟨_, -, -, hc⟩ := Relation.TransGen.tail'_iff.mp hcycle
    have hle : (fun y z => E y z ∧ z ∈ cone) ≤ E := fun _ _ h => h.1
    exact hled ⟨c, Relation.TransGen.mono hle c c hcycle, hc.2⟩
  obtain ⟨z, hz, hsource⟩ := hacyclic.exists_source
    (hfin.subset fun y (hy : y ∈ cone) => hy.1) ⟨x, hx, .refl⟩
  obtain ⟨y, hy, hedge⟩ := hpred z hz.1
  exact hsource y ⟨hy, .head hedge hz.2⟩ ⟨hedge, hz⟩

end Topo
