import Mathlib.Data.Finmap
import Mathlib.Data.List.Induction
import Mathlib.Tactic.Linarith

/-!
# Inverted indexes

Items are kept in a list, and an index has for each key the positions of the items with the key: a
position once for each time that its item has it. What is found through the index is then the
list with each item `repeated` (`Indexed.hits`).

When only the first items are asked for, this is the list itself exactly when an item that is
repeated before the end is followed by one like it: `take_repeated_iff`.
-/

namespace InvertedIndex

universe u v

/-! ## Repeated items -/

section Repeated

variable {α : Type u}

/-- The list with each item as often as its count says. -/
def repeated (count : α → ℕ) (l : List α) : List α := l.flatMap fun a => List.replicate (count a) a

variable {count : α → ℕ} {l : List α} {a : α}

@[simp] theorem repeated_cons :
    repeated count (a :: l) = List.replicate (count a) a ++ repeated count l :=
  List.flatMap_cons

theorem mem_repeated : a ∈ repeated count l ↔ a ∈ l ∧ 0 < count a := by
  simp only [repeated, List.mem_flatMap, List.mem_replicate]
  constructor
  · rintro ⟨b, hb, hcount, rfl⟩
    exact ⟨hb, Nat.pos_of_ne_zero hcount⟩
  · rintro ⟨ha, hcount⟩
    exact ⟨a, ha, hcount.ne', rfl⟩

theorem repeated_congr {count' : α → ℕ} (h : ∀ a ∈ l, count a = count' a) :
    repeated count l = repeated count' l :=
  List.flatMap_congr fun a ha => by rw [h a ha]

/-- Items without a count do not matter. -/
theorem repeated_filter {p : α → Bool} (h : ∀ a ∈ l, 0 < count a ↔ p a = true) :
    repeated count l = repeated count (l.filter p) := by
  induction l with
  | nil => rfl
  | cons a l ih =>
    have hl := ih fun b hb => h b (List.mem_cons_of_mem _ hb)
    have ha := h a List.mem_cons_self
    rw [List.filter_cons, repeated_cons, hl]
    split_ifs with hp
    · rw [repeated_cons]
    · have hzero : count a = 0 := Nat.eq_zero_of_not_pos fun hpos => hp (ha.mp hpos)
      rw [hzero, List.replicate_zero, List.nil_append]

/-- A run of equal items is repeated to a longer one. -/
theorem replicate_prefix_repeated {n : ℕ} (h : List.replicate n a <+: l) :
    List.replicate (n * count a) a <+: repeated count l := by
  induction n generalizing l with
  | zero => simp
  | succ n ih =>
    obtain ⟨rest, rfl⟩ := h
    rw [List.replicate_succ, List.cons_append, repeated_cons, Nat.succ_mul, Nat.add_comm,
      List.replicate_add]
    exact List.prefix_append_right_inj _ |>.mpr (ih (List.prefix_append _ _))

/-- A list that starts with a run starts with every shorter one. -/
theorem replicate_prefix_of_le {m n : ℕ} (h : List.replicate n a <+: l) (hmn : m ≤ n) :
    List.replicate m a <+: l := by
  refine List.IsPrefix.trans ⟨List.replicate (n - m) a, ?_⟩ h
  rw [← List.replicate_add, Nat.add_sub_cancel' hmn]

/-- Whenever an item is repeated before the end of the first `n`, the next one is like it. -/
def RunsOn (count : α → ℕ) (l : List α) (n : ℕ) : Prop :=
  ∀ j a, l[j]? = some a → j + 1 < n → count a = 1 ∨ l[j + 1]? = some a

theorem RunsOn.tail {n : ℕ} (h : RunsOn count (a :: l) (n + 1)) : RunsOn count l n :=
  fun j b hb hj => h (j + 1) b hb (by omega)

/-- From an item that is repeated the run goes on to the end. -/
theorem RunsOn.startsWith_run {n : ℕ} (h : RunsOn count (a :: l) n) (ha : count a ≠ 1) :
    List.replicate n a <+: a :: l ∨ n = 0 := by
  induction n generalizing l with
  | zero => exact Or.inr rfl
  | succ n ih =>
    refine Or.inl ?_
    rw [List.replicate_succ, List.prefix_cons_inj]
    rcases n with _ | n
    · exact List.nil_prefix
    · have hnext : l[0]? = some a := (h 0 a rfl (by omega)).resolve_left ha
      rcases l with _ | ⟨b, l⟩
      · cases hnext
      · obtain rfl : b = a := Option.some.inj hnext
        exact (ih h.tail).resolve_right (Nat.succ_ne_zero n)

/-- A repeated item at the start of both lists makes a run of what they share. -/
theorem replicate_prefix_of_take_eq {n : ℕ} (ha : 2 ≤ count a)
    (h : (repeated count (a :: l)).take n = (a :: l).take n) {i : ℕ} (hi : i ≤ n) :
    List.replicate i a <+: a :: l := by
  induction i with
  | zero => exact List.nil_prefix
  | succ i ih =>
    rcases i with _ | i
    · exact ⟨l, rfl⟩
    · have hle : i + 1 + 1 ≤ (i + 1) * count a := by nlinarith
      have hrepeated : List.replicate (i + 1 + 1) a <+: repeated count (a :: l) :=
        replicate_prefix_of_le (replicate_prefix_repeated (ih (by omega))) hle
      have htake : List.replicate (i + 1 + 1) a <+: (repeated count (a :: l)).take n := by
        refine List.prefix_take_iff.mpr ⟨hrepeated, ?_⟩
        rw [List.length_replicate]
        exact hi
      rw [h] at htake
      exact htake.trans (List.take_prefix _ _)

/-- **The first of the repeated items** are the first items exactly when every item that is
repeated before the end is followed by one like it. -/
theorem take_repeated_iff (h : ∀ a ∈ l, 0 < count a) (n : ℕ) :
    (repeated count l).take n = l.take n ↔ RunsOn count l n := by
  induction l generalizing n with
  | nil => exact iff_of_true rfl fun j a hj => by cases hj
  | cons a l ih =>
    have hpos := h a List.mem_cons_self
    rcases n with _ | n
    · exact iff_of_true rfl fun j b _ hj => absurd hj (by omega)
    · by_cases ha : count a = 1
      · rw [repeated_cons, ha, List.replicate_one, List.singleton_append, List.take_succ_cons,
          List.take_succ_cons, List.cons_inj_right, ih fun b hb => h b (List.mem_cons_of_mem _ hb)]
        refine ⟨fun hl j b hb hj => ?_, RunsOn.tail⟩
        rcases j with _ | j
        · obtain rfl : a = b := Option.some.inj hb
          exact Or.inl ha
        · exact hl j b hb (by omega)
      · refine ⟨fun htake j b hb hj => Or.inr ?_, fun hruns => ?_⟩
        · have hrun := replicate_prefix_of_take_eq (by omega) htake (le_refl _)
          have hat : ∀ i, i < n + 1 → (a :: l)[i]? = some a := by
            intro i hi
            rw [List.prefix_iff_getElem?] at hrun
            rw [hrun i (by simpa using hi), List.getElem_replicate]
          rw [hat j (by omega)] at hb
          rw [hat (j + 1) hj, hb]
        · have hrun := (hruns.startsWith_run ha).resolve_right (Nat.succ_ne_zero n)
          have hrepeated : List.replicate (n + 1) a <+: repeated count (a :: l) :=
            replicate_prefix_of_le (replicate_prefix_repeated hrun)
              (Nat.le_mul_of_pos_right _ hpos)
          have hlength := List.length_replicate (n := n + 1) (a := a)
          rw [List.prefix_iff_eq_take, hlength] at hrun hrepeated
          rw [← hrun, ← hrepeated]

end Repeated

/-! ## The index -/

section Index

variable {ι : Type u} {K : Type v} [DecidableEq K]

/-- How often the key is among the keys. -/
def occurrences (keys : List K) (key : K) : ℕ := keys.countP fun k => decide (k = key)

/-- The position goes under each of the keys. -/
def pushAll (index : AList fun _ : K => List ℕ) (keys : List K) (idx : ℕ) :
    AList fun _ : K => List ℕ :=
  keys.foldl (fun index key => index.insert key ((index.lookup key).getD [] ++ [idx])) index

theorem lookup_pushAll (index : AList fun _ : K => List ℕ) (keys : List K) (idx : ℕ) (key : K) :
    ((pushAll index keys idx).lookup key).getD [] =
      (index.lookup key).getD [] ++ List.replicate (occurrences keys key) idx := by
  rw [pushAll]
  induction keys generalizing index with
  | nil => simp [occurrences]
  | cons k keys ih =>
    rw [List.foldl_cons, ih, occurrences, occurrences, List.countP_cons]
    by_cases hk : k = key
    · subst hk
      rw [AList.lookup_insert, Option.getD_some, List.append_assoc, List.singleton_append,
        ← List.replicate_succ, if_pos (decide_eq_true rfl)]
    · rw [AList.lookup_insert_ne (Ne.symm hk), if_neg (by simpa using hk), Nat.add_zero]

variable {keysOf : ι → List K}

/-- Under each key are the positions of the items with it, each as often as its item has it. -/
def Indexed (keysOf : ι → List K) (index : AList fun _ : K => List ℕ) (items : List ι) : Prop :=
  ∀ key, (index.lookup key).getD [] =
    items.zipIdx.flatMap fun p => List.replicate (occurrences (keysOf p.1) key) p.2

theorem Indexed.empty : Indexed keysOf ∅ [] := fun _ => rfl

/-- The index stays one when an item and its position are added. -/
theorem Indexed.concat {index : AList fun _ : K => List ℕ} {items : List ι}
    (h : Indexed keysOf index items) (item : ι) :
    Indexed keysOf (pushAll index (keysOf item) items.length) (items ++ [item]) := by
  intro key
  rw [lookup_pushAll, h key, List.zipIdx_append, List.flatMap_append]
  simp

/-- **What is found through the index** is each item as often as it has the key, in order. -/
theorem Indexed.hits {index : AList fun _ : K => List ℕ} {items : List ι}
    (h : Indexed keysOf index items) (key : K) :
    ((index.lookup key).getD []).filterMap (fun idx => items[idx]?) =
      repeated (fun item => occurrences (keysOf item) key) items := by
  have hone : ∀ p ∈ items.zipIdx,
      (List.replicate (occurrences (keysOf p.1) key) p.2).filterMap (fun idx => items[idx]?) =
        List.replicate (occurrences (keysOf p.1) key) p.1 := by
    intro p hp
    rw [List.filterMap_replicate, List.mem_zipIdx_iff_getElem?.mp hp]
  rw [h key, List.filterMap_flatMap, List.flatMap_congr hone, repeated]
  conv_rhs => rw [← List.zipIdx_map_fst 0 items, List.flatMap_map]

end Index

end InvertedIndex
