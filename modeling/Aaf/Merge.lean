import Mathlib.Data.List.Nodup

/-!
# Keyed merges

A list that takes elements one by one, each unless its key is there already. Whatever it was given,
it answers for a key as the plain concatenation would, with the first that came (`first_addAll`),
keeps what it had in front and adds no key twice (`addAll_eq_append`).
-/

namespace Merge

variable {α κ : Type} [DecidableEq κ] (key : α → κ)

/-- The element goes to the end, unless its key is there. -/
def add (l : List α) (a : α) : List α :=
  if l.any fun b => decide (key b = key a) then l else l ++ [a]

/-- One element after the other. -/
def addAll (l as : List α) : List α := as.foldl (add key) l

/-- The first element with a key. -/
def first (k : κ) (l : List α) : Option α := l.find? fun a => decide (key a = k)

variable {key}

@[simp]
theorem addAll_nil (l : List α) : addAll key l [] = l := rfl

theorem addAll_cons (l : List α) (a : α) (as : List α) :
    addAll key l (a :: as) = addAll key (add key l a) as := rfl

theorem addAll_append (l as bs : List α) :
    addAll key l (as ++ bs) = addAll key (addAll key l as) bs := List.foldl_append

theorem add_of_mem {l : List α} {a : α} (h : key a ∈ l.map key) : add key l a = l := by
  rw [add, if_pos]
  obtain ⟨b, hb, hkey⟩ := List.mem_map.mp h
  exact List.any_eq_true.mpr ⟨b, hb, decide_eq_true hkey⟩

theorem add_of_notMem {l : List α} {a : α} (h : key a ∉ l.map key) : add key l a = l ++ [a] := by
  rw [add, if_neg]
  intro hany
  obtain ⟨b, hb, hkey⟩ := List.any_eq_true.mp hany
  exact h (List.mem_map.mpr ⟨b, hb, of_decide_eq_true hkey⟩)

theorem first_append (k : κ) (l m : List α) :
    first key k (l ++ m) = (first key k l).or (first key k m) := List.find?_append

theorem first_isSome_iff {k : κ} {l : List α} :
    (first key k l).isSome = true ↔ k ∈ l.map key := by
  simp [first, List.find?_isSome]

theorem first_add (k : κ) (l : List α) (a : α) :
    first key k (add key l a) = first key k (l ++ [a]) := by
  by_cases h : key a ∈ l.map key
  · rw [add_of_mem h, first_append]
    by_cases hk : key a = k
    · have hsome := first_isSome_iff.mpr h
      rw [hk] at hsome
      rw [Option.or_of_isSome hsome]
    · have hnone : first key k [a] = none := by simp [first, hk]
      rw [hnone, Option.or_none]
  · rw [add_of_notMem h]

/-- The merged list answers as the two behind each other. -/
theorem first_addAll (k : κ) (l as : List α) :
    first key k (addAll key l as) = first key k (l ++ as) := by
  induction as generalizing l with
  | nil => rw [addAll_nil, List.append_nil]
  | cons a as ih =>
    rw [addAll_cons, ih, first_append, first_add, ← first_append, List.append_assoc,
      List.singleton_append]

theorem mem_keys_addAll {k : κ} {l as : List α} :
    k ∈ (addAll key l as).map key ↔ k ∈ l.map key ∨ k ∈ as.map key := by
  rw [← first_isSome_iff, first_addAll, first_isSome_iff, List.map_append, List.mem_append]

/-- What is known adds nothing. -/
theorem addAll_of_mem {l as : List α} (h : ∀ a ∈ as, key a ∈ l.map key) : addAll key l as = l := by
  induction as with
  | nil => rfl
  | cons a as ih =>
    rw [addAll_cons, add_of_mem (h a List.mem_cons_self)]
    exact ih fun b hb => h b (List.mem_cons_of_mem _ hb)

/-- What is added comes last, with keys that are new and different. -/
theorem addAll_eq_append (l as : List α) : ∃ new, addAll key l as = l ++ new ∧
    new.Sublist as ∧ (new.map key).Nodup ∧ ∀ a ∈ new, key a ∉ l.map key := by
  induction as generalizing l with
  | nil => exact ⟨[], (List.append_nil l).symm, List.Sublist.refl [], List.nodup_nil, by simp⟩
  | cons a as ih =>
    rw [addAll_cons]
    by_cases h : key a ∈ l.map key
    · rw [add_of_mem h]
      obtain ⟨new, heq, hsub, hnodup, hnew⟩ := ih l
      exact ⟨new, heq, hsub.cons a, hnodup, hnew⟩
    · rw [add_of_notMem h]
      obtain ⟨new, heq, hsub, hnodup, hnew⟩ := ih (l ++ [a])
      refine ⟨a :: new, by rw [heq, List.append_assoc, List.singleton_append],
        hsub.cons_cons a, ?_, ?_⟩
      · refine List.nodup_cons.mpr ⟨fun hmem => ?_, hnodup⟩
        obtain ⟨b, hb, hkey⟩ := List.mem_map.mp hmem
        exact hnew b hb (by rw [hkey]; simp)
      · intro b hb
        rcases List.mem_cons.mp hb with rfl | hb
        · exact h
        · intro hmem
          exact hnew b hb (by rw [List.map_append]; exact List.mem_append_left _ hmem)

end Merge
