import Mathlib.Algebra.BigOperators.Group.List.Basic
import Mathlib.Data.List.AList
import Mathlib.Data.List.Induction

/-!
# Tallies

Amounts added up by key: an entry for each key, made with a tag when the key comes up first.
`lookup_tally` is the closed form of an entry, `sum_fibers` says that the amounts by key add
up to the amounts.
-/

namespace Tally

universe u v w x

variable {α : Type u} {κ : Type v} {M : Type w} {τ : Type x} [DecidableEq κ] [AddCommMonoid M]

/-- The entry of a key, made if it is not there, takes an amount. -/
def charge (acc : AList fun _ : κ => M × τ) (key : κ) (tag : τ) (amount : M) :
    AList fun _ : κ => M × τ :=
  let entry := (acc.lookup key).getD (0, tag)
  acc.insert key (entry.1 + amount, entry.2)

/-- The entries after the elements, one after the other. -/
def tally (key : α → κ) (tag : α → τ) (amount : α → M) (l : List α) : AList fun _ : κ => M × τ :=
  l.foldl (fun acc a => charge acc (key a) (tag a) (amount a)) ∅

variable {key : α → κ} {tag : α → τ} {amount : α → M}

/-- The amounts of the elements with the key `k`. -/
def fiber (key : α → κ) (amount : α → M) (l : List α) (k : κ) : M :=
  ((l.filter fun a => decide (key a = k)).map amount).sum

theorem fiber_concat (l : List α) (a : α) (k : κ) :
    fiber key amount (l ++ [a]) k =
      fiber key amount l k + if key a = k then amount a else 0 := by
  rw [fiber, List.filter_append, List.map_append, List.sum_append]
  by_cases hk : key a = k
  · simp [fiber, hk]
  · simp [fiber, hk]

theorem fiber_perm {l l' : List α} (h : l.Perm l') (k : κ) :
    fiber key amount l k = fiber key amount l' k :=
  ((h.filter _).map amount).sum_eq

theorem tally_concat (l : List α) (a : α) :
    tally key tag amount (l ++ [a]) =
      charge (tally key tag amount l) (key a) (tag a) (amount a) := by
  rw [tally, List.foldl_append]
  rfl

/-- **Entries.** There is one for each key that has come up, with the amounts of its
elements. -/
theorem lookup_tally (l : List α) (k : κ) :
    ((tally key tag amount l).lookup k).map Prod.fst =
      if k ∈ l.map key then some (fiber key amount l k) else none := by
  induction l using List.reverseRecOn with
  | nil => rfl
  | append_singleton l a ih =>
    rw [tally_concat, charge, fiber_concat]
    by_cases hk : key a = k
    · subst hk
      have hbefore : (((tally key tag amount l).lookup (key a)).getD (0, tag a)).1 =
          fiber key amount l (key a) := by
        by_cases hmem : key a ∈ l.map key
        · rw [if_pos hmem] at ih
          obtain ⟨entry, hentry, hfst⟩ := Option.map_eq_some_iff.mp ih
          rw [hentry, Option.getD_some, hfst]
        · rw [if_neg hmem, Option.map_eq_none_iff] at ih
          have hnone : (l.filter fun b => decide (key b = key a)) = [] :=
            List.filter_eq_nil_iff.mpr fun b hb heq =>
              hmem (of_decide_eq_true heq ▸ List.mem_map_of_mem hb)
          rw [ih, Option.getD_none, fiber, hnone]
          rfl
      have hmem : key a ∈ (l ++ [a]).map key := by simp
      rw [AList.lookup_insert, Option.map_some, hbefore, if_pos hmem, if_pos rfl]
    · have hmem : k ∈ (l ++ [a]).map key ↔ k ∈ l.map key := by
        simp [Ne.symm hk]
      rw [AList.lookup_insert_ne (Ne.symm hk), ih, if_neg hk, add_zero]
      simp only [hmem]

theorem mem_tally {l : List α} {k : κ} : k ∈ tally key tag amount l ↔ k ∈ l.map key := by
  rw [← AList.lookup_isSome, ← Option.isSome_map, lookup_tally]
  by_cases hk : k ∈ l.map key
  · rw [if_pos hk]
    exact iff_of_true rfl hk
  · rw [if_neg hk]
    exact iff_of_false Bool.false_ne_true hk

/-- An amount that stands at one of the keys only. -/
theorem sum_map_single {keys : List κ} (hnodup : keys.Nodup) {k₀ : κ} (hmem : k₀ ∈ keys) (m : M) :
    (keys.map fun k => if k₀ = k then m else 0).sum = m := by
  induction keys with
  | nil => cases hmem
  | cons k keys ih =>
    obtain ⟨hk, hnodup⟩ := List.nodup_cons.mp hnodup
    rw [List.map_cons, List.sum_cons]
    by_cases heq : k₀ = k
    · subst heq
      have hrest : (keys.map fun k => if k₀ = k then m else 0) = keys.map fun _ => 0 :=
        List.map_congr_left fun k' hk' => if_neg fun h : k₀ = k' => hk (h ▸ hk')
      rw [if_pos rfl, hrest]
      simp
    · rw [if_neg heq, zero_add]
      exact ih hnodup ((List.mem_cons.mp hmem).resolve_left heq)

/-- **The amounts by key are all amounts.** -/
theorem sum_fibers {l : List α} {keys : List κ} (hnodup : keys.Nodup)
    (hkeys : ∀ a ∈ l, key a ∈ keys) :
    (keys.map (fiber key amount l)).sum = (l.map amount).sum := by
  induction l using List.reverseRecOn with
  | nil =>
    have hzero : keys.map (fiber key amount []) = keys.map fun _ => 0 := rfl
    rw [hzero]
    simp
  | append_singleton l a ih =>
    have hsplit : keys.map (fiber key amount (l ++ [a])) =
        keys.map fun k => fiber key amount l k + if key a = k then amount a else 0 :=
      List.map_congr_left fun k _ => fiber_concat l a k
    rw [hsplit, List.sum_map_add, ih fun b hb => hkeys b (List.mem_append_left _ hb),
      List.map_append, List.sum_append]
    rw [sum_map_single hnodup (hkeys a (List.mem_append_right _ (List.mem_singleton_self a)))]
    simp

end Tally
