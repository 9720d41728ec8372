import Mathlib.Data.List.Induction
import Mathlib.Data.List.Nodup
import Mathlib.Data.Set.Function
import Std.Data.ExtTreeMap

/-!
# Renaming the keys of an ordered map

An ordered map is gone through from its least key to its greatest, and each entry goes under its
new key into another map, where it takes the place of what was there.

Nothing is lost where no two keys get one name (`getElem?_rename`, `size_rename`), and a
renaming is undone by another one that takes the new names back (`rename_rename`).
-/

namespace KeyRenaming

open Std

universe u v

variable {α : Type u} {β : Type v} {cmp : α → α → Ordering} [TransCmp cmp]

/-- Each entry goes under its new key into another map. -/
def rename (f : α → α) (m : ExtTreeMap α β cmp) : ExtTreeMap α β cmp :=
  m.foldl (fun out k v => out.insert (f k) v) ∅

/-- The entries of a list go into a map under new keys. -/
def insertAll (f : α → α) (entries : List (α × β)) (out : ExtTreeMap α β cmp) :
    ExtTreeMap α β cmp :=
  entries.foldl (fun out entry => out.insert (f entry.1) entry.2) out

variable {f g : α → α} {m : ExtTreeMap α β cmp}

theorem rename_eq (f : α → α) (m : ExtTreeMap α β cmp) : rename f m = insertAll f m.toList ∅ :=
  ExtTreeMap.foldl_eq_foldl_toList

variable [LawfulEqCmp cmp]

theorem mem_insertAll {entries : List (α × β)} {out : ExtTreeMap α β cmp} {k : α} :
    k ∈ insertAll f entries out ↔ k ∈ out ∨ ∃ entry ∈ entries, f entry.1 = k := by
  rw [insertAll]
  induction entries generalizing out with
  | nil => simp
  | cons entry entries ih =>
    rw [List.foldl_cons, ih, ExtTreeMap.mem_insert, LawfulEqCmp.compare_eq_iff_eq,
      List.exists_mem_cons_iff, or_comm (a := f entry.1 = k), or_assoc]

/-- An entry that no other one takes the place of is found under its new key. -/
theorem getElem?_insertAll {entries : List (α × β)} {out : ExtTreeMap α β cmp} (entry : α × β)
    (hmem : entry ∈ entries)
    (honly : ∀ other ∈ entries, f other.1 = f entry.1 → other = entry) :
    (insertAll f entries out)[f entry.1]? = some entry.2 := by
  rw [insertAll]
  induction entries using List.reverseRecOn with
  | nil => exact absurd hmem List.not_mem_nil
  | append_singleton entries last ih =>
    rw [List.foldl_append, List.foldl_cons, List.foldl_nil, ExtTreeMap.getElem?_insert]
    by_cases hlast : f last.1 = f entry.1
    · rw [if_pos (LawfulEqCmp.compare_eq_iff_eq.mpr hlast),
        honly last (List.mem_append_right _ (List.mem_singleton_self _)) hlast]
    · rw [if_neg (mt LawfulEqCmp.compare_eq_iff_eq.mp hlast)]
      refine ih ?_ fun other hother => honly other (List.mem_append_left _ hother)
      rcases List.mem_append.mp hmem with h | h
      · exact h
      · exact absurd (List.mem_singleton.mp h ▸ rfl) hlast

/-- The keys are the new names of the old ones. -/
theorem mem_rename {k : α} : k ∈ rename f m ↔ ∃ k' ∈ m, f k' = k := by
  rw [rename_eq, mem_insertAll]
  constructor
  · rintro (hempty | ⟨⟨k', v⟩, hmem, rfl⟩)
    · exact absurd hempty ExtTreeMap.not_mem_empty
    · rw [ExtTreeMap.mem_toList_iff_getElem?_eq_some] at hmem
      exact ⟨k', ExtTreeMap.mem_iff_isSome_getElem?.mpr (hmem ▸ rfl), rfl⟩
  · rintro ⟨k', hmem, rfl⟩
    obtain ⟨v, hv⟩ := Option.isSome_iff_exists.mp (ExtTreeMap.mem_iff_isSome_getElem?.mp hmem)
    exact Or.inr ⟨(k', v), ExtTreeMap.mem_toList_iff_getElem?_eq_some.mpr hv, rfl⟩

/-- Where no two keys get one name, entries keep their values. -/
theorem getElem?_rename (hinj : Set.InjOn f {k | k ∈ m}) {k : α} (hk : k ∈ m) :
    (rename f m)[f k]? = m[k]? := by
  obtain ⟨v, hv⟩ := Option.isSome_iff_exists.mp (ExtTreeMap.mem_iff_isSome_getElem?.mp hk)
  rw [rename_eq, hv]
  refine getElem?_insertAll (k, v)
    (ExtTreeMap.mem_toList_iff_getElem?_eq_some.mpr hv) ?_
  rintro ⟨k', v'⟩ hmem hname
  rw [ExtTreeMap.mem_toList_iff_getElem?_eq_some] at hmem
  obtain rfl := hinj (ExtTreeMap.mem_iff_isSome_getElem?.mpr (hmem ▸ rfl)) hk hname
  rw [hv] at hmem
  rw [Option.some.inj hmem]

/-- Where no two keys get one name, there are as many entries as before. -/
theorem size_rename (hinj : Set.InjOn f {k | k ∈ m}) : (rename f m).size = m.size := by
  have hperm : (rename f m).keys.Perm (m.keys.map f) := by
    refine (List.perm_ext_iff_of_nodup ExtTreeMap.nodup_keys ?_).mpr fun k => ?_
    · refine List.Nodup.map_on (fun a ha b hb => ?_) ExtTreeMap.nodup_keys
      exact hinj (ExtTreeMap.mem_keys.mp ha) (ExtTreeMap.mem_keys.mp hb)
    · rw [ExtTreeMap.mem_keys, mem_rename, List.mem_map]
      simp only [ExtTreeMap.mem_keys]
  rw [← ExtTreeMap.length_keys, hperm.length_eq, List.length_map, ExtTreeMap.length_keys]

/-- **A renaming is undone** by one that takes the new names back. -/
theorem rename_rename (h : ∀ k ∈ m, g (f k) = k) : rename g (rename f m) = m := by
  have hf : Set.InjOn f {k | k ∈ m} := fun a ha b hb hab => by rw [← h a ha, hab, h b hb]
  have hg : Set.InjOn g {k | k ∈ rename f m} := by
    intro a ha b hb hab
    obtain ⟨a', ha', rfl⟩ := mem_rename.mp ha
    obtain ⟨b', hb', rfl⟩ := mem_rename.mp hb
    rw [h a' ha', h b' hb'] at hab
    rw [hab]
  refine ExtTreeMap.ext_getElem? fun k => ?_
  by_cases hk : k ∈ m
  · have hfk : f k ∈ rename f m := mem_rename.mpr ⟨k, hk, rfl⟩
    rw [← getElem?_rename hf hk, ← getElem?_rename hg hfk, h k hk]
  · rw [ExtTreeMap.getElem?_eq_none hk, ExtTreeMap.getElem?_eq_none fun hmem => hk ?_]
    obtain ⟨k', hk', rfl⟩ := mem_rename.mp hmem
    obtain ⟨k'', hk'', rfl⟩ := mem_rename.mp hk'
    rw [h k'' hk'']
    exact hk''

end KeyRenaming
