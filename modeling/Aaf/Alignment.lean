import Mathlib.Data.List.Sort

/-!
# Aligning two lists by position

Two lists of distinct keys, compared entry by entry at equal positions, against the two sets
of keys. A comparison by position finds the keys of one side only when one list begins with
the other (`Aligned.onlyIn_iff`), and for ascending keys only then (`aligned_of_onlyBeyond`).
-/

namespace Alignment

universe u

variable {κ : Type u} {ks ks' : List κ} {a b : κ} {i j : ℕ}

/-- One of the lists begins with the other. -/
def Aligned (ks ks' : List κ) : Prop := ks <+: ks' ∨ ks' <+: ks

instance [DecidableEq κ] (ks ks' : List κ) : Decidable (Aligned ks ks') :=
  inferInstanceAs (Decidable (_ ∨ _))

theorem Aligned.symm (h : Aligned ks ks') : Aligned ks' ks := Or.symm h

theorem aligned_cons : Aligned (a :: ks) (b :: ks') ↔ a = b ∧ Aligned ks ks' := by
  rw [Aligned, Aligned, List.cons_prefix_cons, List.cons_prefix_cons, eq_comm (a := b),
    ← and_or_left]

theorem getElem?_of_begins (h : ks <+: ks') (ha : ks[i]? = some a) : ks'[i]? = some a := by
  obtain ⟨hi, rfl⟩ := List.getElem?_eq_some_iff.mp ha
  exact List.prefix_iff_getElem?.mp h i hi

/-- Aligned lists agree where both have an entry. -/
theorem Aligned.eq_of_position (h : Aligned ks ks') (ha : ks[i]? = some a)
    (hb : ks'[i]? = some b) : a = b := by
  rcases h with h | h
  · exact Option.some.inj ((getElem?_of_begins h ha).symm.trans hb)
  · exact Option.some.inj (ha.symm.trans (getElem?_of_begins h hb))

/-- A key that both have is at one position in both. -/
theorem Aligned.position_eq (h : Aligned ks ks') (hnodup : ks.Nodup) (hnodup' : ks'.Nodup)
    (ha : ks[i]? = some a) (ha' : ks'[j]? = some a) : i = j := by
  rcases h with h | h
  · have hi := getElem?_of_begins h ha
    exact List.getElem?_inj (List.getElem?_eq_some_iff.mp hi).1 hnodup' |>.mp (hi.trans ha'.symm)
  · have hj := getElem?_of_begins h ha'
    exact List.getElem?_inj (List.getElem?_eq_some_iff.mp ha).1 hnodup |>.mp (ha.trans hj.symm)

/-- **By position.** The keys that only one of two aligned lists has are those beyond the end
of the other. -/
theorem Aligned.onlyIn_iff (h : Aligned ks ks') (hnodup : ks.Nodup) (hnodup' : ks'.Nodup) :
    a ∈ ks ∧ a ∉ ks' ↔ ∃ i : ℕ, ks[i]? = some a ∧ ks'[i]? = none := by
  constructor
  · rintro ⟨hmem, hmissing⟩
    obtain ⟨i, hi⟩ := List.mem_iff_getElem?.mp hmem
    refine ⟨i, hi, ?_⟩
    cases hb : ks'[i]? with
    | none => rfl
    | some b =>
      obtain rfl := h.eq_of_position hi hb
      exact absurd (List.mem_of_getElem? hb) hmissing
  · rintro ⟨i, hi, hnone⟩
    refine ⟨List.mem_of_getElem? hi, fun hmem => ?_⟩
    obtain ⟨j, hj⟩ := List.mem_iff_getElem?.mp hmem
    obtain rfl := h.position_eq hnodup hnodup' hi hj
    rw [hnone] at hj
    cases hj

/-- What `ks` has and `ks'` has not lies beyond the end of `ks'`. -/
def OnlyBeyond (ks ks' : List κ) : Prop :=
  ∀ a ∈ ks, a ∉ ks' → ∃ i : ℕ, ks[i]? = some a ∧ ks'[i]? = none

theorem OnlyBeyond.of_cons {l l' : List κ} (hnodup : (a :: l).Nodup)
    (h : OnlyBeyond (a :: l) (a :: l')) : OnlyBeyond l l' := by
  intro c hc hmissing
  have hne : c ≠ a := fun heq => (List.nodup_cons.mp hnodup).1 (heq ▸ hc)
  obtain ⟨i, hi, hnone⟩ := h c (List.mem_cons_of_mem _ hc) fun hmem =>
    (List.mem_cons.mp hmem).elim hne hmissing
  cases i with
  | zero => cases hnone
  | succ i => exact ⟨i, hi, hnone⟩

section

variable [LinearOrder κ]

/-- Ascending lists of the same keys are equal. -/
theorem eq_of_ascending (hsorted : ks.Pairwise (· < ·)) (hsorted' : ks'.Pairwise (· < ·))
    (h : ∀ a, a ∈ ks ↔ a ∈ ks') : ks = ks' := by
  have hperm : ks.Perm ks' :=
    (List.perm_ext_iff_of_nodup (hsorted.imp ne_of_lt) (hsorted'.imp ne_of_lt)).mpr h
  exact hperm.eq_of_pairwise (fun a b _ _ hab hba => absurd hab (lt_asymm hba)) hsorted hsorted'

/-- A head below the other one would be met before that list ends. -/
theorem OnlyBeyond.head_not_lt {l l' : List κ} (h : OnlyBeyond (a :: l) (b :: l'))
    (hsorted : (a :: l).Pairwise (· < ·)) (hsorted' : (b :: l').Pairwise (· < ·)) : ¬ a < b := by
  intro hlt
  have hmissing : a ∉ b :: l' := fun hmem => by
    rcases List.mem_cons.mp hmem with rfl | hmem
    · exact lt_irrefl _ hlt
    · exact lt_asymm hlt (List.rel_of_pairwise_cons hsorted' hmem)
  obtain ⟨i, hi, hnone⟩ := h a List.mem_cons_self hmissing
  cases i with
  | zero => cases hnone
  | succ i => exact lt_irrefl _ (List.rel_of_pairwise_cons hsorted (List.mem_of_getElem? hi))

/-- **Conversely**, ascending lists are aligned when what only one of them has lies beyond the
end of the other. -/
theorem aligned_of_onlyBeyond (hsorted : ks.Pairwise (· < ·)) (hsorted' : ks'.Pairwise (· < ·))
    (h : OnlyBeyond ks ks') (h' : OnlyBeyond ks' ks) : Aligned ks ks' := by
  induction ks generalizing ks' with
  | nil => exact Or.inl List.nil_prefix
  | cons a ks ih =>
    cases ks' with
    | nil => exact Or.inr List.nil_prefix
    | cons b ks' =>
      obtain rfl : a = b := le_antisymm (not_lt.mp (h'.head_not_lt hsorted' hsorted))
        (not_lt.mp (h.head_not_lt hsorted hsorted'))
      refine aligned_cons.mpr ⟨rfl, ih hsorted.of_cons hsorted'.of_cons ?_ ?_⟩
      · exact h.of_cons (hsorted.imp ne_of_lt)
      · exact h'.of_cons (hsorted'.imp ne_of_lt)

end

end Alignment
