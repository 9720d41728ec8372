import Mathlib.Data.List.Sort

/-!
# Stable rankings

Items of any type with a score in a linear order, sorted from the highest score down.
The sort is stable: items with one score stay in the order of the list. So the ranking
of a list depends on the order of its items, as far as there are ties, and this module
says where the order matters.

* An item whose score is reached by at most `k` items is among the first `k` in every
  order (`mem_take_rank`), and one that `k` items surpass in none (`of_mem_take_rank`).
* In between the order decides: listed first, an item stands right after those that
  surpass it (`getElem?_rank_cons`), and listed last, after all that reach its score
  (`notMem_take_rank_concat`).
* The first `k` are the same in every order exactly when there are no ties among them
  (`take_rank_eq`, `noTies_of_take_eq`).
-/

namespace Ranking

universe u v

variable {β : Type u} {κ : Type v} [LinearOrder κ] (score : β → κ)

/-- The item `a` may stand before `b`. -/
def Before (a b : β) : Prop := score b ≤ score a

instance : DecidableRel (Before score) := fun a b => inferInstanceAs (Decidable (score b ≤ score a))

instance : IsTrans β (Before score) := ⟨fun _ _ _ hab hbc => le_trans hbc hab⟩

instance : Std.Total (Before score) := ⟨fun a b => le_total (score b) (score a)⟩

/-- The items from the highest score down, ties in the order of the list. -/
def rank (l : List β) : List β := l.insertionSort (Before score)

variable {score}

theorem perm_rank (l : List β) : (rank score l).Perm l := List.perm_insertionSort _ l

theorem pairwise_rank (l : List β) : (rank score l).Pairwise (Before score) :=
  List.pairwise_insertionSort _ l

theorem mem_rank {l : List β} {a : β} : a ∈ rank score l ↔ a ∈ l := (perm_rank l).mem_iff

/-- `top` are `k` items of the list, or all if there are fewer: in order, and none of the
others has a higher score than one of them. -/
structure IsTop (score : β → κ) (k : ℕ) (l top : List β) : Prop where
  length_eq : top.length = min k l.length
  sorted : top.Pairwise (Before score)
  best : ∃ rest, (top ++ rest).Perm l ∧ ∀ a ∈ top, ∀ b ∈ rest, score b ≤ score a

/-- **The first of a ranking** are the top of the list. -/
theorem isTop_take_rank (k : ℕ) (l : List β) : IsTop score k l ((rank score l).take k) := by
  have hsplit : (rank score l).take k ++ (rank score l).drop k = rank score l :=
    List.take_append_drop k _
  have hsorted : (rank score l).Pairwise (Before score) := pairwise_rank l
  rw [← hsplit, List.pairwise_append] at hsorted
  refine ⟨?_, hsorted.1, (rank score l).drop k, ?_, hsorted.2.2⟩
  · rw [List.length_take, (perm_rank l).length_eq]
  · rw [hsplit]
    exact perm_rank l

/-- The property of an item goes up with the score. -/
def Upward (score : β → κ) (p : β → Bool) : Prop :=
  ∀ a b, score b ≤ score a → p b = true → p a = true

theorem upward_lt (θ : κ) : Upward score fun b => decide (θ < score b) := by
  intro a b hle hb
  exact decide_eq_true (lt_of_lt_of_le (of_decide_eq_true hb) hle)

theorem upward_le (θ : κ) : Upward score fun b => decide (θ ≤ score b) := by
  intro a b hle hb
  exact decide_eq_true (le_trans (of_decide_eq_true hb) hle)

/-- In a ranking the items with an upward property come first. -/
theorem takeWhile_eq_filter {p : β → Bool} (hp : Upward score p) {l : List β}
    (hl : l.Pairwise (Before score)) : l.takeWhile p = l.filter p := by
  induction l with
  | nil => rfl
  | cons a l ih =>
    obtain ⟨hfirst, hrest⟩ := List.pairwise_cons.mp hl
    rcases hpa : p a with _ | _
    · rw [List.takeWhile_cons_of_neg (by simp [hpa]), List.filter_cons_of_neg (by simp [hpa])]
      refine (List.filter_eq_nil_iff.mpr fun b hb hpb => ?_).symm
      rw [hp a b (hfirst b hb) hpb] at hpa
      cases hpa
    · rw [List.takeWhile_cons_of_pos hpa, List.filter_cons_of_pos hpa, ih hrest]

theorem rank_split {p : β → Bool} (hp : Upward score p) (l : List β) :
    ∃ first rest, rank score l = first ++ rest ∧ (∀ a, a ∈ first ↔ a ∈ l ∧ p a = true) ∧
      first.length = l.countP p := by
  refine ⟨(rank score l).takeWhile p, (rank score l).dropWhile p,
    List.takeWhile_append_dropWhile.symm, fun a => ?_, ?_⟩
  · rw [takeWhile_eq_filter hp (pairwise_rank l), List.mem_filter, mem_rank]
  · rw [takeWhile_eq_filter hp (pairwise_rank l), ← List.countP_eq_length_filter]
    exact (perm_rank l).countP_eq p

/-- At most `k` items have the upward property: they are among the first `k`. -/
theorem mem_take_rank {p : β → Bool} (hp : Upward score p) {l : List β} {k : ℕ} {a : β}
    (ha : a ∈ l) (hpa : p a = true) (hk : l.countP p ≤ k) : a ∈ (rank score l).take k := by
  obtain ⟨first, rest, hsplit, hfirst, hlength⟩ := rank_split hp l
  rw [hsplit, List.take_append, List.take_of_length_le (by omega)]
  exact List.mem_append_left _ ((hfirst a).mpr ⟨ha, hpa⟩)

/-- At least `k` items have the upward property: the first `k` all have it. -/
theorem of_mem_take_rank {p : β → Bool} (hp : Upward score p) {l : List β} {k : ℕ} {a : β}
    (hk : k ≤ l.countP p) (ha : a ∈ (rank score l).take k) : p a = true := by
  obtain ⟨first, rest, hsplit, hfirst, hlength⟩ := rank_split hp l
  rw [hsplit, List.take_append_of_le_length (by omega)] at ha
  exact ((hfirst a).mp (List.mem_of_mem_take ha)).2

/-- Listed first, an item stands right after those that surpass it. -/
theorem getElem?_rank_cons (a : β) (l : List β) :
    (rank score (a :: l))[l.countP fun b => decide (score a < score b)]? = some a := by
  have hp : (fun b => decide ¬ Before score a b) = fun b => decide (score a < score b) := by
    funext b
    rw [decide_eq_decide]
    exact not_le
  have hlength : ((rank score l).takeWhile fun b => decide (score a < score b)).length =
      l.countP fun b => decide (score a < score b) := by
    rw [takeWhile_eq_filter (upward_lt _) (pairwise_rank l), ← List.countP_eq_length_filter]
    exact (perm_rank l).countP_eq _
  rw [rank, List.insertionSort_cons, List.orderedInsert_eq_take_drop, hp, ← hlength]
  change (List.takeWhile _ (rank score l) ++ _)[_]? = _
  rw [List.getElem?_append_right le_rfl, Nat.sub_self]
  rfl

theorem mem_take_rank_cons {a : β} {l : List β} {k : ℕ}
    (hk : (l.countP fun b => decide (score a < score b)) < k) :
    a ∈ (rank score (a :: l)).take k := by
  refine List.mem_of_getElem? (i := l.countP fun b => decide (score a < score b)) ?_
  rw [List.getElem?_take_of_lt hk]
  exact getElem?_rank_cons a l

/-- What stands before an item that is listed once. -/
theorem mem_of_pair_sublist {a b : β} {before after : List β} (hnodup : (before ++ a :: after).Nodup)
    (h : List.Sublist [b, a] (before ++ a :: after)) : b ∈ before := by
  have hafter : a ∉ after := (List.nodup_cons.mp (List.nodup_append.mp hnodup).2.1).1
  obtain ⟨left, right, hpair, hleft, hright⟩ := List.sublist_append_iff.mp h
  rcases left with _ | ⟨b', left⟩
  · rw [List.nil_append] at hpair
    rw [← hpair, List.cons_sublist_cons'] at hright
    rcases hright with hright | ⟨-, hright⟩
    · exact absurd (hright.subset (by simp)) hafter
    · exact absurd (hright.subset (by simp)) hafter
  · rw [List.cons_append] at hpair
    rw [(List.cons.inj hpair).1]
    exact hleft.subset List.mem_cons_self

/-- Listed last, an item stands after all that reach its score. -/
theorem notMem_take_rank_concat {a : β} {l : List β} {k : ℕ} (hnodup : (l ++ [a]).Nodup)
    (hk : k ≤ l.countP fun b => decide (score a ≤ score b)) :
    a ∉ (rank score (l ++ [a])).take k := by
  intro hmem
  obtain ⟨before, after, hsplit⟩ := List.append_of_mem hmem
  have hrank : rank score (l ++ [a]) =
      before ++ a :: (after ++ (rank score (l ++ [a])).drop k) := by
    rw [← List.cons_append, ← List.append_assoc, ← hsplit, List.take_append_drop]
  have hrnodup : (before ++ a :: (after ++ (rank score (l ++ [a])).drop k)).Nodup := by
    rw [← hrank]
    exact (perm_rank _).nodup_iff.mpr hnodup
  -- the sort is stable: what reaches the score of `a` stands before it
  have hsubset : l.filter (fun b => decide (score a ≤ score b)) ⊆ before := by
    intro b hb
    obtain ⟨hbl, hle⟩ := List.mem_filter.mp hb
    have hpair : List.Sublist [b, a] (l ++ [a]) :=
      (List.singleton_sublist.mpr hbl).append (List.Sublist.refl [a])
    have hsub : List.Sublist [b, a] (rank score (l ++ [a])) :=
      List.pair_sublist_insertionSort (of_decide_eq_true hle) hpair
    rw [hrank] at hsub
    exact mem_of_pair_sublist hrnodup hsub
  have hfiltered : (l.filter fun b => decide (score a ≤ score b)).Nodup :=
    (List.nodup_append.mp hnodup).1.filter _
  have hlength := (List.subperm_of_subset hfiltered hsubset).length_le
  rw [← List.countP_eq_length_filter] at hlength
  have hshort : before.length < k := by
    have htake : ((rank score (l ++ [a])).take k).length ≤ k := List.length_take_le _ _
    rw [hsplit, List.length_append, List.length_cons] at htake
    omega
  omega

/-! ## Ties -/

/-- Items share a score only where at least `k` items surpass them. -/
def NoTies (score : β → κ) (k : ℕ) (l : List β) : Prop :=
  ∀ a ∈ l, ∀ b ∈ l, a ≠ b → score a = score b →
    k ≤ l.countP fun c => decide (score a < score c)

/-- **Without ties.** If no item among the first `k` shares its score, the first `k` are
the same in every order. -/
theorem take_rank_eq {l l' : List β} {k : ℕ} (hperm : l.Perm l') (hties : NoTies score k l) :
    (rank score l).take k = (rank score l').take k := by
  have hranks : (rank score l).Perm (rank score l') :=
    ((perm_rank l).trans hperm).trans (perm_rank l').symm
  have hsorted : ∀ l : List β, ((rank score l).map score).Pairwise fun x y => y ≤ x := fun l =>
    List.pairwise_map.mpr (pairwise_rank l)
  have hscores : (rank score l).map score = (rank score l').map score :=
    (hranks.map score).eq_of_pairwise (fun x y _ _ hxy hyx => le_antisymm hyx hxy) (hsorted l)
      (hsorted l')
  refine List.ext_getElem? fun i => ?_
  by_cases hi : i < k
  · rw [List.getElem?_take_of_lt hi, List.getElem?_take_of_lt hi]
    have hscore : ((rank score l)[i]?).map score = ((rank score l')[i]?).map score := by
      rw [← List.getElem?_map, ← List.getElem?_map, hscores]
    rcases ha : (rank score l)[i]? with _ | a
    · rcases hb : (rank score l')[i]? with _ | b
      · rfl
      · rw [ha, hb] at hscore
        cases hscore
    · rcases hb : (rank score l')[i]? with _ | b
      · rw [ha, hb] at hscore
        cases hscore
      · rw [ha, hb] at hscore
        have hequal : score a = score b := Option.some.inj hscore
        by_contra hne
        have hamem : a ∈ l := mem_rank.mp (List.mem_of_getElem? ha)
        have hbmem : b ∈ l := hperm.mem_iff.mpr (mem_rank.mp (List.mem_of_getElem? hb))
        have hmany := hties a hamem b hbmem (fun heq => hne (by rw [heq])) hequal
        have htop : a ∈ (rank score l).take k := by
          refine List.mem_of_getElem? (i := i) ?_
          rw [List.getElem?_take_of_lt hi]
          exact ha
        exact lt_irrefl _ (of_decide_eq_true (of_mem_take_rank (upward_lt (score a)) hmany htop))
  · rw [List.getElem?_eq_none, List.getElem?_eq_none]
    · exact le_trans (List.length_take_le _ _) (not_lt.mp hi)
    · exact le_trans (List.length_take_le _ _) (not_lt.mp hi)

/-- Those that surpass an item are counted without the item. -/
theorem countP_lt_of_perm_cons {l rest : List β} {a : β} (hperm : (a :: rest).Perm l) :
    (rest.countP fun c => decide (score a < score c)) =
      l.countP fun c => decide (score a < score c) := by
  rw [← hperm.countP_eq, List.countP_cons_of_neg]
  simp

/-- If the first `k` do not depend on which item is listed first, there are no ties. -/
theorem noTies_of_take_eq {l : List β} {k : ℕ}
    (h : ∀ a ∈ l, ∀ b ∈ l, ∃ rest rest', (a :: rest).Perm l ∧ (b :: rest').Perm l ∧
      (rank score (a :: rest)).take k = (rank score (b :: rest')).take k) :
    NoTies score k l := by
  intro a ha b hb hne hscore
  by_contra hfew
  rw [not_le] at hfew
  obtain ⟨rest, rest', hperm, hperm', htake⟩ := h a ha b hb
  -- both would stand right after those that surpass them, at one position
  have hfirst : (rank score (a :: rest))[l.countP fun c => decide (score a < score c)]? = some a := by
    rw [← countP_lt_of_perm_cons hperm]
    exact getElem?_rank_cons a rest
  have hfirst' : (rank score (b :: rest'))[l.countP fun c => decide (score a < score c)]? =
      some b := by
    rw [hscore, ← countP_lt_of_perm_cons hperm']
    exact getElem?_rank_cons b rest'
  rw [← List.getElem?_take_of_lt hfew] at hfirst hfirst'
  rw [htake, hfirst'] at hfirst
  exact hne (Option.some.inj hfirst).symm

/-! ## Items whose place is settled -/

/-- At most `k` items reach the score of `a`, or at least `k` surpass it. -/
def Settled (score : β → κ) (k : ℕ) (l : List β) (a : β) : Prop :=
  (l.countP fun c => decide (score a ≤ score c)) ≤ k ∨
    k ≤ l.countP fun c => decide (score a < score c)

/-- A settled item is among the first `k` in all orders or in none. -/
theorem Settled.mem_take_iff {l l' l'' : List β} {k : ℕ} {a : β} (h : Settled score k l a)
    (ha : a ∈ l) (hperm : l'.Perm l) (hperm' : l''.Perm l) :
    a ∈ (rank score l').take k ↔ a ∈ (rank score l'').take k := by
  rcases h with hfew | hmany
  · have hin : ∀ {m : List β}, m.Perm l → a ∈ (rank score m).take k := fun {m} hm =>
      mem_take_rank (upward_le (score a)) (hm.mem_iff.mpr ha) (decide_eq_true le_rfl)
        (by rw [hm.countP_eq]; exact hfew)
    exact iff_of_true (hin hperm) (hin hperm')
  · have hout : ∀ {m : List β}, m.Perm l → a ∉ (rank score m).take k := fun {m} hm hmem =>
      lt_irrefl _ (of_decide_eq_true
        (of_mem_take_rank (upward_lt (score a)) (by rw [hm.countP_eq]; exact hmany) hmem))
    exact iff_of_false (hout hperm) (hout hperm')

/-- Unless its place is settled, an item is among the first `k` when it is listed first,
and not when it is listed last. -/
theorem settled_of_mem_take_iff {l before after : List β} {k : ℕ} {a : β} (hnodup : l.Nodup)
    (hfirst : (a :: after).Perm l) (hlast : (before ++ [a]).Perm l)
    (h : a ∈ (rank score (a :: after)).take k ↔ a ∈ (rank score (before ++ [a])).take k) :
    Settled score k l a := by
  by_contra hnot
  rw [Settled, not_or, not_le, not_le] at hnot
  obtain ⟨hmany, hfew⟩ := hnot
  have hin : a ∈ (rank score (a :: after)).take k := by
    refine mem_take_rank_cons ?_
    rw [countP_lt_of_perm_cons hfirst]
    exact hfew
  refine notMem_take_rank_concat (hlast.nodup_iff.mpr hnodup) ?_ (h.mp hin)
  rw [← hlast.countP_eq, List.countP_append, List.countP_singleton] at hmany
  simp only [le_refl, decide_true, if_true] at hmany
  omega

/-! ## The first item -/

theorem le_of_rank_eq_cons {l rest : List β} {a : β} (h : rank score l = a :: rest) :
    ∀ b ∈ l, score b ≤ score a := by
  intro b hb
  have hmem : b ∈ rank score l := mem_rank.mpr hb
  have hpairs : (rank score l).Pairwise (Before score) := pairwise_rank l
  rw [h] at hmem hpairs
  rcases List.mem_cons.mp hmem with rfl | hrest
  · exact le_rfl
  · exact (List.pairwise_cons.mp hpairs).1 b hrest

/-- Listed first, a best item is ranked first. -/
theorem rank_cons_of_le {l : List β} {a : β} (h : ∀ b ∈ l, score b ≤ score a) :
    ∃ rest, rank score (a :: l) = a :: rest := by
  have hzero : (l.countP fun b => decide (score a < score b)) = 0 := by
    rw [List.countP_eq_zero]
    intro b hb hlt
    exact absurd (of_decide_eq_true hlt) (not_lt.mpr (h b hb))
  have hfirst : (rank score (a :: l))[0]? = some a := by
    rw [← hzero]
    exact getElem?_rank_cons a l
  rcases hrank : rank score (a :: l) with _ | ⟨b, rest⟩
  · rw [hrank] at hfirst
    cases hfirst
  · rw [hrank] at hfirst
    cases hfirst
    exact ⟨rest, rfl⟩

/-- The best item is ranked first in every order. -/
theorem rank_eq_cons_of_lt {l : List β} {a : β} (ha : a ∈ l)
    (h : ∀ b ∈ l, b ≠ a → score b < score a) : ∃ rest, rank score l = a :: rest := by
  have hranked : a ∈ rank score l := mem_rank.mpr ha
  rcases hrank : rank score l with _ | ⟨b, rest⟩
  · rw [hrank] at hranked
    cases hranked
  · by_cases hb : b = a
    · exact ⟨rest, by rw [hb]⟩
    · have hmem : b ∈ l := by
        refine mem_rank.mp (?_ : b ∈ rank score l)
        rw [hrank]
        exact List.mem_cons_self
      exact absurd (le_of_rank_eq_cons hrank a ha) (not_le.mpr (h b hmem hb))

end Ranking
