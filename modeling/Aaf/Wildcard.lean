import Mathlib.Data.List.Basic

/-!
# Wildcards after a separator

Patterns over an arbitrary alphabet with two distinguished letters, a separator and a
star. A pattern covers itself; a lone star covers everything; and a pattern that ends in
a separator and a star covers what goes on after that separator.

The patterns are words of the same alphabet, so that a word that is covered may cover
other words in turn. Coverage is a preorder all the same: `Covers.refl`, `Covers.trans`.
-/

namespace Wildcard

universe u

variable {α : Type u} {sep star : α} {g m r : List α}

/-- The pattern `g` covers the word `r`. -/
def Covers (sep star : α) (g r : List α) : Prop :=
  g = r ∨ g = [star] ∨ ∃ stem, g = stem ++ [sep, star] ∧ stem ++ [sep] <+: r

theorem Covers.refl (sep star : α) (g : List α) : Covers sep star g g := Or.inl rfl

/-- A pattern that has no star at its end covers itself only. -/
theorem Covers.eq_of_getLast (h : Covers sep star g r) (hlast : g.getLast? ≠ some star) :
    g = r := by
  rcases h with h | h | ⟨stem, h, -⟩
  · exact h
  · subst h
    exact absurd rfl hlast
  · subst h
    exact absurd (by simp) hlast

/-- A stem that leads to a longer pattern leads to its stem as well. -/
theorem stem_prefix_stem (hne : sep ≠ star) {stem stem' : List α}
    (h : stem ++ [sep] <+: stem' ++ [sep, star]) : stem ++ [sep] <+: stem' ++ [sep] := by
  have hsplit : stem' ++ [sep, star] = (stem' ++ [sep]) ++ [star] := by simp
  rw [hsplit, List.prefix_concat_iff] at h
  rcases h with h | h
  · -- the two words would end in the separator and in the star
    have hlast := congrArg List.getLast? h
    simp at hlast
    exact absurd hlast hne
  · exact h

theorem Covers.trans (hne : sep ≠ star) (h : Covers sep star g m) (h' : Covers sep star m r) :
    Covers sep star g r := by
  rcases h with rfl | rfl | ⟨stem, rfl, hstem⟩
  · exact h'
  · exact Or.inr (Or.inl rfl)
  · refine Or.inr (Or.inr ⟨stem, rfl, ?_⟩)
    rcases h' with rfl | rfl | ⟨stem', rfl, hstem'⟩
    · exact hstem
    · -- a star alone does not start with a separator
      rcases List.prefix_concat_iff.mp (show stem ++ [sep] <+: [] ++ [star] from hstem) with h | h
      · exact absurd (by simpa using congrArg List.getLast? h) hne
      · exact absurd (List.prefix_nil.mp h) (by simp)
    · exact (stem_prefix_stem hne hstem).trans hstem'

end Wildcard
