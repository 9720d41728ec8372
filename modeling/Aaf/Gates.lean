import Mathlib.Data.List.Chain

/-!
# Gates

Paths of a relation, as chains, and areas that can be left through some points only. What a path
must have passed to be outside such an area is read off one closure property of the relation.
-/

namespace Gates

variable {α : Type} {R : α → α → Prop} {area gate : α → Prop}

/-- **Gates.** A path from an area that can be left through a gate only has passed the gate when
it is outside. -/
theorem cross (hclosed : ∀ a b, area a → R a b → area b ∨ gate b) {a : α} {pre post : List α}
    {b : α} (hpath : List.IsChain R (a :: (pre ++ b :: post))) (ha : area a) (hb : ¬ area b)
    (hgate : ¬ gate b) : ∃ before g after, pre = before ++ g :: after ∧ gate g := by
  induction pre generalizing a with
  | nil =>
    have hstep := (List.isChain_cons_cons.mp hpath).1
    exact absurd (hclosed a b ha hstep) (not_or_intro hb hgate)
  | cons c pre ih =>
    obtain ⟨hstep, hrest⟩ := List.isChain_cons_cons.mp hpath
    rcases hclosed a c ha hstep with hc | hc
    · obtain ⟨before, g, after, rfl, hg⟩ := ih hrest hc
      exact ⟨c :: before, g, after, rfl, hg⟩
    · exact ⟨[], c, pre, rfl, hc⟩

end Gates
