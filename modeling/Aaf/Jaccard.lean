import Mathlib.Algebra.Order.Field.Rat
import Mathlib.Data.Finset.SymmDiff
import Mathlib.Tactic.Linarith
import Mathlib.Tactic.Positivity

/-!
# Jaccard similarity

How alike two finite sets are: the share of what they have that they have in common. One minus
the similarity is a distance, so that the similarity with a fixed set moves at most as far as the
other set does (`abs_similarity_sub_le`).

The distance is the size of the symmetric difference divided by that of the union. Its triangle
inequality is the one of the size of the symmetric difference, carried over by the Steinhaus
transform (`steinhaus`): a distance in proportion to the round trip that it makes with a fixed
origin, here the empty set, is a distance again.
-/

namespace Jaccard

open scoped symmDiff

/-- The Steinhaus transform keeps the triangle inequality; `p`, `q`, `r` are the sides of a
triangle whose corners are `a`, `b`, `c` from the origin. -/
theorem steinhaus {p q r a b c : ℚ} (hp : 0 ≤ p) (hq : 0 ≤ q) (hr : 0 ≤ r) (ha : 0 ≤ a)
    (hb : 0 ≤ b) (hc : 0 ≤ c) (hside : r ≤ p + q) (hab : b ≤ a + p) (hcb : b ≤ c + q) :
    r / (a + c + r) ≤ p / (a + b + p) + q / (b + c + q) := by
  -- growing a side that is part of its round trip makes the share grow
  have hgrow : r / (a + c + r) ≤ (p + q) / (a + c + (p + q)) := by
    rcases hr.eq_or_lt with rfl | hpos
    · rw [zero_div]
      positivity
    · rw [div_le_div_iff₀ (by linarith) (by linarith)]
      nlinarith [mul_nonneg (add_nonneg ha hc) (sub_nonneg.mpr hside)]
  -- and either part of the way is short for the whole round trip
  have hshare : ∀ {x y z : ℚ}, 0 ≤ x → 0 ≤ y → x + y ≤ z → x / z ≤ x / (x + y) := by
    intro x y z hx hy hle
    rcases hx.eq_or_lt with rfl | hpos
    · rw [zero_div, zero_div]
    · exact div_le_div_of_nonneg_left hx (by linarith) hle
  have hfirst : p / (a + c + (p + q)) ≤ p / (a + b + p) := by
    have h := hshare (y := a + b) (z := a + c + (p + q)) hp (by linarith) (by linarith)
    rwa [add_comm p (a + b)] at h
  have hsecond : q / (a + c + (p + q)) ≤ q / (b + c + q) := by
    have h := hshare (y := b + c) (z := a + c + (p + q)) hq (by linarith) (by linarith)
    rwa [add_comm q (b + c)] at h
  calc r / (a + c + r) ≤ (p + q) / (a + c + (p + q)) := hgrow
    _ = p / (a + c + (p + q)) + q / (a + c + (p + q)) := add_div ..
    _ ≤ p / (a + b + p) + q / (b + c + q) := add_le_add hfirst hsecond

variable {α : Type} [DecidableEq α]

/-- The Jaccard similarity; nothing is exactly like nothing. -/
def similarity (s t : Finset α) : ℚ :=
  if s = ∅ ∧ t = ∅ then 1 else (s ∩ t).card / (s ∪ t).card

/-- The Jaccard distance. -/
def distance (s t : Finset α) : ℚ := 1 - similarity s t

theorem card_symmDiff_add (s t : Finset α) :
    (s ∆ t).card + (s ∩ t).card = (s ∪ t).card := by
  have hunion : s ∆ t ∪ s ∩ t = s ∪ t := symmDiff_sup_inf s t
  rw [← hunion]
  exact (Finset.card_union_of_disjoint (disjoint_symmDiff_inf s t)).symm

/-- The round trip over two sets and the empty one goes twice over their union. -/
theorem card_roundTrip (s t : Finset α) :
    s.card + t.card + (s ∆ t).card = 2 * (s ∪ t).card := by
  have hsum := Finset.card_union_add_card_inter s t
  have hdiff := card_symmDiff_add s t
  omega

theorem distance_eq (s t : Finset α) :
    distance s t = 2 * (s ∆ t).card / (s.card + t.card + (s ∆ t).card) := by
  have htrip : (s.card : ℚ) + t.card + (s ∆ t).card = 2 * (s ∪ t).card := by
    exact_mod_cast card_roundTrip s t
  have hsplit : ((s ∆ t).card : ℚ) + (s ∩ t).card = (s ∪ t).card := by
    exact_mod_cast card_symmDiff_add s t
  rw [htrip, distance, similarity]
  split_ifs with hempty
  · rw [hempty.1, hempty.2]
    simp
  · have hne : ((s ∪ t).card : ℚ) ≠ 0 := by
      rw [Nat.cast_ne_zero, Ne, Finset.card_eq_zero, Finset.union_eq_empty]
      exact hempty
    rw [mul_div_mul_left _ _ two_ne_zero, eq_div_iff hne, sub_mul, div_mul_cancel₀ _ hne]
    linarith

theorem distance_comm (s t : Finset α) : distance s t = distance t s := by
  rw [distance_eq, distance_eq, symmDiff_comm, add_comm (s.card : ℚ)]

theorem card_symmDiff_le (s t u : Finset α) :
    (s ∆ u).card ≤ (s ∆ t).card + (t ∆ u).card :=
  (Finset.card_le_card (symmDiff_triangle s t u)).trans (Finset.card_union_le _ _)

/-- **The triangle inequality.** -/
theorem distance_triangle (s t u : Finset α) : distance s u ≤ distance s t + distance t u := by
  have hcast : ∀ {x y z : ℕ}, x ≤ y + z → (x : ℚ) ≤ y + z := fun h => by exact_mod_cast h
  have horigin : ∀ v w : Finset α, (w.card : ℚ) ≤ v.card + (v ∆ w).card := by
    intro v w
    have h := card_symmDiff_le ∅ v w
    rw [← Finset.bot_eq_empty, bot_symmDiff, bot_symmDiff] at h
    exact hcast h
  have hle := steinhaus (p := (s ∆ t).card) (q := (t ∆ u).card) (r := (s ∆ u).card)
    (a := s.card) (b := t.card) (c := u.card) (by positivity) (by positivity) (by positivity)
    (by positivity) (by positivity) (by positivity) (hcast (card_symmDiff_le s t u))
    (horigin s t) (by rw [symmDiff_comm]; exact horigin u t)
  rw [distance_eq, distance_eq, distance_eq, mul_div_assoc, mul_div_assoc, mul_div_assoc]
  linarith

/-- **Similarity with a fixed set** moves at most as far as the other set does. -/
theorem abs_similarity_sub_le (s t u : Finset α) :
    |similarity s t - similarity s u| ≤ distance t u := by
  have hto := distance_triangle s t u
  have hback := distance_triangle s u t
  rw [distance_comm u t] at hback
  rw [distance, distance] at hto hback
  rw [abs_le]
  constructor
  · linarith
  · linarith

end Jaccard
