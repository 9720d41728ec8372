import Mathlib.Algebra.BigOperators.Group.List.Basic
import Mathlib.Algebra.Order.Ring.Defs
import Mathlib.Data.List.Induction
import Mathlib.Tactic.Linarith

/-!
# Meters

A meter starts at a limit, and each use is taken off it, but never below zero. What it shows is the
limit less the total as long as nothing is taken off, or put back, once the total is above the
limit: `Settled`.

A use `Overruns` the limit when it takes something off and leaves the total above the limit. In a
settled list there is at most one such use (`Settled.onceOver`).
-/

namespace Meter

universe u v

variable {α : Type u} {R : Type v} [CommRing R]

/-- The total that has been used. -/
def total (used : α → R) (l : List α) : R := (l.map used).sum

section Definitions

variable [LinearOrder R] (used : α → R) (limit : R)

/-- Once the total is above the limit, nothing is used any more. -/
def Settled (l : List α) : Prop :=
  ∀ pre a post, l = pre ++ a :: post → limit < total used pre → used a = 0

/-- After `pre` the use of `a` leaves the total above the limit. -/
def Overruns (pre : List α) (a : α) : Prop := 0 < used a ∧ limit < total used (pre ++ [a])

/-- At most one use overruns the limit. -/
def OnceOver (l : List α) : Prop :=
  ∀ pre a mid b post, l = pre ++ a :: mid ++ b :: post → Overruns used limit pre a →
    ¬ Overruns used limit (pre ++ a :: mid) b

end Definitions

variable {used : α → R} {limit : R} {l pre more : List α} {a : α}

@[simp] theorem total_nil : total used ([] : List α) = 0 := rfl

theorem total_append : total used (pre ++ more) = total used pre + total used more := by
  rw [total, List.map_append, List.sum_append, total, total]

theorem total_concat : total used (l ++ [a]) = total used l + used a := by
  rw [total_append, total, total, List.map_singleton, List.sum_singleton]

variable [LinearOrder R]

theorem settled_nil : Settled used limit [] := by
  intro pre a post h
  cases pre <;> cases h

theorem settled_concat_iff :
    Settled used limit (l ++ [a]) ↔
      Settled used limit l ∧ (limit < total used l → used a = 0) := by
  constructor
  · intro h
    exact ⟨fun pre b post hl => h pre b (post ++ [a]) (by simp [hl]), h l a [] rfl⟩
  · rintro ⟨hl, ha⟩ pre b post hsplit hpre
    rcases List.eq_nil_or_concat post with rfl | ⟨post, z, rfl⟩
    · obtain ⟨rfl, hlast⟩ := List.append_inj' hsplit rfl
      obtain rfl := (List.cons.inj hlast).1
      exact ha hpre
    · have hcut : l ++ [a] = (pre ++ b :: post) ++ [z] := by simpa using hsplit
      exact hl pre b post (List.append_inj' hcut rfl).1 hpre

/-- In a settled list nothing is used behind a total above the limit. -/
theorem Settled.behind (h : Settled used limit (pre ++ more)) (hpre : limit < total used pre) :
    total used (pre ++ more) = total used pre ∧ ∀ b ∈ more, used b = 0 := by
  induction more using List.reverseRecOn with
  | nil => exact ⟨by rw [List.append_nil], fun b hb => absurd hb List.not_mem_nil⟩
  | append_singleton more a ih =>
    rw [← List.append_assoc] at h ⊢
    obtain ⟨hmore, ha⟩ := settled_concat_iff.mp h
    obtain ⟨htotal, hzero⟩ := ih hmore
    have hused : used a = 0 := ha (htotal ▸ hpre)
    refine ⟨by rw [total_concat, htotal, hused, add_zero], fun b hb => ?_⟩
    rcases List.mem_append.mp hb with hb | hb
    · exact hzero b hb
    · rw [List.mem_singleton.mp hb, hused]

theorem Settled.of_append (h : Settled used limit (pre ++ more)) : Settled used limit pre :=
  fun p b post hsplit => h p b (post ++ more) (by simp [hsplit])

/-- **At most one use of a settled list overruns the limit.** -/
theorem Settled.onceOver (h : Settled used limit l) : OnceOver used limit l := by
  rintro pre a mid b post rfl ⟨-, hover⟩ ⟨hb, -⟩
  have hsplit : pre ++ a :: mid ++ b :: post = (pre ++ [a]) ++ (mid ++ b :: post) := by simp
  rw [hsplit] at h
  have hzero := (h.behind hover).2 b (by simp)
  rw [hzero] at hb
  exact lt_irrefl 0 hb

theorem OnceOver.of_append (h : OnceOver used limit (pre ++ more)) : OnceOver used limit pre :=
  fun p b mid c post hsplit => h p b mid c (post ++ more) (by simp [hsplit])

variable [IsStrictOrderedRing R]

/-- A total above the limit was left by some use. -/
theorem exists_overruns (hlimit : 0 ≤ limit) (h : limit < total used l) :
    ∃ pre a post, l = pre ++ a :: post ∧ Overruns used limit pre a := by
  induction l using List.reverseRecOn with
  | nil => exact absurd h (not_lt.mpr hlimit)
  | append_singleton l a ih =>
    by_cases hl : limit < total used l
    · obtain ⟨pre, b, post, rfl, hover⟩ := ih hl
      exact ⟨pre, b, post ++ [a], by simp, hover⟩
    · refine ⟨l, a, [], rfl, ?_, h⟩
      rw [total_concat] at h
      linarith [not_lt.mp hl]

/-! ## What the meter shows -/

/-- After a use of a settled list the meter shows the limit less the total. -/
theorem shows_concat (h : limit < total used l → used a = 0) :
    max (max (limit - total used l) 0 - used a) 0 = max (limit - total used (l ++ [a])) 0 := by
  rw [total_concat]
  by_cases hl : limit < total used l
  · have hneg : limit - total used l ≤ 0 := by linarith
    rw [h hl, max_eq_right hneg, sub_zero, max_self, add_zero, max_eq_right hneg]
  · have hpos : 0 ≤ limit - total used l := by linarith [not_lt.mp hl]
    rw [max_eq_left hpos, sub_sub]

/-- A use that the meter shows as it should, and that is no second one to overrun the limit, does
not use anything behind a total above it. -/
theorem used_eq_zero (hlimit : 0 ≤ limit) (hover : OnceOver used limit (l ++ [a]))
    (hshows : max (max (limit - total used l) 0 - used a) 0 =
      max (limit - total used (l ++ [a])) 0) (hl : limit < total used l) : used a = 0 := by
  have hneg : limit - total used l ≤ 0 := by linarith
  rcases lt_trichotomy (used a) 0 with hused | hused | hused
  · -- the meter goes up by more than the total goes down to the limit
    rw [max_eq_right hneg, zero_sub, total_concat,
      max_eq_left (by linarith : (0 : R) ≤ -used a)] at hshows
    have hlt : max (limit - (total used l + used a)) 0 < -used a :=
      max_lt (by linarith) (by linarith)
    exact absurd hshows hlt.ne'
  · exact hused
  · obtain ⟨pre, b, post, rfl, hb⟩ := exists_overruns hlimit hl
    refine absurd ⟨hused, ?_⟩ (hover pre b post a [] (by simp) hb)
    rw [total_concat]
    linarith

end Meter
