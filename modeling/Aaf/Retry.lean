import Aaf.Loop

/-!
# Bounded retries

A call whose answer may be transient is made again, after a pause, at most `max` times. The
call and the pause pass a world along; what either does to it is not looked at here.

`Waited` is what happened before the answer that counts: a number of transient answers, each
with its pause. `run_eq_call` says that every run is that, and then one call whose answer is
final or the last one permitted.
-/

namespace Retry

/-- A call and when to make it again. -/
structure Policy (ω α : Type) where
  /-- retries after the first call -/
  max : ℕ
  call : ω → α × ω
  transient : α → Bool
  /-- the pause after the call of this number, from 0 -/
  pause : ℕ → ω → ω

variable {ω α : Type} (p : Policy ω α)

namespace Policy

/-- The call of number `n`: it is left with an answer, or goes on after the pause. -/
def attempt (w : ω) (n : ℕ) : Except (α × ω) ω :=
  if p.transient (p.call w).1 = true ∧ n < p.max then .ok (p.pause n (p.call w).2)
  else .error (p.call w)

theorem attempt_of_again {w : ω} {n : ℕ} (htransient : p.transient (p.call w).1 = true)
    (hn : n < p.max) : p.attempt w n = .ok (p.pause n (p.call w).2) := if_pos ⟨htransient, hn⟩

theorem attempt_of_final {w : ω} {n : ℕ} (h : ¬ (p.transient (p.call w).1 = true ∧ n < p.max)) :
    p.attempt w n = .error (p.call w) := if_neg h

/-- `for n in 0..=max`. -/
def run (w : ω) : Except (α × ω) ω := (List.range (p.max + 1)).foldlM p.attempt w

end Policy

/-- `n` transient answers from `w` on, each with its pause, come to `w'`. -/
inductive Waited : ℕ → ω → ω → Prop
  | none (w : ω) : Waited 0 w w
  | again {n : ℕ} {w w' : ω} (before : Waited n w w')
      (transient : p.transient (p.call w').1 = true) :
      Waited (n + 1) w (p.pause n (p.call w').2)

variable {p}

/-- What a loop is left with may be read in another way. -/
theorem foldlM_mapError {σ β ε ε' : Type} {step : σ → β → Except ε σ} (f : ε → ε') (l : List β)
    (s : σ) :
    l.foldlM (fun s b => (step s b).mapError f) s = (l.foldlM step s).mapError f := by
  induction l generalizing s with
  | nil => rfl
  | cons b l ih =>
    rw [List.foldlM_cons, List.foldlM_cons]
    rcases step s b with e | t
    · rfl
    · exact ih t

/-- The calls that were made again are those of the loop so far. -/
theorem waited_of_foldlM {n : ℕ} {w w' : ω}
    (h : (List.range n).foldlM p.attempt w = .ok w') : Waited p n w w' ∧ n ≤ p.max := by
  induction n generalizing w' with
  | zero =>
    cases h
    exact ⟨.none w, Nat.zero_le _⟩
  | succ n ih =>
    rw [List.range_succ] at h
    obtain ⟨t, hpre, hlast⟩ := Loop.foldlM_concat_ok.mp h
    obtain ⟨hwaited, -⟩ := ih hpre
    by_cases hagain : p.transient (p.call t).1 = true ∧ n < p.max
    · rw [p.attempt_of_again hagain.1 hagain.2] at hlast
      cases hlast
      exact ⟨.again hwaited hagain.1, hagain.2⟩
    · rw [p.attempt_of_final hagain] at hlast
      cases hlast

/-- **A run is its retries and one answer.** The answer is final, or no retry is left. -/
theorem run_eq_call (p : Policy ω α) (w : ω) :
    ∃ n w', Waited p n w w' ∧ n ≤ p.max ∧ p.run w = .error (p.call w') ∧
      (p.transient (p.call w').1 = true → n = p.max) := by
  rcases hrun : p.run w with left | w'
  · obtain ⟨pre, n, post, w', hsplit, hpre, hleft⟩ := Loop.foldlM_error_iff.mp hrun
    have hget : (List.range (p.max + 1))[pre.length]? = some n := by
      rw [hsplit]
      simp
    obtain ⟨hlt, hn⟩ := List.getElem?_eq_some_iff.mp hget
    rw [List.getElem_range] at hn
    rw [List.length_range] at hlt
    have htake : (List.range (p.max + 1)).take pre.length = pre := by
      rw [hsplit, List.take_left]
    rw [List.take_range, Nat.min_eq_left (Nat.le_of_lt hlt), hn] at htake
    rw [← htake] at hpre
    obtain ⟨hwaited, hle⟩ := waited_of_foldlM hpre
    by_cases hagain : p.transient (p.call w').1 = true ∧ n < p.max
    · rw [p.attempt_of_again hagain.1 hagain.2] at hleft
      cases hleft
    · rw [p.attempt_of_final hagain] at hleft
      cases hleft
      exact ⟨n, w', hwaited, hle, rfl, fun htransient =>
        Nat.le_antisymm hle (Nat.not_lt.mp fun hlt => hagain ⟨htransient, hlt⟩)⟩
  · -- the last call permitted never goes on
    exact absurd (waited_of_foldlM hrun).2 (Nat.not_succ_le_self _)

end Retry
