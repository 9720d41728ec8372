import Aaf.Machine

/-!
# Two levels of a machine, and callers that do not notice each other

A machine refines another one when each call is answered alike in states that `abs` relates, and
leaves such states behind: then it answers every run alike (`Refines.replies`), and the states
along it stay related (`Refines.abs_run`).

Some of the calls may be of interest, and two states the `same` for them. When the other calls
leave a state the same, and the calls of interest are answered alike in states that are the same
and leave such states behind, then they are answered as if nobody else had called:
`Isolated.answers_filter`.
-/

namespace Isolation

open Machine

universe u v w

/-! ## Refinement -/

/-- The machine `exec` computes the machine `spec`, seen through `abs`. -/
structure Refines {σ : Type u} {τ : Type u} {α : Type v} {ρ : Type w} (exec : σ → α → ρ × σ)
    (spec : τ → α → ρ × τ) (I : σ → Prop) (abs : σ → τ) : Prop where
  kept : ∀ s a, I s → I (exec s a).2
  reply : ∀ s a, I s → (exec s a).1 = (spec (abs s) a).1
  next : ∀ s a, I s → abs (exec s a).2 = (spec (abs s) a).2

namespace Refines

variable {σ τ : Type u} {α : Type v} {ρ : Type w} {exec : σ → α → ρ × σ}
  {spec : τ → α → ρ × τ} {I : σ → Prop} {abs : σ → τ}

theorem abs_run (h : Refines exec spec I abs) {s : σ} (hs : I s) (calls : List α) :
    abs (run exec s calls) = run spec (abs s) calls := by
  induction calls generalizing s with
  | nil => rfl
  | cons a calls ih =>
    rw [run, run, ih (h.kept s a hs), h.next s a hs]

/-- **Refinement of runs.** Every run is answered as the other machine answers it. -/
theorem replies (h : Refines exec spec I abs) {s : σ} (hs : I s) (calls : List α) :
    (trace exec s calls).map Step.reply = (trace spec (abs s) calls).map Step.reply := by
  induction calls generalizing s with
  | nil => rfl
  | cons a calls ih =>
    rw [trace, trace, List.map_cons, List.map_cons, ih (h.kept s a hs), h.next s a hs, stepAt,
      stepAt, h.reply s a hs]

end Refines

/-! ## Isolation -/

section Answers

variable {σ : Type u} {α : Type v} {ρ : Type w} (exec : σ → α → ρ × σ) (mine : α → Bool)

/-- What the calls of interest are answered, in their order. -/
def answers (s : σ) (calls : List α) : List ρ :=
  ((trace exec s calls).filter fun st => mine st.call).map Step.reply

variable {exec mine} {s : σ} {a : α} {calls : List α}

@[simp] theorem answers_nil : answers exec mine s [] = [] := rfl

theorem answers_cons_of_mine (h : mine a = true) :
    answers exec mine s (a :: calls) = (exec s a).1 :: answers exec mine (exec s a).2 calls := by
  simp [answers, trace, stepAt, h]

theorem answers_cons_of_not_mine (h : mine a = false) :
    answers exec mine s (a :: calls) = answers exec mine (exec s a).2 calls := by
  simp [answers, trace, stepAt, h]

/-- A machine and the one that it refines answer the calls of interest alike. -/
theorem Refines.answers {τ : Type u} {spec : τ → α → ρ × τ} {I : σ → Prop} {abs : σ → τ}
    (h : Refines exec spec I abs) (hs : I s) (calls : List α) :
    answers exec mine s calls = answers spec mine (abs s) calls := by
  induction calls generalizing s with
  | nil => rfl
  | cons a calls ih =>
    have hrest := ih (h.kept s a hs)
    rw [h.next s a hs] at hrest
    cases hmine : mine a with
    | true =>
      rw [answers_cons_of_mine hmine, answers_cons_of_mine hmine, h.reply s a hs, hrest]
    | false => rw [answers_cons_of_not_mine hmine, answers_cons_of_not_mine hmine, hrest]

end Answers

/-- The calls of `mine` are answered by what `same` compares, and no other call changes it. -/
structure Isolated {σ : Type u} {α : Type v} {ρ : Type w} (exec : σ → α → ρ × σ)
    (same : σ → σ → Prop) (mine : α → Bool) : Prop where
  unseen : ∀ s t a, mine a = false → same s t → same (exec s a).2 t
  reply : ∀ s t a, mine a = true → same s t → (exec s a).1 = (exec t a).1
  next : ∀ s t a, mine a = true → same s t → same (exec s a).2 (exec t a).2

/-- **Noninterference.** The calls of interest are answered as if there were no others, and leave
the same. -/
theorem Isolated.answers_filter {σ : Type u} {α : Type v} {ρ : Type w} {exec : σ → α → ρ × σ}
    {same : σ → σ → Prop} {mine : α → Bool} (h : Isolated exec same mine) {s t : σ}
    (hsame : same s t) (calls : List α) :
    answers exec mine s calls = (trace exec t (calls.filter mine)).map Step.reply ∧
      same (run exec s calls) (run exec t (calls.filter mine)) := by
  induction calls generalizing s t with
  | nil => exact ⟨rfl, hsame⟩
  | cons a calls ih =>
    cases hmine : mine a with
    | true =>
      obtain ⟨hanswers, hrun⟩ := ih (h.next s t a hmine hsame)
      rw [answers_cons_of_mine hmine, List.filter_cons_of_pos hmine, trace, List.map_cons,
        hanswers, h.reply s t a hmine hsame]
      exact ⟨rfl, hrun⟩
    | false =>
      rw [answers_cons_of_not_mine hmine, List.filter_cons_of_neg (by simp [hmine])]
      exact ih (h.unseen s t a hmine hsame)

end Isolation
