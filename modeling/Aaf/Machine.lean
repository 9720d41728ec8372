import Mathlib.Data.List.Induction

/-!
# Runs of a machine that answers

A machine takes a call in a state, answers it and moves on. Its `trace` on a list of
calls keeps, for each of them, the state it found, the answer and the state it left.
A property of whole runs is a property of traces, and it is proved one call at a time
at the end of the run: `run_concat`, `trace_concat`, `run_invariant`,
`forall_run_iff` and `forall_later_iff`.
-/

namespace Machine

universe u v w

/-- One call of a run. -/
structure Step (σ : Type u) (α : Type v) (ρ : Type w) where
  before : σ
  call : α
  reply : ρ
  after : σ

variable {σ : Type u} {α : Type v} {ρ : Type w}

/-- The machine `exec` takes the call `a` in the state `s`. -/
def stepAt (exec : σ → α → ρ × σ) (s : σ) (a : α) : Step σ α ρ :=
  ⟨s, a, (exec s a).1, (exec s a).2⟩

/-- The state after the calls. -/
def run (exec : σ → α → ρ × σ) : σ → List α → σ
  | s, [] => s
  | s, a :: calls => run exec (exec s a).2 calls

/-- The steps of a run. -/
def trace (exec : σ → α → ρ × σ) : σ → List α → List (Step σ α ρ)
  | _, [] => []
  | s, a :: calls => stepAt exec s a :: trace exec (exec s a).2 calls

variable {exec : σ → α → ρ × σ}

@[simp]
theorem run_nil (s : σ) : run exec s [] = s := rfl

@[simp]
theorem trace_nil (s : σ) : trace exec s [] = [] := rfl

theorem run_append (s : σ) (calls more : List α) :
    run exec s (calls ++ more) = run exec (run exec s calls) more := by
  induction calls generalizing s with
  | nil => rfl
  | cons a calls ih => exact ih _

theorem run_concat (s : σ) (calls : List α) (a : α) :
    run exec s (calls ++ [a]) = (exec (run exec s calls) a).2 :=
  run_append s calls [a]

theorem trace_append (s : σ) (calls more : List α) :
    trace exec s (calls ++ more) = trace exec s calls ++ trace exec (run exec s calls) more := by
  induction calls generalizing s with
  | nil => rfl
  | cons a calls ih =>
    rw [List.cons_append, trace, trace, ih]
    rfl

theorem trace_concat (s : σ) (calls : List α) (a : α) :
    trace exec s (calls ++ [a]) = trace exec s calls ++ [stepAt exec (run exec s calls) a] :=
  trace_append s calls [a]

@[simp]
theorem trace_map_call (s : σ) (calls : List α) :
    (trace exec s calls).map Step.call = calls := by
  induction calls generalizing s with
  | nil => rfl
  | cons a calls ih =>
    rw [trace, List.map_cons, ih]
    rfl

/-- The k-th step takes the k-th call in the state the calls before it led to. -/
theorem getElem?_trace (s : σ) (calls : List α) (k : ℕ) :
    (trace exec s calls)[k]? = calls[k]?.map (stepAt exec (run exec s (calls.take k))) := by
  induction calls generalizing s k with
  | nil => rfl
  | cons a calls ih =>
    cases k with
    | zero => rfl
    | succ k =>
      rw [trace, List.getElem?_cons_succ, List.getElem?_cons_succ, ih]
      rfl

/-- What holds of the steps' calls holds of the calls. -/
theorem forall_calls {P : α → Prop} {s : σ} {calls : List α}
    (h : ∀ st ∈ trace exec s calls, P st.call) : ∀ a ∈ calls, P a := by
  intro a ha
  have hmem : a ∈ (trace exec s calls).map Step.call := by
    rw [trace_map_call]
    exact ha
  obtain ⟨st, hst, hcall⟩ := List.mem_map.mp hmem
  rw [← hcall]
  exact h st hst

/-- A history is cut where its calls are. -/
theorem trace_eq_append {s : σ} {calls : List α} {pre post : List (Step σ α ρ)}
    (h : trace exec s calls = pre ++ post) :
    ∃ before after, calls = before ++ after ∧ pre = trace exec s before ∧
      post = trace exec (run exec s before) after := by
  induction calls generalizing s pre with
  | nil =>
    rw [trace_nil] at h
    obtain ⟨rfl, rfl⟩ := List.append_eq_nil_iff.mp h.symm
    exact ⟨[], [], rfl, rfl, rfl⟩
  | cons a calls ih =>
    rcases pre with _ | ⟨first, pre⟩
    · exact ⟨[], a :: calls, rfl, rfl, h.symm⟩
    · obtain ⟨rfl, hrest⟩ := List.cons.inj h
      obtain ⟨before, after, rfl, rfl, hpost⟩ := ih hrest
      exact ⟨a :: before, after, rfl, rfl, hpost⟩

/-- Where a step of a run stands in it. -/
theorem trace_eq_append_cons {s : σ} {calls : List α} {pre post : List (Step σ α ρ)}
    {st : Step σ α ρ} (h : trace exec s calls = pre ++ st :: post) :
    ∃ before after, calls = before ++ st.call :: after ∧ pre = trace exec s before ∧
      st = stepAt exec (run exec s before) st.call ∧
      post = trace exec st.after after := by
  obtain ⟨before, rest, rfl, hpre, hrest⟩ := trace_eq_append h
  rcases rest with _ | ⟨a, after⟩
  · rw [trace_nil] at hrest
    cases hrest
  · obtain ⟨rfl, hpost⟩ := List.cons.inj hrest
    exact ⟨before, after, rfl, hpre, rfl, hpost⟩

/-- The steps of a run are its calls, each taken where the calls before it led. -/
theorem mem_trace_iff {s : σ} {calls : List α} {st : Step σ α ρ} :
    st ∈ trace exec s calls ↔
      ∃ before a after, calls = before ++ a :: after ∧
        st = stepAt exec (run exec s before) a := by
  refine ⟨fun h => ?_, ?_⟩
  · obtain ⟨pre, post, hsplit⟩ := List.append_of_mem h
    obtain ⟨before, after, hcalls, -, hst, -⟩ := trace_eq_append_cons hsplit
    exact ⟨before, st.call, after, hcalls, hst⟩
  · rintro ⟨before, a, after, rfl, rfl⟩
    rw [trace_append, trace]
    exact List.mem_append_right _ List.mem_cons_self

theorem forall_trace_iff {Q : Step σ α ρ → Prop} {s : σ} {calls : List α} :
    (∀ st ∈ trace exec s calls, Q st) ↔
      ∀ pre a post, calls = pre ++ a :: post → Q (stepAt exec (run exec s pre) a) := by
  refine ⟨fun h pre a post hcalls => h _ (mem_trace_iff.mpr ⟨pre, a, post, hcalls, rfl⟩), ?_⟩
  intro h st hst
  obtain ⟨pre, a, post, hcalls, rfl⟩ := mem_trace_iff.mp hst
  exact h pre a post hcalls

/-- What holds at the start and is kept by the calls of a run holds after it. -/
theorem run_invariant_of_mem {I : σ → Prop} {s : σ} {calls : List α} (h₀ : I s)
    (hstep : ∀ s, ∀ a ∈ calls, I s → I (exec s a).2) : I (run exec s calls) := by
  induction calls generalizing s with
  | nil => exact h₀
  | cons a calls ih =>
    exact ih (hstep s a List.mem_cons_self h₀)
      fun s' a' ha' => hstep s' a' (List.mem_cons_of_mem _ ha')

/-- **Invariant rule.** What holds at the start and is kept by every call holds after
every run. -/
theorem run_invariant {I : σ → Prop} {s : σ} (h₀ : I s) (hstep : ∀ s a, I s → I (exec s a).2)
    (calls : List α) : I (run exec s calls) :=
  run_invariant_of_mem h₀ fun s a _ => hstep s a

/-- **Property of every state.** Among the states that calls lead to, let a step lead
from a good state to a good one exactly when `Q` holds of it. Then all states of a run
are good exactly when `Q` holds of all its steps. -/
theorem forall_run_iff {I P : σ → Prop} {Q : Step σ α ρ → Prop} {s : σ}
    (hinv : ∀ calls, I (run exec s calls)) (h₀ : P s)
    (hstep : ∀ s a, I s → P s → (P (exec s a).2 ↔ Q (stepAt exec s a))) (calls : List α) :
    (∀ pre post, calls = pre ++ post → P (run exec s pre)) ↔
      ∀ st ∈ trace exec s calls, Q st := by
  refine ⟨fun h st hst => ?_, fun h pre => ?_⟩
  · obtain ⟨before, a, after, hcalls, rfl⟩ := mem_trace_iff.mp hst
    refine (hstep _ a (hinv before) (h before (a :: after) hcalls)).mp ?_
    rw [← run_concat]
    refine h (before ++ [a]) after ?_
    rw [hcalls, List.append_assoc]
    rfl
  · induction pre using List.reverseRecOn with
    | nil =>
      intro post _
      exact h₀
    | append_singleton pre a ih =>
      intro post hcalls
      rw [List.append_assoc] at hcalls
      rw [run_concat]
      exact (hstep _ a (hinv pre) (ih _ hcalls)).mpr
        (h _ (mem_trace_iff.mpr ⟨pre, a, post, hcalls, rfl⟩))

/-- **Property of every two states.** Let `R` be a preorder, and let a step from a state that
calls lead to keep to it exactly when `Q` holds of the step. Then every state of a run is
related to every later one exactly when `Q` holds of all steps of the run. -/
theorem forall_later_iff {I : σ → Prop} {R : σ → σ → Prop} {Q : Step σ α ρ → Prop} {s : σ}
    (hinv : ∀ calls, I (run exec s calls)) (hrefl : ∀ s, R s s)
    (htrans : ∀ {s t u}, R s t → R t u → R s u)
    (hstep : ∀ s a, I s → (R s (exec s a).2 ↔ Q (stepAt exec s a))) (calls : List α) :
    (∀ pre mid post, calls = pre ++ mid ++ post →
        R (run exec s pre) (run exec s (pre ++ mid))) ↔
      ∀ st ∈ trace exec s calls, Q st := by
  refine ⟨fun h st hst => ?_, fun h pre mid => ?_⟩
  · obtain ⟨before, a, after, hcalls, rfl⟩ := mem_trace_iff.mp hst
    refine (hstep _ a (hinv before)).mp ?_
    rw [← run_concat]
    refine h before [a] after ?_
    rw [hcalls, List.append_assoc]
    rfl
  · induction mid using List.reverseRecOn with
    | nil =>
      intro post _
      rw [List.append_nil]
      exact hrefl _
    | append_singleton mid a ih =>
      intro post hcalls
      rw [← List.append_assoc, run_concat]
      rw [← List.append_assoc, List.append_assoc] at hcalls
      refine htrans (ih _ hcalls) ((hstep _ a (hinv _)).mpr ?_)
      exact h _ (mem_trace_iff.mpr ⟨pre ++ mid, a, post, hcalls, rfl⟩)

end Machine
