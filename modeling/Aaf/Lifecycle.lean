import Mathlib.Data.Fintype.Defs
import Aaf.Checkpoints
import Aaf.Contracts
import Aaf.Gates
import Aaf.Machine

/-!
# The life of a task

`Task` (`aaf-contracts`): a state machine that takes requests to change its state, and grants
those on its diagram. The states that a task has held are a path of the diagram, and every path
from the start is held by some task (`held_iff`).

What a path has passed is said by gates (`Gates.cross`): an area of the diagram that can be left
through some states only. So a task that proposed a mutation runs only when the proposal was
reviewed and taken on, a task is compensated only behind a failure that was analyzed and recovered
from, and only `Completed`, `Cancelled` and `Compensated` are final; `is_terminal` has three more
(`task_history`).

The clock is a parameter of a request.
-/

namespace Aaf

/-! ## The diagram -/

/-- Task lifecycle states. -/
inductive TaskState : Type where
  | proposed : TaskState
  | waitingForContext : TaskState
  | ready : TaskState
  | running : TaskState
  | pausedForApproval : TaskState
  | blocked : TaskState
  | analyzing : TaskState
  | recovering : TaskState
  | completed : TaskState
  | failed : TaskState
  | cancelled : TaskState
  | compensated : TaskState
  | proposedMutation : TaskState
  | appReview : TaskState
  | accepted : TaskState
  | rejected : TaskState
  | transformed : TaskState
  | expired : TaskState
  deriving DecidableEq, Repr

namespace TaskState

/-- All of them. -/
def all : List TaskState :=
  [proposed, waitingForContext, ready, running, pausedForApproval, blocked, analyzing, recovering,
    completed, failed, cancelled, compensated, proposedMutation, appReview, accepted, rejected,
    transformed, expired]

instance : Fintype TaskState := ⟨⟨all, by decide⟩, fun s => by cases s <;> decide⟩

/-- `TaskState::is_terminal`. -/
def isTerminal : TaskState → Bool
  | completed => true
  | failed => true
  | cancelled => true
  | compensated => true
  | rejected => true
  | expired => true
  | _ => false

/-- `TaskState::can_transition_to`. -/
def canTransitionTo : TaskState → TaskState → Bool
  | proposed, waitingForContext | proposed, ready | proposed, proposedMutation => true
  | waitingForContext, ready => true
  | ready, running | blocked, running | pausedForApproval, running | accepted, running
  | transformed, running => true
  | running, pausedForApproval | running, blocked | running, failed | running, completed
  | running, cancelled => true
  | pausedForApproval, cancelled => true
  | failed, analyzing => true
  | analyzing, recovering => true
  | recovering, running | recovering, completed | recovering, compensated
  | recovering, failed => true
  | proposedMutation, appReview => true
  | appReview, accepted | appReview, rejected | appReview, transformed | appReview, expired => true
  | rejected, cancelled | expired, cancelled => true
  | _, _ => false

end TaskState

/-! ### Areas -/

namespace TaskState

/-- From these a failure has yet to happen, be analyzed or be recovered from. -/
def beforeFailure (s : TaskState) : Bool :=
  s ∉ [failed, analyzing, recovering, compensated]

def beforeAnalysis (s : TaskState) : Bool := s ∉ [analyzing, recovering, compensated]

def beforeRecovery (s : TaskState) : Bool := s ∉ [recovering, compensated]

/-- A proposal that was made and not taken on. -/
def undecided (s : TaskState) : Bool :=
  s ∈ [proposedMutation, appReview, rejected, expired, cancelled]

/-- A proposal that was taken on, as it was or edited. -/
def taken (s : TaskState) : Bool := s ∈ [accepted, transformed]

/-- Nothing follows. -/
def final (s : TaskState) : Bool := s ∈ [completed, cancelled, compensated]

theorem beforeFailure_closed : ∀ a b : TaskState, beforeFailure a → canTransitionTo a b →
    beforeFailure b ∨ b = failed := by decide

theorem beforeAnalysis_closed : ∀ a b : TaskState, beforeAnalysis a → canTransitionTo a b →
    beforeAnalysis b ∨ b = analyzing := by decide

theorem beforeRecovery_closed : ∀ a b : TaskState, beforeRecovery a → canTransitionTo a b →
    beforeRecovery b ∨ b = recovering := by decide

theorem undecided_closed : ∀ a b : TaskState, undecided a → canTransitionTo a b →
    undecided b ∨ taken b := by decide

end TaskState

/-! ## Tasks -/

/-- Runtime view of a Task. -/
structure Task where
  taskId : TaskId
  intentId : IntentId
  state : TaskState
  assignedAgent : Option String
  checkpointId : Option CheckpointId
  remainingBudgetUsd : F64
  remainingTimeMs : ℕ
  createdAt : ℤ
  updatedAt : ℤ
  deriving DecidableEq, Repr

namespace Task

/-- `Task::new`; the id and the time are given. -/
def new (id : TaskId) (now : ℤ) (intentId : IntentId) (budgetUsd : F64) (timeMs : ℕ) : Task :=
  ⟨id, intentId, .proposed, none, none, budgetUsd, timeMs, now, now⟩

/-- A request: the state asked for, and when. -/
structure Request where
  next : TaskState
  now : ℤ

/-- `Task::transition`. -/
def transition (t : Task) (r : Request) : Bool × Task :=
  if t.state.canTransitionTo r.next then (true, { t with state := r.next, updatedAt := r.now })
  else (false, t)

/-- The states a task holds under requests, from its own on. -/
def held (t : Task) (requests : List Request) : List TaskState :=
  t.state :: ((Machine.trace transition t requests).filter fun st => st.reply).map
    fun st => st.after.state

theorem held_ne_nil (t : Task) (requests : List Request) : t.held requests ≠ [] :=
  List.cons_ne_nil _ _

/-- A path of the diagram. -/
abbrev Path (states : List TaskState) : Prop :=
  List.IsChain (fun a b => TaskState.canTransitionTo a b = true) states

theorem held_cons (t : Task) (r : Request) (requests : List Request) :
    t.held (r :: requests) =
      if t.state.canTransitionTo r.next then
        t.state :: held { t with state := r.next, updatedAt := r.now } requests
      else t.held requests := by
  rw [held, Machine.trace]
  by_cases h : t.state.canTransitionTo r.next = true
  · simp [transition, Machine.stepAt, held, h]
  · simp [transition, Machine.stepAt, held, h]

/-- What a task holds is a path. -/
theorem path_held (t : Task) (requests : List Request) : Path (t.held requests) := by
  induction requests generalizing t with
  | nil => exact List.isChain_singleton _
  | cons r requests ih =>
    rw [held_cons]
    split_ifs with h
    · exact List.isChain_cons_cons.mpr ⟨h, ih _⟩
    · exact ih t

/-- **The states a task can hold** are the paths of the diagram from its own. -/
theorem held_iff (t : Task) (states : List TaskState) :
    (∃ requests, t.held requests = t.state :: states) ↔ Path (t.state :: states) := by
  constructor
  · rintro ⟨requests, h⟩
    rw [← h]
    exact path_held t requests
  · intro h
    induction states generalizing t with
    | nil => exact ⟨[], rfl⟩
    | cons next states ih =>
      obtain ⟨hstep, hrest⟩ := List.isChain_cons_cons.mp h
      obtain ⟨requests, hheld⟩ := ih { t with state := next, updatedAt := t.updatedAt } hrest
      refine ⟨⟨next, t.updatedAt⟩ :: requests, ?_⟩
      rw [held_cons, if_pos hstep, hheld]

/-! ### What a path has passed -/

section Paths

variable {pre post : List TaskState} {s : TaskState}

/-- The part of a path from one of its states on. -/
theorem Path.suffix {states : List TaskState} (h : Path (pre ++ s :: states)) :
    Path (s :: states) :=
  h.right_of_append

/-- Behind a proposal everything but the ways to drop it waits for a review that takes it on. -/
theorem Path.reviewed (h : Path (pre ++ s :: post)) (hproposed : .proposedMutation ∈ pre)
    (hs : s.undecided = false) (htaken : s.taken = false) :
    ∃ decision : TaskState, decision.taken = true ∧
      [.proposedMutation, .appReview, decision].Sublist pre := by
  obtain ⟨before, rest, rfl⟩ := List.append_of_mem hproposed
  rw [List.append_assoc, List.cons_append] at h
  have hfrom := h.suffix
  obtain ⟨reviews, decision, after, rfl, hdecision⟩ :=
    Gates.cross TaskState.undecided_closed hfrom rfl (by simp [hs]) (by simp [htaken])
  rw [List.append_assoc, List.cons_append] at hfrom
  have hnext : ∀ a b : TaskState, a = .proposedMutation → TaskState.canTransitionTo a b = true →
      b = .proposedMutation ∨ b = .appReview := by decide
  have hne : ∀ d : TaskState, d.taken = true → d ≠ .proposedMutation ∧ d ≠ .appReview := by decide
  obtain ⟨first, review, second, rfl, rfl⟩ :=
    Gates.cross hnext hfrom rfl (hne decision hdecision).1 (hne decision hdecision).2
  refine ⟨decision, hdecision, ?_⟩
  have hreview : [TaskState.appReview].Sublist (first ++ .appReview :: second) :=
    List.singleton_sublist.mpr (by simp)
  have hdecided : [decision].Sublist (decision :: after) := List.singleton_sublist.mpr (by simp)
  have hrest : [TaskState.appReview, decision].Sublist
      ((first ++ .appReview :: second) ++ decision :: after) := hreview.append hdecided
  exact (hrest.cons_cons _).trans (List.sublist_append_right _ _)

/-- A rollback is behind a failure that was analyzed and recovered from. -/
theorem Path.failed_first (h : Path (.proposed :: (pre ++ .compensated :: post))) :
    [TaskState.failed, .analyzing, .recovering].Sublist pre := by
  obtain ⟨recovered, state, rest, rfl, rfl⟩ :=
    Gates.cross TaskState.beforeRecovery_closed h rfl (by decide) (by decide)
  rw [List.append_assoc, List.cons_append] at h
  obtain ⟨analyzed, state, rest', rfl, rfl⟩ :=
    Gates.cross TaskState.beforeAnalysis_closed h rfl (by decide) (by decide)
  rw [List.append_assoc, List.cons_append] at h
  obtain ⟨before, state, rest'', rfl, rfl⟩ :=
    Gates.cross TaskState.beforeFailure_closed h rfl (by decide) (by decide)
  have hfirst : [TaskState.failed].Sublist (before ++ .failed :: rest'') :=
    List.singleton_sublist.mpr (by simp)
  have hsecond : [TaskState.analyzing].Sublist (.analyzing :: rest') :=
    List.singleton_sublist.mpr (by simp)
  have hthird : [TaskState.recovering].Sublist (.recovering :: rest) :=
    List.singleton_sublist.mpr (by simp)
  exact (hfirst.append hsecond).append hthird

/-- Nothing follows a final state. -/
theorem Path.nil_of_final (h : Path (s :: post)) (hs : s.final = true) : post = [] := by
  have hnone : ∀ a b : TaskState, a.final = true → TaskState.canTransitionTo a b = false := by
    decide
  cases post with
  | nil => rfl
  | cons next post =>
    have hstep := (List.isChain_cons_cons.mp h).1
    rw [hnone s next hs] at hstep
    cases hstep

/-- A proposal that was turned down can only be cancelled. -/
theorem Path.cancelled_of_refused (h : Path (s :: post)) (hs : s = .rejected ∨ s = .expired) :
    post = [] ∨ post = [.cancelled] := by
  have hnext : ∀ a b : TaskState, a = .rejected ∨ a = .expired →
      TaskState.canTransitionTo a b = true → b = .cancelled := by decide
  cases post with
  | nil => exact Or.inl rfl
  | cons next post =>
    obtain ⟨hstep, hrest⟩ := List.isChain_cons_cons.mp h
    obtain rfl := hnext s next hs hstep
    rw [Path.nil_of_final hrest rfl]
    exact Or.inr rfl

end Paths

/-- What the states that a task has held have passed. -/
structure History (states : List TaskState) : Prop where
  reviewed : ∀ pre s post, states = pre ++ s :: post → .proposedMutation ∈ pre →
    s.undecided = false → s.taken = false → ∃ decision : TaskState, decision.taken = true ∧
      [.proposedMutation, .appReview, decision].Sublist pre
  failed_first : ∀ pre post, states = pre ++ .compensated :: post →
    [TaskState.failed, .analyzing, .recovering].Sublist pre
  refused : ∀ pre s post, states = pre ++ s :: post → s = .rejected ∨ s = .expired →
    post = [] ∨ post = [.cancelled]
  final : ∀ pre s post, states = pre ++ s :: post → s.final = true → post = []
  terminal : ∀ pre s next post, states = pre ++ s :: next :: post → s.isTerminal = true →
    s = .failed ∨ s = .rejected ∨ s = .expired

theorem history_of_path {states : List TaskState} (h : Path (.proposed :: states)) :
    History (.proposed :: states) := by
  constructor
  · intro pre s post heq hproposed hs htaken
    rw [heq] at h
    exact Path.reviewed h hproposed hs htaken
  · intro pre post heq
    cases pre with
    | nil => cases (List.cons.inj heq).1
    | cons first pre =>
      obtain ⟨rfl, hrest⟩ := List.cons.inj heq
      rw [hrest] at h
      exact (Path.failed_first h).trans (List.sublist_cons_self _ _)
  · intro pre s post heq hs
    rw [heq] at h
    exact Path.cancelled_of_refused (Path.suffix h) hs
  · intro pre s post heq hs
    rw [heq] at h
    exact Path.nil_of_final (Path.suffix h) hs
  · intro pre s next post heq hs
    rw [heq] at h
    have hleft : ∀ a : TaskState, a.isTerminal = true →
        a.final = true ∨ a = .failed ∨ a = .rejected ∨ a = .expired := by decide
    rcases hleft s hs with hfinal | hleft
    · cases Path.nil_of_final (Path.suffix h) hfinal
    · exact hleft

/-- A task differs from what it was in its state and in when that changed. -/
theorem run_eq (t : Task) (requests : List Request) :
    ∃ updated, Machine.run transition t requests =
      { t with
        state := (t.held requests).getLast (t.held_ne_nil requests)
        updatedAt := updated } := by
  induction requests generalizing t with
  | nil => exact ⟨t.updatedAt, rfl⟩
  | cons r requests ih =>
    rw [Machine.run]
    by_cases h : t.state.canTransitionTo r.next = true
    · have hnext : (t.transition r).2 = { t with state := r.next, updatedAt := r.now } := by
        rw [transition, if_pos h]
      obtain ⟨updated, hrun⟩ := ih { t with state := r.next, updatedAt := r.now }
      refine ⟨updated, ?_⟩
      rw [hnext, hrun]
      simp only [held_cons, if_pos h]
      rw [List.getLast_cons (held_ne_nil _ _)]
    · have hsame : (t.transition r).2 = t := by
        rw [transition, if_neg h]
      obtain ⟨updated, hrun⟩ := ih t
      refine ⟨updated, ?_⟩
      rw [hsame, hrun]
      simp only [held_cons, if_neg h]

/-- **The life of a task**, under any requests: what it has held is a path of the diagram with a
history, it holds the last state of it, and nothing else of it has changed. Every path is the life
of such a task. -/
theorem task_history (id : TaskId) (now : ℤ) (intentId : IntentId) (budgetUsd : F64)
    (timeMs : ℕ) :
    (∀ requests, Path ((new id now intentId budgetUsd timeMs).held requests) ∧
      History ((new id now intentId budgetUsd timeMs).held requests) ∧
      ∃ updated, Machine.run transition (new id now intentId budgetUsd timeMs) requests =
        { new id now intentId budgetUsd timeMs with
          state := ((new id now intentId budgetUsd timeMs).held requests).getLast
            (held_ne_nil _ requests)
          updatedAt := updated }) ∧
      ∀ states, Path (.proposed :: states) → ∃ requests,
        (new id now intentId budgetUsd timeMs).held requests = .proposed :: states := by
  refine ⟨fun requests => ?_, fun states h => (held_iff _ states).mpr h⟩
  have hpath := path_held (new id now intentId budgetUsd timeMs) requests
  exact ⟨hpath, history_of_path hpath, run_eq _ requests⟩

end Task

end Aaf
