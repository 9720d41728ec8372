import Aaf.Contracts
import Aaf.Machine

/-!
# The checkpoint store

`InMemoryCheckpointStore` (`aaf-storage`): checkpoints by id in a hash map, under any
sequence of `put` and `delete`. `latest_for` scans the values in the order of the map and
keeps the first one with the highest step, whatever its `created_at` (`latestIn_cases`).

`latestFor_newest_iff`: it returns the newest checkpoint of a task in every iteration order
exactly when the stored checkpoints of its highest step were all created at one instant.
-/

namespace Aaf

/-- Identifier of a checkpoint. -/
structure CheckpointId where
  raw : String
  deriving DecidableEq, Repr

/-- Identifier of a task. -/
structure TaskId where
  raw : String
  deriving DecidableEq, Repr

/-- Persistent checkpoint of a task at a step boundary. -/
structure Checkpoint where
  checkpointId : CheckpointId
  taskId : TaskId
  step : ℕ
  state : Json
  remainingBudgetUsd : F64
  remainingTimeMs : ℕ
  createdAt : ℤ

/-- `InMemoryCheckpointStore`. -/
abbrev InMemoryCheckpointStore : Type := HashMap CheckpointId Checkpoint

/-- The scan of `latest_for`. -/
def latestIn (task : TaskId) (checkpoints : List Checkpoint) : Option Checkpoint :=
  checkpoints.foldl
    (fun latest cp =>
      if cp.taskId = task ∧ ∀ best ∈ latest, best.step < cp.step then some cp else latest) none

namespace InMemoryCheckpointStore

/-- `InMemoryCheckpointStore::new`. -/
def new : InMemoryCheckpointStore := ∅

/-- `put`: a checkpoint replaces the one at its id. -/
def put (s : InMemoryCheckpointStore) (cp : Checkpoint) : InMemoryCheckpointStore :=
  s.insert cp.checkpointId cp

/-- `delete`; an unknown id is no error. -/
def delete (s : InMemoryCheckpointStore) (id : CheckpointId) : InMemoryCheckpointStore :=
  s.erase id

/-- The values, in the order of the map. -/
def values (s : InMemoryCheckpointStore) (order : IterationOrder CheckpointId) : List Checkpoint :=
  (order.order s.keys).filterMap s.lookup

/-- `latest_for`. -/
def latestFor (s : InMemoryCheckpointStore) (order : IterationOrder CheckpointId) (task : TaskId) :
    Option Checkpoint :=
  latestIn task (s.values order)

/-- A call that changes the store. -/
inductive Call : Type where
  | put (cp : Checkpoint) : Call
  | delete (id : CheckpointId) : Call

/-- One call. -/
def exec (s : InMemoryCheckpointStore) : Call → Unit × InMemoryCheckpointStore
  | .put cp => ((), s.put cp)
  | .delete id => ((), s.delete id)

/-- The store after the calls. -/
def after (calls : List Call) : InMemoryCheckpointStore := Machine.run exec new calls

/-! ## What the store has of a task -/

/-- The checkpoint is stored, and one of the task. -/
def Stored (s : InMemoryCheckpointStore) (task : TaskId) (cp : Checkpoint) : Prop :=
  (∃ id, s.lookup id = some cp) ∧ cp.taskId = task

/-- The checkpoint is one of the highest step that is stored for the task. -/
def AtTop (s : InMemoryCheckpointStore) (task : TaskId) (cp : Checkpoint) : Prop :=
  s.Stored task cp ∧ ∀ cp', s.Stored task cp' → cp'.step ≤ cp.step

/-- What a resume asks for: nothing if nothing is stored for the task, else a checkpoint of
the highest step, and of those one that was created last. -/
structure PicksNewest (s : InMemoryCheckpointStore) (task : TaskId) (result : Option Checkpoint) :
    Prop where
  none_iff : result = none ↔ ∀ cp, ¬ s.Stored task cp
  newest : ∀ cp ∈ result, s.Stored task cp ∧ ∀ cp', s.Stored task cp' →
    cp'.step < cp.step ∨ (cp'.step = cp.step ∧ cp'.createdAt ≤ cp.createdAt)

variable {s : InMemoryCheckpointStore} {task : TaskId} {cp : Checkpoint}

/-- Every order lists what is stored. -/
theorem mem_values_iff (order : IterationOrder CheckpointId) :
    cp ∈ s.values order ↔ ∃ id, s.lookup id = some cp := by
  rw [values, List.mem_filterMap]
  constructor
  · rintro ⟨id, -, h⟩
    exact ⟨id, h⟩
  · rintro ⟨id, h⟩
    refine ⟨id, (order.perm s.keys).mem_iff.mpr ?_, h⟩
    exact AList.mem_keys.mp (AList.lookup_isSome.mp (Option.isSome_of_eq_some h))

end InMemoryCheckpointStore

/-! ## The scan -/

/-- The first checkpoint of the highest step of the task, in a list. -/
def FirstTop (task : TaskId) (l : List Checkpoint) (best : Checkpoint) : Prop :=
  ∃ pre post, l = pre ++ best :: post ∧ best.taskId = task ∧
    (∀ cp ∈ pre, cp.taskId = task → cp.step < best.step) ∧
    ∀ cp ∈ post, cp.taskId = task → cp.step ≤ best.step

section Scan

variable {task : TaskId} {l : List Checkpoint} {cp best : Checkpoint}

theorem FirstTop.le (h : FirstTop task l best) (hcp : cp ∈ l) (htask : cp.taskId = task) :
    cp.step ≤ best.step := by
  obtain ⟨pre, post, rfl, -, hpre, hpost⟩ := h
  rcases List.mem_append.mp hcp with hcp | hcp
  · exact (hpre cp hcp htask).le
  · rcases List.mem_cons.mp hcp with rfl | hcp
    · exact le_refl _
    · exact hpost cp hcp htask

/-- It stays when a checkpoint comes that is no higher. -/
theorem FirstTop.concat (h : FirstTop task l best) (hcp : cp.taskId = task → cp.step ≤ best.step) :
    FirstTop task (l ++ [cp]) best := by
  obtain ⟨pre, post, rfl, htask, hpre, hpost⟩ := h
  refine ⟨pre, post ++ [cp], by rw [List.append_assoc, List.cons_append], htask, hpre, ?_⟩
  intro cp' hcp' htask'
  rcases List.mem_append.mp hcp' with hcp' | hcp'
  · exact hpost cp' hcp' htask'
  · obtain rfl := List.mem_singleton.mp hcp'
    exact hcp htask'

/-- A higher checkpoint takes its place. -/
theorem firstTop_concat (htask : cp.taskId = task)
    (hlower : ∀ cp' ∈ l, cp'.taskId = task → cp'.step < cp.step) :
    FirstTop task (l ++ [cp]) cp :=
  ⟨l, [], rfl, htask, hlower, fun _ hcp' => absurd hcp' List.not_mem_nil⟩

theorem latestIn_concat : latestIn task (l ++ [cp]) =
    if cp.taskId = task ∧ ∀ best ∈ latestIn task l, best.step < cp.step then some cp
    else latestIn task l := by
  rw [latestIn, List.foldl_append]
  rfl

/-- **The scan** keeps the first checkpoint of the highest step. -/
theorem latestIn_cases (task : TaskId) (l : List Checkpoint) :
    (latestIn task l = none ∧ ∀ cp ∈ l, cp.taskId ≠ task) ∨
      ∃ best, latestIn task l = some best ∧ FirstTop task l best := by
  induction l using List.reverseRecOn with
  | nil => exact Or.inl ⟨rfl, fun cp hcp => absurd hcp List.not_mem_nil⟩
  | append_singleton l cp ih =>
    rw [latestIn_concat]
    rcases ih with ⟨hnone, hothers⟩ | ⟨best, hbest, hfirst⟩
    · rw [hnone]
      by_cases hcp : cp.taskId = task
      · refine Or.inr ⟨cp, if_pos ⟨hcp, fun best hbest => by cases hbest⟩, ?_⟩
        exact firstTop_concat hcp fun cp' hcp' h => absurd h (hothers cp' hcp')
      · refine Or.inl ⟨if_neg fun h => hcp h.1, fun cp' hcp' => ?_⟩
        rcases List.mem_append.mp hcp' with hcp' | hcp'
        · exact hothers cp' hcp'
        · rw [List.mem_singleton.mp hcp']
          exact hcp
    · rw [hbest]
      by_cases hhigher : cp.taskId = task ∧ best.step < cp.step
      · refine Or.inr ⟨cp, if_pos ⟨hhigher.1, fun b hb => by cases hb; exact hhigher.2⟩, ?_⟩
        exact firstTop_concat hhigher.1 fun cp' hcp' h =>
          lt_of_le_of_lt (hfirst.le hcp' h) hhigher.2
      · refine Or.inr ⟨best, if_neg fun h => hhigher ⟨h.1, h.2 best rfl⟩, ?_⟩
        exact hfirst.concat fun h => not_lt.mp fun hlt => hhigher ⟨h, hlt⟩

end Scan

/-! ## The newest checkpoint -/

namespace InMemoryCheckpointStore

variable {s : InMemoryCheckpointStore} {task : TaskId} {cp : Checkpoint}

/-- What `latest_for` returns: nothing when nothing is stored for the task, else the first
checkpoint of its highest step. -/
theorem latestFor_cases (s : InMemoryCheckpointStore) (order : IterationOrder CheckpointId)
    (task : TaskId) :
    (s.latestFor order task = none ∧ ∀ cp, ¬ s.Stored task cp) ∨
      ∃ pre best post, s.latestFor order task = some best ∧
        s.values order = pre ++ best :: post ∧ s.AtTop task best ∧
        ∀ cp ∈ pre, ¬ s.AtTop task cp := by
  rcases latestIn_cases task (s.values order) with
    ⟨hnone, hothers⟩ | ⟨best, hbest, hfirst⟩
  · refine Or.inl ⟨hnone, ?_⟩
    rintro cp ⟨hcp, htask⟩
    exact hothers cp ((mem_values_iff order).mpr hcp) htask
  · obtain ⟨pre, post, hvalues, htask, hpre, -⟩ := id hfirst
    have hstored : s.Stored task best := by
      refine ⟨(mem_values_iff order).mp ?_, htask⟩
      rw [hvalues]
      exact List.mem_append_right _ List.mem_cons_self
    refine Or.inr ⟨pre, best, post, hbest, hvalues, ⟨hstored, ?_⟩, fun cp hcp htop => ?_⟩
    · rintro cp ⟨hcp, hcptask⟩
      exact hfirst.le ((mem_values_iff order).mpr hcp) hcptask
    · exact absurd (htop.2 best hstored) (not_le.mpr (hpre cp hcp htop.1.2))

/-- In one iteration order the answer is a newest checkpoint exactly when the first one of
the highest step is. -/
theorem picksNewest_iff (s : InMemoryCheckpointStore) (order : IterationOrder CheckpointId)
    (task : TaskId) :
    s.PicksNewest task (s.latestFor order task) ↔
      ∀ pre best post, s.values order = pre ++ best :: post → s.AtTop task best →
        (∀ cp ∈ pre, ¬ s.AtTop task cp) →
        ∀ cp, s.AtTop task cp → cp.createdAt ≤ best.createdAt := by
  rcases latestFor_cases s order task with
    ⟨hnone, hothers⟩ | ⟨pre, best, post, hbest, hvalues, htop, hpre⟩
  · rw [hnone]
    constructor
    · intro _ _ best _ _ htop
      exact absurd htop.1 (hothers best)
    · exact fun _ => ⟨⟨fun _ => hothers, fun _ => rfl⟩, fun cp hcp => by cases hcp⟩
  · rw [hbest]
    constructor
    · rintro hpicks pre' best' post' hvalues' htop' hpre' cp hcp
      -- there is only one first checkpoint of the highest step
      have hsame : best' = best := by
        rcases List.append_eq_append_iff.mp (hvalues.symm.trans hvalues') with
          ⟨mid, rfl, hmid⟩ | ⟨mid, rfl, hmid⟩
        · rcases mid with _ | ⟨c, mid⟩
          · exact (List.cons.inj hmid).1.symm
          · obtain ⟨rfl, -⟩ := List.cons.inj hmid
            exact absurd htop (hpre' _ (by simp))
        · rcases mid with _ | ⟨c, mid⟩
          · exact (List.cons.inj hmid).1
          · obtain ⟨rfl, -⟩ := List.cons.inj hmid
            exact absurd htop' (hpre _ (by simp))
      rw [hsame]
      rcases (hpicks.newest best rfl).2 cp hcp.1 with hlt | ⟨-, hle⟩
      · exact absurd (hcp.2 best htop.1) (not_le.mpr hlt)
      · exact hle
    · intro hfirst
      refine ⟨⟨fun h => (by cases h), fun h => absurd htop.1 (h best)⟩, ?_⟩
      rintro cp hcp
      obtain rfl : best = cp := Option.some.inj hcp
      refine ⟨htop.1, fun cp' hcp' => ?_⟩
      rcases lt_or_eq_of_le (htop.2 cp' hcp') with hlt | heq
      · exact Or.inl hlt
      · refine Or.inr ⟨heq, hfirst pre best post hvalues htop hpre cp' ⟨hcp', fun c hc => ?_⟩⟩
        rw [heq]
        exact htop.2 c hc

/-- Any stored checkpoint is the first one of some order. -/
theorem exists_order_head {id : CheckpointId} (h : s.lookup id = some cp) :
    ∃ post, s.values (IterationOrder.inFront id) = cp :: post := by
  have hmem : id ∈ s.keys := AList.lookup_isSome.mp (Option.isSome_of_eq_some h)
  refine ⟨(s.keys.erase id).filterMap s.lookup, ?_⟩
  rw [values, IterationOrder.inFront]
  simp only [if_pos hmem]
  exact List.filterMap_cons_some h

/-- **Resuming.** After any calls, `latest_for` returns the newest checkpoint of a task in one
iteration order exactly when the first stored checkpoint of its highest step is one, and in
every order exactly when those of its highest step agree on when they were created. -/
theorem latestFor_newest_iff (calls : List Call) (task : TaskId) :
    (∀ order, (after calls).PicksNewest task ((after calls).latestFor order task) ↔
      ∀ pre best post, (after calls).values order = pre ++ best :: post →
        (after calls).AtTop task best → (∀ cp ∈ pre, ¬ (after calls).AtTop task cp) →
        ∀ cp, (after calls).AtTop task cp → cp.createdAt ≤ best.createdAt) ∧
    ((∀ order, (after calls).PicksNewest task ((after calls).latestFor order task)) ↔
      ∀ cp cp', (after calls).AtTop task cp → (after calls).AtTop task cp' →
        cp.createdAt = cp'.createdAt) := by
  refine ⟨fun order => picksNewest_iff _ order task, ?_⟩
  constructor
  · intro hpicks
    have hle : ∀ cp cp', (after calls).AtTop task cp → (after calls).AtTop task cp' →
        cp'.createdAt ≤ cp.createdAt := by
      intro cp cp' htop htop'
      obtain ⟨id, hid⟩ := htop.1.1
      obtain ⟨post, hvalues⟩ := exists_order_head hid
      exact (picksNewest_iff _ _ task).mp (hpicks _) [] cp post hvalues htop
        (fun c hc => absurd hc List.not_mem_nil) cp' htop'
    exact fun cp cp' htop htop' => le_antisymm (hle cp' cp htop' htop) (hle cp cp' htop htop')
  · intro hsame order
    rw [picksNewest_iff]
    exact fun _ best _ _ htop _ cp hcp => (hsame cp best hcp htop).le

/-- A checkpoint of a task, taken after step 2. -/
def retried (id : String) (createdAt : ℤ) : Checkpoint :=
  ⟨⟨id⟩, ⟨"task-1"⟩, 2, .obj [], .finite (1 / 2), 5000, createdAt⟩

/-- A retried step: the older of its two checkpoints is met first and returned. -/
theorem latestFor_retried_older :
    (after [.put (retried "cp-a" 0), .put (retried "cp-b" 60)]).latestFor
        (IterationOrder.inFront ⟨"cp-a"⟩) ⟨"task-1"⟩ = some (retried "cp-a" 0) ∧
      ¬ ∀ order, (after [.put (retried "cp-a" 0), .put (retried "cp-b" 60)]).PicksNewest ⟨"task-1"⟩
        ((after [.put (retried "cp-a" 0), .put (retried "cp-b" 60)]).latestFor order
          ⟨"task-1"⟩) := by
  have hlatest : (after [.put (retried "cp-a" 0), .put (retried "cp-b" 60)]).latestFor
      (IterationOrder.inFront ⟨"cp-a"⟩) ⟨"task-1"⟩ = some (retried "cp-a" 0) := by
    rfl
  refine ⟨hlatest, fun hpicks => ?_⟩
  have hstored : (after [.put (retried "cp-a" 0), .put (retried "cp-b" 60)]).Stored ⟨"task-1"⟩
      (retried "cp-b" 60) := ⟨⟨⟨"cp-b"⟩, rfl⟩, rfl⟩
  rcases ((hpicks (IterationOrder.inFront ⟨"cp-a"⟩)).newest _ hlatest).2 _ hstored with
    hlt | ⟨-, hle⟩
  · exact absurd hlt (by decide)
  · exact absurd hle (by decide)

end InMemoryCheckpointStore

end Aaf
