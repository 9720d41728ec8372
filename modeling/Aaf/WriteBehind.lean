import Aaf.Loop
import Mathlib.Data.List.Nodup
import Mathlib.Logic.Function.Basic

/-!
# Documents written behind

A document in memory and a copy of it in a store. Numbered calls change the document, each in
one atomic update that may refuse, and each writes its snapshot to the store some time later.
Updates and writes of different calls come in any order.

Once every call has written, the document is what the updates made of it in their order, and
the copy is the snapshot of the call that wrote last: `Settled`. So the two agree exactly when
the updates behind that call's own lead back to its snapshot: `stored_eq_memory_iff`.
-/

namespace WriteBehind

variable {D : Type}

/-- How far a call has come. -/
inductive Phase (D : Type) : Type where
  | idle : Phase D
  /-- the document is updated, the snapshot is not written yet -/
  | pending (snapshot : D) : Phase D
  | written : Phase D
  | refused : Phase D

/-- The document, its copy, and the calls. -/
structure Shared (D : Type) where
  memory : D
  stored : D
  phase : ℕ → Phase D

/-- One atomic step of a call. -/
inductive Event : Type where
  | update (call : ℕ) : Event
  | put (call : ℕ) : Event
  deriving DecidableEq

/-- A call that is not at the step asked of it. -/
inductive Blocked : Type where
  | blocked : Blocked

variable (apply : ℕ → D → Option D)

/-- One step of the system. -/
def step (s : Shared D) : Event → Except Blocked (Shared D)
  | .update k =>
    match s.phase k with
    | .idle =>
      match apply k s.memory with
      | some d => .ok ⟨d, s.stored, Function.update s.phase k (.pending d)⟩
      | none => .ok { s with phase := Function.update s.phase k .refused }
    | _ => .error .blocked
  | .put k =>
    match s.phase k with
    | .pending d => .ok ⟨s.memory, d, Function.update s.phase k .written⟩
    | _ => .error .blocked

/-- Before any step the copy is the document. -/
def start (d : D) : Shared D := ⟨d, d, fun _ => .idle⟩

/-- The system takes the steps `events` and comes to `t`. -/
def Runs (d : D) (events : List Event) (t : Shared D) : Prop :=
  events.foldlM (step apply) (start d) = .ok t

/-- The calls in the order of their updates. -/
def updates (events : List Event) : List ℕ :=
  events.filterMap fun
    | .update k => some k
    | .put _ => none

/-- What updates in a row make of a document. -/
def applied (calls : List ℕ) (d : D) : Option D := calls.foldlM (fun d k => apply k d) d

variable {apply} {d : D}

theorem updates_concat_update (events : List Event) (k : ℕ) :
    updates (events ++ [.update k]) = updates events ++ [k] := by
  simp [updates]

theorem updates_concat_put (events : List Event) (k : ℕ) :
    updates (events ++ [.put k]) = updates events := by
  simp [updates]

theorem applied_append (calls more : List ℕ) :
    applied apply (calls ++ more) d = (applied apply calls d).bind (applied apply more) :=
  List.foldlM_append

/-- What a step finds and leaves. -/
inductive Stepped (apply : ℕ → D → Option D) (s : Shared D) : Event → Shared D → Prop
  | updated {k : ℕ} {d : D} (hidle : s.phase k = .idle) (happly : apply k s.memory = some d) :
      Stepped apply s (.update k) ⟨d, s.stored, Function.update s.phase k (.pending d)⟩
  | refused {k : ℕ} (hidle : s.phase k = .idle) (happly : apply k s.memory = none) :
      Stepped apply s (.update k) { s with phase := Function.update s.phase k .refused }
  | put {k : ℕ} {d : D} (hpending : s.phase k = .pending d) :
      Stepped apply s (.put k) ⟨s.memory, d, Function.update s.phase k .written⟩

theorem step_cases {s t : Shared D} {e : Event} (h : step apply s e = .ok t) :
    Stepped apply s e t := by
  cases e with
  | update k =>
    rw [step] at h
    cases hphase : s.phase k with
    | idle =>
      cases happly : apply k s.memory with
      | none =>
        simp only [hphase, happly] at h
        cases h
        exact .refused hphase happly
      | some d =>
        simp only [hphase, happly] at h
        cases h
        exact .updated hphase happly
    | _ => simp [hphase] at h
  | put k =>
    rw [step] at h
    cases hphase : s.phase k with
    | pending d =>
      simp only [hphase] at h
      cases h
      exact .put hphase
    | _ => simp [hphase] at h

/-- The call `k` updated with the outcome `snapshot`. -/
def Took (apply : ℕ → D → Option D) (d : D) (events : List Event) (k : ℕ) (snapshot : D) : Prop :=
  ∃ before after, updates events = before ++ k :: after ∧
    applied apply (before ++ [k]) d = some snapshot

/-- No write is in the list. -/
def NoPut (events : List Event) : Prop := ∀ k, Event.put k ∉ events

/-- What is known after `events` when no call was refused. -/
structure Settled (apply : ℕ → D → Option D) (d : D) (events : List Event) (s : Shared D) :
    Prop where
  memory : applied apply (updates events) d = some s.memory
  once : (updates events).Nodup
  idle : ∀ k, s.phase k = .idle → k ∉ updates events
  pending : ∀ k snapshot, s.phase k = .pending snapshot → Took apply d events k snapshot
  written : ∀ k, s.phase k = .written → Event.put k ∈ events
  stored : (NoPut events ∧ s.stored = d) ∨ ∃ pre k post, events = pre ++ .put k :: post ∧
    NoPut post ∧ Took apply d events k s.stored

theorem Took.concat {events : List Event} {k : ℕ} {snapshot : D}
    (h : Took apply d events k snapshot) (e : Event) :
    Took apply d (events ++ [e]) k snapshot := by
  obtain ⟨before, after, hupdates, happlied⟩ := h
  cases e with
  | update j =>
    refine ⟨before, after ++ [j], ?_, happlied⟩
    rw [updates_concat_update, hupdates, List.append_assoc, List.cons_append]
  | put j =>
    refine ⟨before, after, ?_, happlied⟩
    rw [updates_concat_put, hupdates]

theorem settled_start : Settled apply d [] (start d) where
  memory := rfl
  once := List.nodup_nil
  idle := fun k _ => List.not_mem_nil
  pending := fun k snapshot h => (by cases h)
  written := fun k h => (by cases h)
  stored := Or.inl ⟨fun k => List.not_mem_nil, rfl⟩

theorem phase_update_cases {phase : ℕ → Phase D} {j k : ℕ} {next p : Phase D}
    (h : Function.update phase k next j = p) :
    (j = k ∧ next = p) ∨ (j ≠ k ∧ phase j = p) := by
  by_cases hjk : j = k
  · rw [hjk, Function.update_self] at h
    exact Or.inl ⟨hjk, h⟩
  · rw [Function.update_of_ne hjk] at h
    exact Or.inr ⟨hjk, h⟩

theorem NoPut.concat_update {events : List Event} (h : NoPut events) (k : ℕ) :
    NoPut (events ++ [.update k]) := by
  intro j
  rw [List.mem_append, List.mem_singleton]
  rintro (hmem | hput)
  · exact h j hmem
  · cases hput

/-- An update that was not refused. -/
theorem Settled.updated {events : List Event} {s : Shared D} {k : ℕ} {d' : D}
    (h : Settled apply d events s) (hidle : s.phase k = .idle)
    (happly : apply k s.memory = some d') :
    Settled apply d (events ++ [.update k])
      ⟨d', s.stored, Function.update s.phase k (.pending d')⟩ := by
  have hmemory : applied apply (updates events ++ [k]) d = some d' := by
    rw [applied_append, h.memory]
    simp [applied, happly]
  constructor
  case memory =>
    rw [updates_concat_update]
    exact hmemory
  case once =>
    rw [updates_concat_update, List.nodup_append_comm, List.singleton_append, List.nodup_cons]
    exact ⟨h.idle k hidle, h.once⟩
  case idle =>
    intro j hj
    rw [updates_concat_update, List.mem_append, List.mem_singleton]
    rcases phase_update_cases hj with ⟨-, hnext⟩ | ⟨hjk, hj⟩
    · cases hnext
    · rintro (hmem | hmem)
      · exact h.idle j hj hmem
      · exact hjk hmem
  case pending =>
    intro j snapshot hj
    rcases phase_update_cases hj with ⟨rfl, hnext⟩ | ⟨-, hj⟩
    · cases hnext
      exact ⟨updates events, [], updates_concat_update events j, hmemory⟩
    · exact (h.pending j snapshot hj).concat _
  case written =>
    intro j hj
    rcases phase_update_cases hj with ⟨-, hnext⟩ | ⟨-, hj⟩
    · cases hnext
    · exact List.mem_append_left _ (h.written j hj)
  case stored =>
    rcases h.stored with ⟨hnone, hstored⟩ | ⟨pre, j, post, hevents, hnone, htook⟩
    · exact Or.inl ⟨hnone.concat_update k, hstored⟩
    · refine Or.inr ⟨pre, j, post ++ [.update k], ?_, hnone.concat_update k, htook.concat _⟩
      rw [hevents, List.append_assoc, List.cons_append]

/-- A snapshot is written. -/
theorem Settled.put {events : List Event} {s : Shared D} {k : ℕ} {d' : D}
    (h : Settled apply d events s) (hpending : s.phase k = .pending d') :
    Settled apply d (events ++ [.put k])
      ⟨s.memory, d', Function.update s.phase k .written⟩ := by
  constructor
  case memory =>
    rw [updates_concat_put]
    exact h.memory
  case once =>
    rw [updates_concat_put]
    exact h.once
  case idle =>
    intro j hj
    rw [updates_concat_put]
    rcases phase_update_cases hj with ⟨-, hnext⟩ | ⟨-, hj⟩
    · cases hnext
    · exact h.idle j hj
  case pending =>
    intro j snapshot hj
    rcases phase_update_cases hj with ⟨-, hnext⟩ | ⟨-, hj⟩
    · cases hnext
    · exact (h.pending j snapshot hj).concat _
  case written =>
    intro j hj
    rcases phase_update_cases hj with ⟨rfl, -⟩ | ⟨-, hj⟩
    · exact List.mem_append_right _ (List.mem_singleton_self _)
    · exact List.mem_append_left _ (h.written j hj)
  case stored =>
    exact Or.inr ⟨events, k, [], rfl, fun j => List.not_mem_nil,
      (h.pending k d' hpending).concat _⟩

/-- A call that was refused stays so. -/
theorem Stepped.refused_persists {s t : Shared D} {e : Event} (h : Stepped apply s e t) {k : ℕ}
    (hrefused : s.phase k = .refused) : t.phase k = .refused := by
  have hother : ∀ {j next}, s.phase j ≠ .refused →
      Function.update s.phase j next k = .refused := by
    intro j next hj
    rw [Function.update_of_ne, hrefused]
    rintro rfl
    exact hj hrefused
  cases h with
  | updated hidle happly => exact hother (by rw [hidle]; simp)
  | refused hidle happly => exact hother (by rw [hidle]; simp)
  | put hpending => exact hother (by rw [hpending]; simp)

/-- **Every run settles or has a refused call.** -/
theorem Runs.settled {events : List Event} {t : Shared D} (h : Runs apply d events t) :
    (∃ k, t.phase k = .refused) ∨ Settled apply d events t := by
  refine Loop.foldlM_ok (I := fun events t => (∃ k, t.phase k = .refused) ∨
    Settled apply d events t) (Or.inr settled_start) ?_ h
  intro pre e s t hinv hstep
  have hcases := step_cases hstep
  rcases hinv with ⟨k, hrefused⟩ | hsettled
  · exact Or.inl ⟨k, hcases.refused_persists hrefused⟩
  · cases hcases with
    | updated hidle happly => exact Or.inr (hsettled.updated hidle happly)
    | refused hidle happly => exact Or.inl ⟨_, Function.update_self ..⟩
    | put hpending => exact Or.inr (hsettled.put hpending)

/-- Every call that takes part has written. -/
def Finished (t : Shared D) : Prop := ∀ k, t.phase k = .idle ∨ t.phase k = .written

theorem Runs.settled_of_finished {events : List Event} {t : Shared D} (h : Runs apply d events t)
    (hfinished : Finished t) : Settled apply d events t := by
  refine h.settled.resolve_left ?_
  rintro ⟨k, hrefused⟩
  rcases hfinished k with hk | hk <;> rw [hk] at hrefused <;> cases hrefused

theorem last_put_unique {pre pre' post post' : List Event} {k k' : ℕ}
    (h : pre ++ .put k :: post = pre' ++ .put k' :: post') (hlast : NoPut post)
    (hlast' : NoPut post') : k = k' := by
  rcases List.append_eq_append_iff.mp h with ⟨mid, -, hmid⟩ | ⟨mid, -, hmid⟩
  · cases mid with
    | nil => exact Event.put.inj (List.cons.inj hmid).1
    | cons e mid =>
      have hpost := (List.cons.inj hmid).2
      exact absurd (by rw [hpost]; simp) (hlast k')
  · cases mid with
    | nil => exact (Event.put.inj (List.cons.inj hmid).1).symm
    | cons e mid =>
      have hpost := (List.cons.inj hmid).2
      exact absurd (by rw [hpost]; simp) (hlast' k)

/-- **The copy agrees with the document** when the updates behind that of the call that wrote
last lead back to its snapshot. -/
theorem stored_eq_memory_iff {events : List Event} {t : Shared D} (h : Runs apply d events t)
    (hfinished : Finished t) :
    t.stored = t.memory ↔ ∀ pre k post before after snapshot,
      events = pre ++ .put k :: post → NoPut post → updates events = before ++ k :: after →
      applied apply (before ++ [k]) d = some snapshot →
      applied apply after snapshot = some snapshot := by
  have hsettled := h.settled_of_finished hfinished
  rcases hsettled.stored with ⟨hnone, hstored⟩ | ⟨pre, k, post, hevents, hlast, htook⟩
  · -- nothing was written, so nothing was updated
    have hupdates : updates events = [] := by
      refine List.eq_nil_iff_forall_not_mem.mpr fun k hk => ?_
      rcases hfinished k with hidle | hwritten
      · exact hsettled.idle k hidle hk
      · exact hnone k (hsettled.written k hwritten)
    have hmemory := hsettled.memory
    rw [hupdates] at hmemory
    refine iff_of_true (hstored.trans (Option.some.inj hmemory)) ?_
    intro pre k post before after snapshot hevents
    exact absurd (by rw [hevents]; simp) (hnone k)
  · obtain ⟨before, after, hupdates, htaken⟩ := htook
    have hmemory : applied apply after t.stored = some t.memory := by
      have hall := hsettled.memory
      rw [hupdates, ← List.singleton_append, ← List.append_assoc, applied_append, htaken] at hall
      exact hall
    refine ⟨fun hsame => ?_, fun h => ?_⟩
    · intro pre' k' post' before' after' snapshot hevents' hlast' hupdates' htaken'
      obtain rfl := last_put_unique (hevents.symm.trans hevents') hlast hlast'
      have honce := hsettled.once
      rw [hupdates, List.nodup_middle, List.nodup_cons, List.mem_append, not_or] at honce
      obtain ⟨rfl, -, rfl⟩ := (List.append_cons_inj_of_notMem honce.1.1 honce.1.2).mp
        (hupdates.symm.trans hupdates')
      obtain rfl := Option.some.inj (htaken.symm.trans htaken')
      rw [hmemory, hsame]
    · have hback := h pre k post before after t.stored hevents hlast hupdates htaken
      exact Option.some.inj (hback.symm.trans hmemory)

end WriteBehind
