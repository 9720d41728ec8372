import Aaf.Interleaving
import Aaf.Node

/-!
# Forks and their children

`ForkNode::run` spawns a task for each child, and then awaits them in their order. A task runs on
its own: it acts, and ends by returning or by a panic, in any order with the others. At the first
child that has failed the fork returns, and the executor begins to roll back; tasks behind that
child are not waited for.

Here the tasks have been spawned. What the fork returns is what `Node.joinAll` makes of the results
(`result_eq_joinAll`), whatever order they came in. But every task has finished by then exactly when
those behind the first failing child have, as the fork comes to it: `forks_joined_iff`.
-/

namespace Aaf

namespace ForkJoin

open Interleaving

/-! ## The system -/

/-- How the task of a child ends. -/
inductive ChildEnd : Type where
  | returned (result : Except RuntimeError NodeOutput) : ChildEnd
  | panicked (what : String) : ChildEnd

/-- What awaiting the task of the child at the place `idx` gives. -/
def ChildEnd.result (childId : NodeId) (idx : ℕ) : ChildEnd → Except RuntimeError NodeOutput
  | returned result => result
  | panicked what => .error (.node ("fork child " ++ childId.raw ++ " (index " ++ toString idx ++
      ") join failed: " ++ what))

/-- How far a task has come. -/
inductive Task : Type where
  | running : Task
  | finished (how : ChildEnd) : Task

/-- The tasks, what the fork has made of the first of them, and whether the executor has begun to
roll back. -/
structure Fork where
  tasks : ℕ → Task
  joined : ℕ
  combined : List (String × Json)
  tokens : ℕ
  cost : F64
  result : Option (Except RuntimeError NodeOutput)
  rollingBack : Bool

/-- One event. Acting is what a task does while it runs. -/
inductive Event : Type where
  | act (i : ℕ) : Event
  | finish (i : ℕ) (how : ChildEnd) : Event
  /-- the fork awaits the next task, or returns when there is none left -/
  | advance (elapsedMs : ℕ) : Event
  /-- the executor begins to roll back -/
  | rollback : Event

/-- All tasks are running. -/
def start : Fork := ⟨fun _ => .running, 0, [], 0, 0, none, false⟩

/-- The fork takes the result of the next task. -/
def Fork.take (s : Fork) : Except RuntimeError NodeOutput → Fork
  | .error e => { s with result := some (.error e) }
  | .ok res =>
    { s with
      joined := s.joined + 1
      combined := s.combined ++ [("child_" ++ toString s.joined, res.data)]
      tokens := saturatingAdd s.tokens res.tokens
      cost := s.cost + res.costUsd }

/-- One event of a fork over the children `ids`. -/
def step (ids : List NodeId) (s : Fork) : Event → Except Blocked Fork
  | .act i =>
    match s.tasks i with
    | .running => if i < ids.length then .ok s else .error .blocked
    | .finished _ => .error .blocked
  | .finish i how =>
    match s.tasks i with
    | .running =>
      if i < ids.length then .ok { s with tasks := Function.update s.tasks i (.finished how) }
      else .error .blocked
    | .finished _ => .error .blocked
  | .advance elapsedMs =>
    match s.result with
    | some _ => .error .blocked
    | none =>
      match ids[s.joined]? with
      | none =>
        .ok { s with result := some (.ok ⟨.obj s.combined, s.tokens, s.cost, elapsedMs, none⟩) }
      | some childId =>
        match s.tasks s.joined with
        | .running => .error .blocked
        | .finished how => .ok (s.take (how.result childId s.joined))
  | .rollback =>
    match s.result with
    | some (.error _) =>
      if s.rollingBack then .error .blocked else .ok { s with rollingBack := true }
    | _ => .error .blocked

section Steps

variable {ids : List NodeId} {s t : Fork}

/-- What an event asks of the tasks and the fork, and does. -/
inductive Stepped (ids : List NodeId) (s : Fork) : Event → Fork → Prop
  | acted {i : ℕ} (hi : i < ids.length) (hrunning : s.tasks i = .running) :
      Stepped ids s (.act i) s
  | finished {i : ℕ} (how : ChildEnd) (hi : i < ids.length) (hrunning : s.tasks i = .running) :
      Stepped ids s (.finish i how)
        { s with tasks := Function.update s.tasks i (.finished how) }
  | joined {childId : NodeId} {how : ChildEnd} (elapsedMs : ℕ) (hresult : s.result = none)
      (hid : ids[s.joined]? = some childId) (hfinished : s.tasks s.joined = .finished how) :
      Stepped ids s (.advance elapsedMs) (s.take (how.result childId s.joined))
  | returned (elapsedMs : ℕ) (hresult : s.result = none) (hid : ids[s.joined]? = none) :
      Stepped ids s (.advance elapsedMs)
        { s with result := some (.ok ⟨.obj s.combined, s.tokens, s.cost, elapsedMs, none⟩) }
  | rolledBack {e : RuntimeError} (hresult : s.result = some (.error e)) :
      Stepped ids s .rollback { s with rollingBack := true }

theorem step_cases {a : Event} (h : step ids s a = .ok t) : Stepped ids s a t := by
  cases a with
  | act i =>
    rw [step] at h
    cases htask : s.tasks i with
    | running =>
      rw [htask] at h
      dsimp only at h
      split_ifs at h with hi
      cases h
      exact .acted hi htask
    | finished how =>
      rw [htask] at h
      cases h
  | finish i how =>
    rw [step] at h
    cases htask : s.tasks i with
    | running =>
      rw [htask] at h
      dsimp only at h
      split_ifs at h with hi
      cases h
      exact .finished how hi htask
    | finished how' =>
      rw [htask] at h
      cases h
  | advance elapsedMs =>
    rw [step] at h
    cases hresult : s.result with
    | some result =>
      rw [hresult] at h
      cases h
    | none =>
      rw [hresult] at h
      dsimp only at h
      cases hid : ids[s.joined]? with
      | none =>
        rw [hid] at h
        cases h
        exact .returned elapsedMs hresult hid
      | some childId =>
        rw [hid] at h
        dsimp only at h
        cases htask : s.tasks s.joined with
        | running =>
          rw [htask] at h
          cases h
        | finished how =>
          rw [htask] at h
          cases h
          exact .joined elapsedMs hresult hid htask
  | rollback =>
    rw [step] at h
    rcases hresult : s.result with _ | ⟨e | out⟩
    · rw [hresult] at h
      cases h
    · rw [hresult] at h
      dsimp only at h
      split_ifs at h
      cases h
      rw [← hresult]
      exact .rolledBack hresult
    · rw [hresult] at h
      cases h

/-- A task that has finished stays so. -/
theorem Stepped.tasks_finished {a : Event} {i : ℕ} {how : ChildEnd} (h : Stepped ids s a t)
    (hi : s.tasks i = .finished how) : t.tasks i = .finished how := by
  cases h with
  | acted hj hrunning => exact hi
  | @finished j how' hj hrunning =>
    have hne : i ≠ j := by
      rintro rfl
      rw [hrunning] at hi
      cases hi
    exact (Function.update_of_ne hne _ _).trans hi
  | @joined childId how' elapsedMs hresult hid hfinished =>
    cases how'.result childId s.joined <;> exact hi
  | returned elapsedMs hresult hid => exact hi
  | rolledBack hresult => exact hi

end Steps

/-! ## What the fork returns -/

section Results

variable {ids : List NodeId} {s t : Fork} {events : List Event}

theorem tasks_finished_of_runs {i : ℕ} {how : ChildEnd} (h : Runs (step ids) s events t)
    (hi : s.tasks i = .finished how) : t.tasks i = .finished how :=
  Runs.invariant (I := fun u : Fork => u.tasks i = .finished how) hi
    (fun _ _ _ _ hu hstep => (step_cases hstep).tasks_finished hu) h

/-- The results of the children: those of finished tasks are what awaiting the tasks gives. -/
def Agrees (ids : List NodeId) (s : Fork) (results : List (Except RuntimeError NodeOutput)) :
    Prop :=
  results.length = ids.length ∧ ∀ i childId how, ids[i]? = some childId →
    s.tasks i = .finished how → results[i]? = some (how.result childId i)

/-- What has been joined so far, and what has been returned, is as `Node.joinAll` has it. -/
def Joins (s : Fork) (results : List (Except RuntimeError NodeOutput)) : Prop :=
  (∀ elapsedMs, Node.joinAll elapsedMs 0 [] 0 0 results =
      Node.joinAll elapsedMs s.joined s.combined s.tokens s.cost (results.drop s.joined)) ∧
    ∀ r, s.result = some r → ∃ elapsedMs, r = Node.joinAll elapsedMs 0 [] 0 0 results

theorem Agrees.before {a : Event} {results : List (Except RuntimeError NodeOutput)}
    (h : Agrees ids t results) (hstep : Stepped ids s a t) : Agrees ids s results :=
  ⟨h.1, fun i childId how hid hi => h.2 i childId how hid (hstep.tasks_finished hi)⟩

theorem Joins.step {a : Event} {results : List (Except RuntimeError NodeOutput)}
    (hstep : Stepped ids s a t) (hagrees : Agrees ids t results) (h : Joins s results) :
    Joins t results := by
  have hbefore := hagrees.before hstep
  cases hstep with
  | acted hi hrunning => exact h
  | finished how hi hrunning => exact h
  | rolledBack hresult => exact h
  | returned elapsedMs hresult hid =>
    refine ⟨h.1, fun r hr => ⟨elapsedMs, ?_⟩⟩
    have hnil : results.drop s.joined = [] := by
      rw [List.drop_eq_nil_iff, hagrees.1]
      exact List.getElem?_eq_none_iff.mp hid
    rw [h.1, hnil, Node.joinAll]
    exact (Option.some.inj hr).symm
  | @joined childId how elapsedMs hresult hid hfinished =>
    have hnext : results.drop s.joined =
        how.result childId s.joined :: results.drop (s.joined + 1) := by
      obtain ⟨hlt, hget⟩ := List.getElem?_eq_some_iff.mp
        (hbefore.2 s.joined childId how hid hfinished)
      rw [List.drop_eq_getElem_cons hlt, hget]
    cases hres : how.result childId s.joined with
    | error e =>
      refine ⟨h.1, fun r hr => ⟨elapsedMs, ?_⟩⟩
      rw [h.1, hnext, hres, Node.joinAll]
      exact (Option.some.inj hr).symm
    | ok res =>
      refine ⟨fun elapsed => ?_, fun r hr => ?_⟩
      · rw [h.1, hnext, hres, Node.joinAll]
        rfl
      · rw [Fork.take, hresult] at hr
        cases hr

/-- **What a fork returns** is what `Node.joinAll` makes of the results of its children, whatever
order they came in and whatever children that still run will return. -/
theorem result_eq_joinAll (h : Runs (step ids) start events t) {r : Except RuntimeError NodeOutput}
    (hr : t.result = some r) {results : List (Except RuntimeError NodeOutput)}
    (hagrees : Agrees ids t results) :
    ∃ elapsedMs, r = Node.joinAll elapsedMs 0 [] 0 0 results := by
  have hjoins : ∀ {t : Fork}, Runs (step ids) start events t → Agrees ids t results →
      Joins t results := by
    clear hr hagrees h
    induction events using List.reverseRecOn with
    | nil =>
      intro t h _
      cases h
      exact ⟨fun elapsedMs => rfl, fun r hr => by cases hr⟩
    | append_singleton events last ih =>
      intro t h hagrees
      obtain ⟨u, hu, hstep⟩ := Runs.concat_iff.mp h
      have hcases := step_cases hstep
      exact Joins.step hcases hagrees (ih hu (hagrees.before hcases))
  exact (hjoins h hagrees).2 r hr

/-- The task has returned the output. -/
def Returns (s : Fork) (i : ℕ) (out : NodeOutput) : Prop :=
  s.tasks i = .finished (.returned (.ok out))

theorem result_eq_ok_iff {childId : NodeId} {idx : ℕ} {how : ChildEnd} {out : NodeOutput} :
    how.result childId idx = .ok out ↔ how = .returned (.ok out) := by
  cases how with
  | returned result => simp [ChildEnd.result]
  | panicked what => simp [ChildEnd.result]

/-- The outputs of the tasks that have been joined, and what the fork has made of them. -/
structure Tracks (ids : List NodeId) (s : Fork) (outs : List NodeOutput) : Prop where
  length : outs.length = s.joined
  le : s.joined ≤ ids.length
  tasks : ∀ i out, outs[i]? = some out → Returns s i out
  combined : s.combined = outs.mapIdx fun i out => ("child_" ++ toString i, out.data)
  tokens : s.tokens = min (outs.map NodeOutput.tokens).sum u64Max
  cost : s.cost = (outs.map NodeOutput.costUsd).sum
  error : ∀ e, s.result = some (.error e) → ∃ childId how, ids[s.joined]? = some childId ∧
    s.tasks s.joined = .finished how ∧ how.result childId s.joined = .error e
  ok : ∀ out, s.result = some (.ok out) → s.joined = ids.length ∧
    ∃ elapsedMs, out = ⟨.obj s.combined, s.tokens, s.cost, elapsedMs, none⟩

theorem tracks_start (ids : List NodeId) : Tracks ids start [] where
  length := rfl
  le := Nat.zero_le _
  tasks i out h := by cases h
  combined := rfl
  tokens := rfl
  cost := rfl
  error e h := by cases h
  ok out h := by cases h

/-- A saturated total takes one more summand. -/
theorem saturatingAdd_min (total tokens : ℕ) :
    saturatingAdd (min total u64Max) tokens = min (total + tokens) u64Max := by
  rw [saturatingAdd]
  omega

/-- One more task has returned its output. -/
theorem returns_concat {outs : List NodeOutput} {res : NodeOutput}
    (h : ∀ i out, outs[i]? = some out → Returns s i out) (hres : Returns s outs.length res) (i : ℕ)
    (out : NodeOutput) (hi : (outs ++ [res])[i]? = some out) : Returns s i out := by
  rcases Nat.lt_or_ge i outs.length with hlt | hge
  · rw [List.getElem?_append_left hlt] at hi
    exact h i out hi
  · obtain ⟨n, rfl⟩ := Nat.exists_eq_add_of_le hge
    rw [List.getElem?_append_right hge, Nat.add_sub_cancel_left] at hi
    cases n with
    | zero =>
      obtain rfl := Option.some.inj hi
      exact hres
    | succ n => cases hi

theorem Tracks.step {a : Event} {outs : List NodeOutput} (h : Tracks ids s outs)
    (hstep : Stepped ids s a t) : ∃ outs', Tracks ids t outs' := by
  have htasks : ∀ i out, outs[i]? = some out → Returns t i out :=
    fun i out hi => hstep.tasks_finished (h.tasks i out hi)
  cases hstep with
  | acted hi hrunning => exact ⟨outs, h⟩
  | finished how hi hrunning =>
    refine ⟨outs, ⟨h.length, h.le, htasks, h.combined, h.tokens, h.cost, fun e he => ?_, h.ok⟩⟩
    obtain ⟨childId, how', hid, hfinished, hresult⟩ := h.error e he
    exact ⟨childId, how', hid, (Stepped.finished how hi hrunning).tasks_finished hfinished, hresult⟩
  | rolledBack hresult =>
    exact ⟨outs, ⟨h.length, h.le, htasks, h.combined, h.tokens, h.cost, h.error, h.ok⟩⟩
  | returned elapsedMs hresult hid =>
    refine ⟨outs, ⟨h.length, h.le, htasks, h.combined, h.tokens, h.cost, fun e he => (by cases he),
      fun out hout => ⟨le_antisymm h.le (List.getElem?_eq_none_iff.mp hid), elapsedMs, ?_⟩⟩⟩
    exact (Except.ok.inj (Option.some.inj hout)).symm
  | @joined childId how elapsedMs hresult hid hfinished =>
    cases hres : how.result childId s.joined with
    | error e =>
      rw [hres] at htasks
      refine ⟨outs, ⟨h.length, h.le, htasks, h.combined, h.tokens, h.cost, fun e' he' => ?_,
        fun out hout => by cases hout⟩⟩
      obtain rfl : e = e' := Except.error.inj (Option.some.inj he')
      exact ⟨childId, how, hid, hfinished, hres⟩
    | ok res =>
      rw [hres] at htasks
      rw [result_eq_ok_iff.mp hres, ← h.length] at hfinished
      refine ⟨outs ++ [res], ⟨?_, ?_, returns_concat htasks hfinished, ?_, ?_, ?_, fun e he => ?_,
        fun out hout => ?_⟩⟩
      · rw [List.length_append, h.length]
        rfl
      · exact (List.getElem?_eq_some_iff.mp hid).1
      · rw [List.mapIdx_concat, h.length, ← h.combined]
        rfl
      · rw [List.map_append, List.sum_append, List.map_singleton, List.sum_singleton,
          ← saturatingAdd_min, ← h.tokens]
        rfl
      · rw [List.map_append, List.sum_append, List.map_singleton, List.sum_singleton, ← h.cost]
        rfl
      · rw [Fork.take, hresult] at he
        cases he
      · rw [Fork.take, hresult] at hout
        cases hout

theorem tracks_of_runs (h : Runs (step ids) start events t) : ∃ outs, Tracks ids t outs :=
  Runs.invariant (I := fun s : Fork => ∃ outs, Tracks ids s outs) ⟨[], tracks_start ids⟩
    (fun _ _ _ _ ⟨_, hs⟩ hstep => hs.step (step_cases hstep)) h

/-! ## What has finished when the fork returns -/

/-- All tasks have finished. -/
def AllFinished (ids : List NodeId) (s : Fork) : Prop :=
  ∀ i < ids.length, ∃ how, s.tasks i = .finished how

/-- The tasks have returned these outputs. -/
def Outputs (ids : List NodeId) (s : Fork) (outs : List NodeOutput) : Prop :=
  outs.length = ids.length ∧ ∀ i out, outs[i]? = some out → Returns s i out

/-- **A fork that is joined.** When it has returned, all tasks have finished, and none of them acts
once the executor has begun to roll back; and a result has the outputs of all children under their
places, and the sums of their tokens and of their costs. -/
structure Joined (ids : List NodeId) (events : List Event) : Prop where
  finished : ∀ pre post s, events = pre ++ post → Runs (step ids) start pre s →
    s.result ≠ none → AllFinished ids s
  quiet : ∀ pre post, events = pre ++ .rollback :: post → ∀ i, .act i ∉ post
  output : ∀ s out, Runs (step ids) start events s → s.result = some (.ok out) →
    ∃ outs, Outputs ids s outs ∧
      out.data = .obj (outs.mapIdx fun i out => ("child_" ++ toString i, out.data)) ∧
      out.tokens = (outs.map NodeOutput.tokens).sum ∧
      out.costUsd = (outs.map NodeOutput.costUsd).sum

/-- As the fork comes to a task that has failed, those behind it have finished. -/
def FinishedBehind (ids : List NodeId) (events : List Event) : Prop :=
  ∀ pre elapsedMs post s childId how e, events = pre ++ .advance elapsedMs :: post →
    Runs (step ids) start pre s → ids[s.joined]? = some childId →
    s.tasks s.joined = .finished how → how.result childId s.joined = .error e →
    ∀ i, s.joined < i → i < ids.length → ∃ how', s.tasks i = .finished how'

/-- The tokens of a fork that has returned, all of whose tasks have returned outputs, fit in a
`u64`. -/
def TokensFit (ids : List NodeId) (events : List Event) : Prop :=
  ∀ s outs, Runs (step ids) start events s → s.result ≠ none → Outputs ids s outs →
    (outs.map NodeOutput.tokens).sum ≤ u64Max

theorem outputs_unique {outs outs' : List NodeOutput} (h : Outputs ids s outs)
    (h' : Outputs ids s outs') : outs = outs' := by
  refine List.ext_getElem (h.1.trans h'.1.symm) fun i hi hi' => ?_
  have heq := (h.2 i outs[i] (List.getElem?_eq_getElem hi)).symm.trans
    (h'.2 i outs'[i] (List.getElem?_eq_getElem hi'))
  exact Except.ok.inj (ChildEnd.returned.inj (Task.finished.inj heq))

/-- Among tasks that have returned outputs none has failed. -/
theorem Outputs.not_failed {outs : List NodeOutput} (h : Outputs ids s outs) (i : ℕ)
    {e : RuntimeError} : ¬ ∃ childId how, ids[i]? = some childId ∧ s.tasks i = .finished how ∧
      how.result childId i = .error e := by
  rintro ⟨childId, how, hid, hfinished, hres⟩
  have hi : i < outs.length := h.1 ▸ (List.getElem?_eq_some_iff.mp hid).1
  have hreturns : s.tasks i = .finished (.returned (.ok outs[i])) :=
    h.2 i _ (List.getElem?_eq_getElem hi)
  rw [hreturns] at hfinished
  cases hfinished
  cases hres

theorem Tracks.outputs {outs : List NodeOutput} (h : Tracks ids s outs)
    (hall : s.joined = ids.length) : Outputs ids s outs := ⟨h.length.trans hall, h.tasks⟩

/-- A task that has been joined has finished. -/
theorem Tracks.finished {outs : List NodeOutput} (h : Tracks ids s outs) {i : ℕ}
    (hi : i < s.joined) : ∃ how, s.tasks i = .finished how := by
  rw [← h.length] at hi
  exact ⟨_, h.tasks i _ (List.getElem?_eq_getElem hi)⟩

/-- The fork returns at a task that has failed, or when all have been joined. -/
theorem allFinished_of_finishedBehind (h : Runs (step ids) start events t)
    (hbehind : FinishedBehind ids events) (ht : t.result ≠ none) : AllFinished ids t := by
  obtain ⟨before, a, mid, u, u', rfl, hu, hstep, hmid, hnone, hsome⟩ :=
    Runs.crossed (P := fun s : Fork => s.result ≠ none) h (fun hstart => hstart rfl) ht
  obtain ⟨outs, htracks⟩ := tracks_of_runs hu
  have hall : AllFinished ids u := by
    intro i hi
    cases step_cases hstep with
    | acted hi hrunning => exact absurd hsome hnone
    | finished how hi hrunning => exact absurd hsome hnone
    | rolledBack hresult => exact absurd hsome hnone
    | returned elapsedMs hresult hid =>
      exact htracks.finished (hi.trans_le (List.getElem?_eq_none_iff.mp hid))
    | @joined childId how elapsedMs hresult hid hfinished =>
      rcases lt_trichotomy i u.joined with hlt | rfl | hgt
      · exact htracks.finished hlt
      · exact ⟨how, hfinished⟩
      · -- nobody waited for this one
        cases hres : how.result childId u.joined with
        | error e =>
          exact hbehind before elapsedMs mid u childId how e rfl hu hid hfinished hres i hgt hi
        | ok res =>
          rw [hres] at hsome
          exact absurd hresult hsome
  intro i hi
  obtain ⟨how, hhow⟩ := hall i hi
  exact ⟨how, tasks_finished_of_runs hmid ((step_cases hstep).tasks_finished hhow)⟩

/-- The fork returns the error of a failed task that it comes to. -/
theorem take_of_advance {childId : NodeId} {how : ChildEnd} {e : RuntimeError} {elapsedMs : ℕ}
    (hstep : step ids s (.advance elapsedMs) = .ok t) (hid : ids[s.joined]? = some childId)
    (hfinished : s.tasks s.joined = .finished how) (hres : how.result childId s.joined = .error e) :
    t = s.take (.error e) := by
  cases step_cases hstep with
  | returned _ _ hid' =>
    rw [hid] at hid'
    cases hid'
  | joined _ _ hid' hfinished' =>
    rw [hid] at hid'
    rw [hfinished] at hfinished'
    cases hid'
    cases hfinished'
    rw [hres]

theorem finishedBehind_of_joined (h : Runs (step ids) start events t)
    (hjoined : Joined ids events) : FinishedBehind ids events := by
  rintro pre elapsedMs post s childId how e rfl hs hid hfinished hres i hlt hi
  obtain ⟨u, hu, hrest⟩ := Runs.append_iff.mp h
  obtain rfl := hs.unique hu
  obtain ⟨s', hstep, -⟩ := Runs.cons_iff.mp hrest
  have hs' : Runs (step ids) start (pre ++ [.advance elapsedMs]) s' :=
    Runs.concat_iff.mpr ⟨s, hs, hstep⟩
  obtain rfl := take_of_advance hstep hid hfinished hres
  exact hjoined.finished _ post _ (by simp) hs' (Option.some_ne_none _) i hi

theorem tokensFit_of_joined (hjoined : Joined ids events) : TokensFit ids events := by
  intro s outs hs hresult houts
  obtain ⟨outs', htracks⟩ := tracks_of_runs hs
  rcases hr : s.result with _ | ⟨e | out⟩
  · exact absurd hr hresult
  · exact absurd (htracks.error e hr) (houts.not_failed s.joined)
  · obtain ⟨outs'', houts'', -, htokens, -⟩ := hjoined.output s out hs hr
    obtain ⟨hall, elapsedMs, rfl⟩ := htracks.ok out hr
    obtain rfl := outputs_unique houts houts''
    obtain rfl := outputs_unique houts (htracks.outputs hall)
    rw [← htokens, htracks.tokens]
    exact min_le_right _ _

/-- Where all tasks have finished as the fork returns, none acts behind the rollback. -/
theorem quiet_of_finished (h : Runs (step ids) start events t)
    (hpast : ∀ pre post s, events = pre ++ post → Runs (step ids) start pre s → s.result ≠ none →
      AllFinished ids s) (pre post : List Event) (hsplit : events = pre ++ .rollback :: post)
    (i : ℕ) : .act i ∉ post := by
  intro hmem
  rw [hsplit] at h
  obtain ⟨s, hs, hrest⟩ := Runs.append_iff.mp h
  obtain ⟨s', hrollback, hpost⟩ := Runs.cons_iff.mp hrest
  obtain ⟨before, after, rfl⟩ := List.append_of_mem hmem
  obtain ⟨w, hw, hact⟩ := Runs.append_iff.mp hpost
  obtain ⟨w', hact, -⟩ := Runs.cons_iff.mp hact
  cases step_cases hact with
  | acted hi hrunning =>
    cases step_cases hrollback with
    | rolledBack hresult =>
      obtain ⟨how, hhow⟩ :=
        hpast pre _ s hsplit hs (by rw [hresult]; exact Option.some_ne_none _) i hi
      have hlater : w.tasks i = .finished how := tasks_finished_of_runs hw hhow
      rw [hrunning] at hlater
      cases hlater

/-- Where the tokens fit, a result holds what the children have returned. -/
theorem output_of_tokensFit (hfit : TokensFit ids events) {out : NodeOutput}
    (hs : Runs (step ids) start events s) (hout : s.result = some (.ok out)) :
    ∃ outs, Outputs ids s outs ∧
      out.data = .obj (outs.mapIdx fun i out => ("child_" ++ toString i, out.data)) ∧
      out.tokens = (outs.map NodeOutput.tokens).sum ∧
      out.costUsd = (outs.map NodeOutput.costUsd).sum := by
  obtain ⟨outs, htracks⟩ := tracks_of_runs hs
  obtain ⟨hall, elapsedMs, rfl⟩ := htracks.ok out hout
  have houts := htracks.outputs hall
  have hsum := hfit s outs hs (by rw [hout]; exact Option.some_ne_none _) houts
  refine ⟨outs, houts, by rw [htracks.combined], ?_, htracks.cost⟩
  rw [htracks.tokens, min_eq_left hsum]

/-- **Forks are joined exactly when nothing runs behind the first failure**: as the fork comes to a
child that has failed, those behind it have finished; and the tokens of children that have all
succeeded fit in a `u64`. -/
theorem forks_joined_iff (h : Runs (step ids) start events t) :
    Joined ids events ↔ FinishedBehind ids events ∧ TokensFit ids events := by
  constructor
  · intro hjoined
    exact ⟨finishedBehind_of_joined h hjoined, tokensFit_of_joined hjoined⟩
  · rintro ⟨hbehind, hfit⟩
    have hpast : ∀ pre post s, events = pre ++ post → Runs (step ids) start pre s →
        s.result ≠ none → AllFinished ids s := by
      rintro pre post s rfl hs
      -- a failure in the part is one in the whole run
      refine allFinished_of_finishedBehind hs ?_
      intro pre' elapsedMs post' s' childId how e hsplit
      exact hbehind pre' elapsedMs (post' ++ post) s' childId how e (by simp [hsplit])
    exact ⟨hpast, quiet_of_finished h hpast, fun s out => output_of_tokensFit hfit⟩

end Results

namespace SampleFork

def ids : List NodeId := [⟨"lookup"⟩, ⟨"refund"⟩]

/-- The first child fails, and the second one acts when the executor has begun to roll back. -/
def events : List Event :=
  [.finish 0 (.returned (.error (.node "no such order"))), .advance 3, .rollback, .act 1]

theorem possible : ∃ t, Runs (step ids) start events t ∧ t.rollingBack = true :=
  ⟨_, runs_iff_final.mpr rfl, rfl⟩

end SampleFork

theorem forks_joined_iff_sample :
    ∃ t, Runs (step SampleFork.ids) start SampleFork.events t ∧
      (Joined SampleFork.ids SampleFork.events ↔
        FinishedBehind SampleFork.ids SampleFork.events ∧
          TokensFit SampleFork.ids SampleFork.events) := by
  obtain ⟨t, ht, -⟩ := SampleFork.possible
  exact ⟨t, ht, forks_joined_iff ht⟩

/-- The second child was not waited for. -/
theorem acts_behind_rollback :
    ∃ t, Runs (step SampleFork.ids) start SampleFork.events t ∧ t.rollingBack = true ∧
      ¬ Joined SampleFork.ids SampleFork.events := by
  obtain ⟨t, ht, hrollingBack⟩ := SampleFork.possible
  refine ⟨t, ht, hrollingBack, fun h => ?_⟩
  exact h.quiet (SampleFork.events.take 2) [.act 1] rfl 1 List.mem_cons_self

end ForkJoin

end Aaf
