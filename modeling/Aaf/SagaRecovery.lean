import Mathlib.Data.List.Nodup
import Aaf.Saga

/-!
# What a saga run did, read off its log

The forward loop and the rollback loop each keep one invariant. Forward
(`Progress`): the list `completed` is the list of the steps that answered `Ok`, and
no compensation has been called. Backward (`Unwound`): the steps taken back so far
are split into compensated, preserved and failed ones, and the compensator was
called once for each that declares a compensation and is not preserved.

A run that does not complete leaves the forward loop at one failing step
(`FailsAt`), and its end is a function of what that step's rule says. From this
follow the exactness of rollback, and the two conditions under which the outcome
accounts for every completed step and the executor's state agrees with its result.
-/

namespace Aaf

/-! ## Reading the log -/

/-- The step that completed. -/
def SagaEvent.completes : SagaEvent → Option SagaStep
  | .ran step .ok => some step
  | _ => none

/-- The step that was run. -/
def SagaEvent.runs : SagaEvent → Option SagaStep
  | .ran step _ => some step
  | _ => none

/-- The step whose compensation was called. -/
def SagaEvent.undoes : SagaEvent → Option SagaStep
  | .compensated step _ => some step
  | _ => none

/-- The step whose compensation was called and failed. -/
def SagaEvent.failsToUndo : SagaEvent → Option SagaStep
  | .compensated step (.error _) => some step
  | _ => none

/-- The completed steps, in the order of completion. -/
def completedSteps (log : List SagaEvent) : List SagaStep := log.filterMap SagaEvent.completes

/-- The steps run, a retried one twice. -/
def ranSteps (log : List SagaEvent) : List SagaStep := log.filterMap SagaEvent.runs

/-- The steps the compensator was called for, in the order of the calls. -/
def compensationCalls (log : List SagaEvent) : List SagaStep := log.filterMap SagaEvent.undoes

/-- The steps the compensator was called for in vain. -/
def failedCompensations (log : List SagaEvent) : List SagaStep :=
  log.filterMap SagaEvent.failsToUndo

/-- The states of a recovery under way. -/
def SagaState.isRecovering : SagaState → Bool
  | .stepFailed => true
  | .analyzing => true
  | .recoverySelected => true
  | .partialCompensation => true
  | .fullCompensation => true
  | _ => false

namespace SagaExecutor

variable {ω : Type} {exec : SagaExecutor ω} {defn : SagaDefinition}

/-- One more call of the step closure, seen by the projections. -/
theorem completedSteps_callRunner (r : SagaRun ω) (step : SagaStep) :
    completedSteps (exec.callRunner r step).log =
      completedSteps r.log ++ if (exec.runner step r.world).1 = .ok then [step] else [] := by
  rw [callRunner, completedSteps, List.filterMap_append]
  cases (exec.runner step r.world).1 with
  | ok => rfl
  | failedWithTag tag => rfl

theorem ranSteps_callRunner (r : SagaRun ω) (step : SagaStep) :
    ranSteps (exec.callRunner r step).log = ranSteps r.log ++ [step] := by
  rw [callRunner, ranSteps, List.filterMap_append]
  rfl

theorem compensationCalls_callRunner (r : SagaRun ω) (step : SagaStep) :
    compensationCalls (exec.callRunner r step).log = compensationCalls r.log := by
  rw [callRunner, compensationCalls, List.filterMap_append]
  exact List.append_nil _

/-- One more call of the compensation closure, seen by the projections. -/
theorem completedSteps_callCompensator (r : SagaRun ω) (step : SagaStep) :
    completedSteps (exec.callCompensator r step).log = completedSteps r.log := by
  rw [callCompensator, completedSteps, List.filterMap_append]
  exact List.append_nil _

theorem ranSteps_callCompensator (r : SagaRun ω) (step : SagaStep) :
    ranSteps (exec.callCompensator r step).log = ranSteps r.log := by
  rw [callCompensator, ranSteps, List.filterMap_append]
  exact List.append_nil _

theorem compensationCalls_callCompensator (r : SagaRun ω) (step : SagaStep) :
    compensationCalls (exec.callCompensator r step).log = compensationCalls r.log ++ [step] := by
  rw [callCompensator, compensationCalls, List.filterMap_append]
  rfl

theorem failedCompensations_of_ok {r : SagaRun ω} {step : SagaStep} {u : Unit}
    (h : (exec.compensator step r.world).1 = .ok u) :
    failedCompensations (exec.callCompensator r step).log = failedCompensations r.log := by
  rw [callCompensator, failedCompensations, List.filterMap_append, h]
  exact List.append_nil _

theorem failedCompensations_of_error {r : SagaRun ω} {step : SagaStep} {message : String}
    (h : (exec.compensator step r.world).1 = .error message) :
    failedCompensations (exec.callCompensator r step).log =
      failedCompensations r.log ++ [step] := by
  rw [callCompensator, failedCompensations, List.filterMap_append, h]
  rfl

/-- A compensation that failed was called. -/
theorem failedCompensations_subset (log : List SagaEvent) {step : SagaStep}
    (h : step ∈ failedCompensations log) : step ∈ compensationCalls log := by
  obtain ⟨e, he, hstep⟩ := List.mem_filterMap.mp h
  refine List.mem_filterMap.mpr ⟨e, he, ?_⟩
  rcases e with ⟨s, r⟩ | ⟨s, r | r⟩
  · cases hstep
  · exact hstep
  · cases hstep

/-! ## The forward loop -/

/-- The forward loop has taken the steps `pre` and goes on. -/
def Reaches (exec : SagaExecutor ω) (defn : SagaDefinition) (w : ω) (pre : List SagaStep)
    (fw : Forward ω) : Prop :=
  pre.foldlM (exec.advance defn) (start w) = .ok fw

/-- The forward loop comes to `step`, and its call fails with `tag`. -/
structure FailsAt (exec : SagaExecutor ω) (defn : SagaDefinition) (w : ω)
    (pre : List SagaStep) (step : SagaStep) (post : List SagaStep) (fw : Forward ω)
    (tag : String) : Prop where
  split : defn.steps = pre ++ step :: post
  reached : exec.Reaches defn w pre fw
  failed : (exec.runner step fw.run.world).1 = .failedWithTag tag

/-- The run after a failing call, when the recovery has been selected. -/
def afterFailure (exec : SagaExecutor ω) (r : SagaRun ω) (step : SagaStep) : SagaRun ω :=
  { exec.callRunner r step with state := .recoverySelected }

theorem advance_of_ok {fw : Forward ω} {step : SagaStep}
    (h : (exec.runner step fw.run.world).1 = .ok) :
    exec.advance defn fw step =
      .ok ⟨exec.callRunner fw.run step, fw.completed ++ [step.step]⟩ := by
  rw [advance, h]

theorem advance_of_failed {fw : Forward ω} {step : SagaStep} {tag : String}
    (h : (exec.runner step fw.run.world).1 = .failedWithTag tag) :
    exec.advance defn fw step =
      exec.recover defn step tag (exec.callRunner fw.run step) fw.completed := by
  rw [advance, h]

/-- The two actions that roll back. -/
def rollsBack (action : RecoveryAction) : Prop :=
  action = .fullCompensation ∨ action = .partialCompensation

/-- What the failure branch comes to: the loop goes on, with the step skipped or
completed by its retry, or the run ends by rollback, by a pause, or by a retry that
fails. -/
inductive Recovery (exec : SagaExecutor ω) (defn : SagaDefinition) (step : SagaStep)
    (tag : String) (r : SagaRun ω) (completed : List UInt32) :
    Except (SagaEnd ω) (Forward ω) → Prop
  | rolledBack (haction : rollsBack (decideRecovery tag step.onFailure).action) :
      Recovery exec defn step tag r completed
        (.error (exec.rollBack defn step (decideRecovery tag step.onFailure)
          (exec.afterFailure r step) completed))
  | paused (haction : (decideRecovery tag step.onFailure).action = .pauseAndAskUser) :
      Recovery exec defn step tag r completed
        (.error ⟨.ok (.pendingUser step.step),
          { exec.afterFailure r step with state := .waitingForInput }⟩)
  | retried (haction : (decideRecovery tag step.onFailure).action = .retryWithAlternative)
      (hagain : (exec.runner step (exec.afterFailure r step).world).1 = .ok) :
      Recovery exec defn step tag r completed
        (.ok ⟨exec.callRunner (exec.afterFailure r step) step, completed ++ [step.step]⟩)
  | gaveUp (haction : (decideRecovery tag step.onFailure).action = .retryWithAlternative)
      (hagain : (exec.runner step (exec.afterFailure r step).world).1 ≠ .ok) :
      Recovery exec defn step tag r completed
        (.error ⟨.ok (.failed step.step .retryWithAlternative [] []),
          { exec.callRunner (exec.afterFailure r step) step with state := .failed }⟩)
  | skipped (haction : (decideRecovery tag step.onFailure).action = .skip) :
      Recovery exec defn step tag r completed (.ok ⟨exec.afterFailure r step, completed⟩)

theorem recover_cases (exec : SagaExecutor ω) (defn : SagaDefinition) (step : SagaStep)
    (tag : String) (r : SagaRun ω) (completed : List UInt32) :
    Recovery exec defn step tag r completed
      (exec.recover defn step tag (exec.callRunner r step) completed) := by
  rw [recover]
  rcases haction : (decideRecovery tag step.onFailure).action with _ | _ | _ | _ | _
  · exact .paused haction
  · dsimp only
    rcases hagain : (exec.runner step (exec.callRunner r step).world).1 with _ | tag'
    · exact .retried haction hagain
    · exact .gaveUp haction (hagain ▸ nofun)
  · exact .rolledBack (Or.inr haction)
  · exact .rolledBack (Or.inl haction)
  · exact .skipped haction

/-- The forward loop's invariant, indexed by the steps taken. -/
structure Progress (pre : List SagaStep) (fw : Forward ω) : Prop where
  completed_eq : fw.completed = (completedSteps fw.run.log).map (·.step)
  sublist : (completedSteps fw.run.log).Sublist pre
  ran : ∀ s ∈ ranSteps fw.run.log, s ∈ pre
  calls : compensationCalls fw.run.log = []

/-- A step that answered `Ok` joins the completed ones. -/
theorem Progress.concat {pre : List SagaStep} {fw : Forward ω} {step : SagaStep}
    (h : Progress pre fw) {r : SagaRun ω}
    (hdone : completedSteps r.log = completedSteps fw.run.log ++ [step])
    (hran : ∀ s ∈ ranSteps r.log, s ∈ ranSteps fw.run.log ∨ s = step)
    (hcalls : compensationCalls r.log = compensationCalls fw.run.log) :
    Progress (pre ++ [step]) (⟨r, fw.completed ++ [step.step]⟩ : Forward ω) := by
  refine ⟨?_, ?_, fun s hs => ?_, hcalls.trans h.calls⟩
  · rw [hdone, List.map_append, h.completed_eq]
    rfl
  · rw [hdone]
    exact h.sublist.append (List.Sublist.refl [step])
  · rcases hran s hs with hs | rfl
    · exact List.mem_append_left _ (h.ran s hs)
    · exact List.mem_append_right _ (List.mem_singleton.mpr rfl)

/-- The run after a failing call, seen by the projections. -/
theorem afterFailure_log {r : SagaRun ω} {step : SagaStep}
    (h : (exec.runner step r.world).1 ≠ .ok) :
    completedSteps (exec.afterFailure r step).log = completedSteps r.log ∧
      ranSteps (exec.afterFailure r step).log = ranSteps r.log ++ [step] ∧
      compensationCalls (exec.afterFailure r step).log = compensationCalls r.log := by
  refine ⟨?_, ranSteps_callRunner r step, compensationCalls_callRunner r step⟩
  have hdone : completedSteps (exec.callRunner r step).log = completedSteps r.log := by
    rw [completedSteps_callRunner, if_neg h, List.append_nil]
  exact hdone

/-- One step of the forward loop keeps the invariant. -/
theorem Progress.advance {pre : List SagaStep} {fw fw' : Forward ω} {step : SagaStep}
    (h : Progress pre fw) (hadv : exec.advance defn fw step = .ok fw') :
    Progress (pre ++ [step]) fw' := by
  rcases hres : (exec.runner step fw.run.world).1 with _ | tag
  · rw [advance_of_ok hres] at hadv
    cases hadv
    refine h.concat ?_ (fun s hs => ?_) (compensationCalls_callRunner _ _)
    · rw [completedSteps_callRunner, if_pos hres]
    · rw [ranSteps_callRunner, List.mem_append, List.mem_singleton] at hs
      exact hs
  · rw [advance_of_failed hres] at hadv
    have hne : (exec.runner step fw.run.world).1 ≠ .ok := by
      rw [hres]
      exact nofun
    obtain ⟨hdone, hran, hcalls⟩ := afterFailure_log hne
    have hcases := exec.recover_cases defn step tag fw.run fw.completed
    rw [hadv] at hcases
    cases hcases with
    | retried haction hagain =>
      refine h.concat ?_ (fun s hs => ?_) ?_
      · rw [completedSteps_callRunner, if_pos hagain, hdone]
      · rw [ranSteps_callRunner, hran, List.mem_append, List.mem_append, List.mem_singleton] at hs
        rcases hs with (hs | hs) | hs
        · exact Or.inl hs
        · exact Or.inr hs
        · exact Or.inr hs
      · rw [compensationCalls_callRunner, hcalls]
    | skipped haction =>
      refine ⟨?_, ?_, fun s hs => ?_, hcalls.trans h.calls⟩
      · rw [hdone]
        exact h.completed_eq
      · rw [hdone]
        exact h.sublist.trans (List.sublist_append_left _ _)
      · rw [hran, List.mem_append] at hs
        exact List.mem_append.mpr (hs.imp_left (h.ran s))

theorem progress_start (w : ω) : Progress [] (start w) :=
  ⟨rfl, List.Sublist.refl [], fun _ hs => absurd hs List.not_mem_nil, rfl⟩

/-- What the forward loop knows whenever it goes on. -/
theorem Reaches.progress {w : ω} {pre : List SagaStep} {fw : Forward ω}
    (h : exec.Reaches defn w pre fw) : Progress pre fw :=
  Loop.foldlM_ok (I := Progress) (progress_start w)
    (fun _ _ _ _ hI hadv => hI.advance hadv) h

/-! ## How a run ends -/

/-- A run completes, or it ends where a step fails. -/
theorem run_cases (exec : SagaExecutor ω) (defn : SagaDefinition) (w : ω) :
    (∃ fw, exec.Reaches defn w defn.steps fw ∧
      exec.run defn w = ⟨.ok (.completed fw.completed), { fw.run with state := .completed }⟩) ∨
    ∃ pre step post fw tag, exec.FailsAt defn w pre step post fw tag ∧
      exec.recover defn step tag (exec.callRunner fw.run step) fw.completed =
        .error (exec.run defn w) := by
  rw [run]
  rcases hfold : defn.steps.foldlM (exec.advance defn) (start w) with e | fw
  · obtain ⟨pre, step, post, fw, hsplit, hpre, hstep⟩ := Loop.foldlM_error_iff.mp hfold
    rcases hres : (exec.runner step fw.run.world).1 with _ | tag
    · rw [advance_of_ok hres] at hstep
      cases hstep
    · rw [advance_of_failed hres] at hstep
      exact Or.inr ⟨pre, step, post, fw, tag, ⟨hsplit, hpre, hres⟩, hstep⟩
  · exact Or.inl ⟨fw, hfold, rfl⟩

/-- Where the failure branch ends a run, the run ends as it says. -/
theorem FailsAt.run_eq {w : ω} {pre post : List SagaStep} {step : SagaStep} {fw : Forward ω}
    {tag : String} (h : exec.FailsAt defn w pre step post fw tag) {e : SagaEnd ω}
    (he : exec.recover defn step tag (exec.callRunner fw.run step) fw.completed = .error e) :
    exec.run defn w = e := by
  have hfold : defn.steps.foldlM (exec.advance defn) (start w) = .error e := by
    refine Loop.foldlM_error_iff.mpr ⟨pre, step, post, fw, h.split, h.reached, ?_⟩
    rw [advance_of_failed h.failed]
    exact he
  rw [run, hfold]

/-! ## The rollback loop -/

/-- The decision leaves the step's effects in place. -/
def keeps (action : RecoveryAction) (preserveSet : List UInt32) (n : UInt32) : Bool :=
  decide (action = .partialCompensation ∧ n ∈ preserveSet)

/-- The step whose compensation takes number `n` back, if it declares one. -/
def undoStep (defn : SagaDefinition) (n : UInt32) : Option SagaStep :=
  (defn.steps.find? fun s => decide (s.step = n)).filter fun s => s.compensation.isSome

/-- The branches of the rollback loop's body. -/
inductive Unwinding (exec : SagaExecutor ω) (defn : SagaDefinition) (action : RecoveryAction)
    (preserveSet : List UInt32) (u : Unwind ω) (done : UInt32) :
    Except (SagaEnd ω) (Unwind ω) → Prop
  | kept (hkeep : keeps action preserveSet done = true) :
      Unwinding exec defn action preserveSet u done
        (.ok { u with preserved := u.preserved ++ [done] })
  | unknown (hkeep : keeps action preserveSet done = false)
      (hfind : (defn.steps.find? fun s => decide (s.step = done)) = none) :
      Unwinding exec defn action preserveSet u done (.error ⟨.panic "known", u.run⟩)
  | bare (hkeep : keeps action preserveSet done = false) (hundo : undoStep defn done = none) :
      Unwinding exec defn action preserveSet u done
        (.ok { u with compensated := u.compensated ++ [done] })
  | undone {s : SagaStep} {v : Unit} (hkeep : keeps action preserveSet done = false)
      (hundo : undoStep defn done = some s) (hcall : (exec.compensator s u.run.world).1 = .ok v) :
      Unwinding exec defn action preserveSet u done
        (.ok { u with
          run := exec.callCompensator u.run s
          compensated := u.compensated ++ [done] })
  | tolerated {s : SagaStep} {message : String} (hkeep : keeps action preserveSet done = false)
      (hundo : undoStep defn done = some s)
      (hcall : (exec.compensator s u.run.world).1 = .error message)
      (htype : s.compensationType ≠ .mandatory) :
      Unwinding exec defn action preserveSet u done
        (.ok { u with run := exec.callCompensator u.run s })
  | fatal {s : SagaStep} {message : String} (hkeep : keeps action preserveSet done = false)
      (hundo : undoStep defn done = some s)
      (hcall : (exec.compensator s u.run.world).1 = .error message)
      (htype : s.compensationType = .mandatory) :
      Unwinding exec defn action preserveSet u done
        (.error ⟨.err (.mandatoryCompensationFailed done), exec.callCompensator u.run s⟩)

theorem unwindOne_cases (exec : SagaExecutor ω) (defn : SagaDefinition) (action : RecoveryAction)
    (preserveSet : List UInt32) (u : Unwind ω) (done : UInt32) :
    Unwinding exec defn action preserveSet u done
      (exec.unwindOne defn action preserveSet u done) := by
  rw [unwindOne]
  by_cases hkeep : action = .partialCompensation ∧ done ∈ preserveSet
  · rw [if_pos hkeep]
    exact .kept (decide_eq_true hkeep)
  rw [if_neg hkeep]
  have hkeep' : keeps action preserveSet done = false := decide_eq_false hkeep
  rcases hfind : defn.steps.find? (fun s => decide (s.step = done)) with _ | s
  · rw [hfind]
    exact .unknown hkeep' hfind
  rw [hfind]
  dsimp only
  by_cases hsome : s.compensation.isSome = true
  · have hundo : undoStep defn done = some s := by
      rw [undoStep, hfind, Option.filter_some, if_pos hsome]
    rw [if_pos hsome]
    rcases hcall : (exec.compensator s u.run.world).1 with message | v
    · dsimp only
      by_cases htype : s.compensationType = .mandatory
      · rw [if_pos htype]
        exact .fatal hkeep' hundo hcall htype
      · rw [if_neg htype]
        exact .tolerated hkeep' hundo hcall htype
    · exact .undone hkeep' hundo hcall
  · have hundo : undoStep defn done = none := by
      rw [undoStep, hfind, Option.filter_some, if_neg hsome]
    rw [if_neg hsome]
    exact .bare hkeep' hundo

/-- The step found for a number has that number, and belongs to the definition. -/
theorem undoStep_eq_some {n : UInt32} {s : SagaStep} (h : undoStep defn n = some s) :
    s.step = n ∧ s ∈ defn.steps ∧ s.compensation.isSome = true := by
  rw [undoStep, Option.filter_eq_some_iff] at h
  obtain ⟨hfind, hsome⟩ := h
  have hnum := List.find?_some hfind
  exact ⟨of_decide_eq_true hnum, List.mem_of_find?_eq_some hfind, hsome⟩

/-- The rollback loop's invariant, indexed by the steps taken back; `r₀` is the run
before the rollback. -/
structure Unwound (defn : SagaDefinition) (action : RecoveryAction) (preserveSet : List UInt32)
    (r₀ : SagaRun ω) (l : List UInt32) (u : Unwind ω) : Prop where
  completed_eq : completedSteps u.run.log = completedSteps r₀.log
  ran_eq : ranSteps u.run.log = ranSteps r₀.log
  state_eq : u.run.state = r₀.state
  calls_eq : compensationCalls u.run.log =
    (l.filter fun n => !keeps action preserveSet n).filterMap (undoStep defn)
  preserved_eq : u.preserved = l.filter (keeps action preserveSet)
  /-- every step taken back is compensated, preserved, or failed to be compensated -/
  perm : (u.compensated ++ u.preserved ++
    (failedCompensations u.run.log).map (·.step)).Perm l
  tolerated : ∀ s ∈ failedCompensations u.run.log, s.compensationType ≠ .mandatory

/-- A call to the compensator keeps the invariant, if its outcome is accounted for. -/
theorem Unwound.called {action : RecoveryAction} {preserveSet : List UInt32} {r₀ : SagaRun ω}
    {l compensated : List UInt32} {u : Unwind ω} {done : UInt32} {s : SagaStep}
    (h : Unwound defn action preserveSet r₀ l u) (hkeep : keeps action preserveSet done = false)
    (hundo : undoStep defn done = some s)
    (hperm : (compensated ++ u.preserved ++
      (failedCompensations (exec.callCompensator u.run s).log).map (·.step)).Perm (l ++ [done]))
    (htolerated : ∀ s' ∈ failedCompensations (exec.callCompensator u.run s).log,
      s'.compensationType ≠ .mandatory) :
    Unwound defn action preserveSet r₀ (l ++ [done])
      ⟨exec.callCompensator u.run s, compensated, u.preserved⟩ := by
  refine ⟨?_, ?_, h.state_eq, ?_, ?_, hperm, htolerated⟩
  · rw [completedSteps_callCompensator, h.completed_eq]
  · rw [ranSteps_callCompensator, h.ran_eq]
  · rw [compensationCalls_callCompensator, h.calls_eq, List.filter_append, List.filterMap_append]
    simp [hkeep, hundo]
  · rw [h.preserved_eq, List.filter_append]
    simp [hkeep]

/-- One more step taken back keeps the invariant. -/
theorem Unwound.step {action : RecoveryAction} {preserveSet : List UInt32} {r₀ : SagaRun ω}
    {l : List UInt32} {u u' : Unwind ω} {done : UInt32}
    (h : Unwound defn action preserveSet r₀ l u)
    (hstep : exec.unwindOne defn action preserveSet u done = .ok u') :
    Unwound defn action preserveSet r₀ (l ++ [done]) u' := by
  have hcases := exec.unwindOne_cases defn action preserveSet u done
  rw [hstep] at hcases
  have hcount := fun n => h.perm.count_eq n
  simp only [List.count_append] at hcount
  cases hcases with
  | kept hkeep =>
    refine ⟨h.completed_eq, h.ran_eq, h.state_eq, ?_, ?_, ?_, h.tolerated⟩
    · rw [h.calls_eq, List.filter_append, List.filterMap_append]
      simp [hkeep]
    · rw [h.preserved_eq, List.filter_append]
      simp [hkeep]
    · refine List.perm_iff_count.mpr fun n => ?_
      have := hcount n
      simp only [List.count_append]
      omega
  | bare hkeep hundo =>
    refine ⟨h.completed_eq, h.ran_eq, h.state_eq, ?_, ?_, ?_, h.tolerated⟩
    · rw [h.calls_eq, List.filter_append, List.filterMap_append]
      simp [hkeep, hundo]
    · rw [h.preserved_eq, List.filter_append]
      simp [hkeep]
    · refine List.perm_iff_count.mpr fun n => ?_
      have := hcount n
      simp only [List.count_append]
      omega
  | undone hkeep hundo hcall =>
    refine h.called hkeep hundo ?_ ?_
    · refine List.perm_iff_count.mpr fun n => ?_
      have := hcount n
      simp only [failedCompensations_of_ok hcall, List.count_append]
      omega
    · rw [failedCompensations_of_ok hcall]
      exact h.tolerated
  | tolerated hkeep hundo hcall htype =>
    obtain ⟨hnum, -, -⟩ := undoStep_eq_some hundo
    refine h.called hkeep hundo ?_ ?_
    · refine List.perm_iff_count.mpr fun n => ?_
      have := hcount n
      simp only [failedCompensations_of_error hcall, List.map_append, List.map_cons, List.map_nil,
        hnum, List.count_append]
      omega
    · rw [failedCompensations_of_error hcall]
      intro s' hs'
      rcases List.mem_append.mp hs' with hs' | hs'
      · exact h.tolerated s' hs'
      · rw [List.mem_singleton] at hs'
        rw [hs']
        exact htype

/-- No step is both compensated and preserved, or failed to be compensated. -/
theorem Unwound.disjoint {action : RecoveryAction} {preserveSet : List UInt32} {r₀ : SagaRun ω}
    {l : List UInt32} {u : Unwind ω} (h : Unwound defn action preserveSet r₀ l u)
    (hnodup : l.Nodup) :
    u.compensated.Disjoint u.preserved ∧
      u.compensated.Disjoint ((failedCompensations u.run.log).map (·.step)) ∧
      u.preserved.Disjoint ((failedCompensations u.run.log).map (·.step)) := by
  have hparts := h.perm.nodup_iff.mpr hnodup
  rw [List.nodup_append', List.nodup_append'] at hparts
  obtain ⟨⟨-, -, hcp⟩, -, hrest⟩ := hparts
  exact ⟨hcp, fun n hn => hrest (List.mem_append_left _ hn),
    fun n hn => hrest (List.mem_append_right _ hn)⟩

/-- A full compensation preserves nothing. -/
theorem Unwound.preserved_nil {preserveSet : List UInt32} {r₀ : SagaRun ω} {l : List UInt32}
    {u : Unwind ω} (h : Unwound defn .fullCompensation preserveSet r₀ l u) :
    u.preserved = [] := by
  rw [h.preserved_eq, List.filter_eq_nil_iff]
  intro n _ hkeeps
  cases (of_decide_eq_true hkeeps).1

/-- Everything the rollback loop did, when it ran to its end. -/
theorem Unwound.all {action : RecoveryAction} {preserveSet : List UInt32} {r₀ : SagaRun ω}
    (hcalls : compensationCalls r₀.log = []) {l : List UInt32} {u : Unwind ω}
    (h : l.foldlM (exec.unwindOne defn action preserveSet) ⟨r₀, [], []⟩ = .ok u) :
    Unwound defn action preserveSet r₀ l u := by
  have hfailed : failedCompensations r₀.log = [] := by
    refine List.eq_nil_iff_forall_not_mem.mpr fun s hs => ?_
    have := failedCompensations_subset r₀.log hs
    rw [hcalls] at this
    cases this
  have hstart : Unwound defn action preserveSet r₀ [] (⟨r₀, [], []⟩ : Unwind ω) := by
    refine ⟨rfl, rfl, rfl, hcalls, rfl, ?_, ?_⟩
    · rw [hfailed]
      exact List.Perm.refl []
    · rw [hfailed]
      exact fun _ hs => absurd hs List.not_mem_nil
  exact Loop.foldlM_ok (I := Unwound defn action preserveSet r₀) hstart
    (fun _ _ _ _ hI hstep => hI.step hstep) h

/-- Every mandatory compensation of the rollback succeeds: the completed steps `l`
are taken back in turn, from the world `w`. -/
def MandatoryHolds (exec : SagaExecutor ω) (defn : SagaDefinition) (action : RecoveryAction)
    (preserveSet : List UInt32) : List UInt32 → ω → Prop
  | [], _ => True
  | n :: rest, w =>
    if keeps action preserveSet n then exec.MandatoryHolds defn action preserveSet rest w
    else
      match undoStep defn n with
      | none => exec.MandatoryHolds defn action preserveSet rest w
      | some s =>
        (s.compensationType = .mandatory → (exec.compensator s w).1.isOk = true) ∧
          exec.MandatoryHolds defn action preserveSet rest (exec.compensator s w).2

section Mandatory

variable {action : RecoveryAction} {preserveSet : List UInt32} {n : UInt32}

theorem mandatoryHolds_cons_of_keeps (hkeep : keeps action preserveSet n = true)
    (l : List UInt32) (w : ω) :
    exec.MandatoryHolds defn action preserveSet (n :: l) w =
      exec.MandatoryHolds defn action preserveSet l w := by
  rw [MandatoryHolds, if_pos hkeep]

theorem mandatoryHolds_cons_of_none (hkeep : keeps action preserveSet n = false)
    (hundo : undoStep defn n = none) (l : List UInt32) (w : ω) :
    exec.MandatoryHolds defn action preserveSet (n :: l) w =
      exec.MandatoryHolds defn action preserveSet l w := by
  rw [MandatoryHolds, hkeep, if_neg Bool.false_ne_true, hundo]

theorem mandatoryHolds_cons_of_some {s : SagaStep} (hkeep : keeps action preserveSet n = false)
    (hundo : undoStep defn n = some s) (l : List UInt32) (w : ω) :
    exec.MandatoryHolds defn action preserveSet (n :: l) w =
      ((s.compensationType = .mandatory → (exec.compensator s w).1.isOk = true) ∧
        exec.MandatoryHolds defn action preserveSet l (exec.compensator s w).2) := by
  rw [MandatoryHolds, hkeep, if_neg Bool.false_ne_true, hundo]

end Mandatory

/-- How the rollback loop can end: it takes every step back exactly when all
mandatory compensations succeed, and otherwise ends with the error of one that
failed, in the state it was in. -/
theorem unwind_end (exec : SagaExecutor ω) (action : RecoveryAction) (preserveSet : List UInt32)
    {l : List UInt32} (hknown : ∀ n ∈ l, ∃ s ∈ defn.steps, s.step = n) (u : Unwind ω) :
    (exec.MandatoryHolds defn action preserveSet l u.run.world ∧
      ∃ u', l.foldlM (exec.unwindOne defn action preserveSet) u = .ok u') ∨
    (¬ exec.MandatoryHolds defn action preserveSet l u.run.world ∧
      ∃ n e, l.foldlM (exec.unwindOne defn action preserveSet) u = .error e ∧
        e.result = .err (.mandatoryCompensationFailed n) ∧ e.run.state = u.run.state) := by
  induction l generalizing u with
  | nil => exact Or.inl ⟨trivial, u, rfl⟩
  | cons n l ih =>
    have hrest : ∀ n ∈ l, ∃ s ∈ defn.steps, s.step = n :=
      fun n hn => hknown n (List.mem_cons_of_mem _ hn)
    rw [List.foldlM_cons]
    have hcases := exec.unwindOne_cases defn action preserveSet u n
    generalize hone : exec.unwindOne defn action preserveSet u n = one at hcases
    cases hcases with
    | kept hkeep =>
      rw [mandatoryHolds_cons_of_keeps hkeep]
      exact ih hrest ⟨u.run, u.compensated, u.preserved ++ [n]⟩
    | unknown hkeep hfind =>
      obtain ⟨s, hs, hnum⟩ := hknown n (List.mem_cons_self ..)
      exact absurd (decide_eq_true hnum) (List.find?_eq_none.mp hfind s hs)
    | bare hkeep hundo =>
      rw [mandatoryHolds_cons_of_none hkeep hundo]
      exact ih hrest ⟨u.run, u.compensated ++ [n], u.preserved⟩
    | @undone s v hkeep hundo hcall =>
      rw [mandatoryHolds_cons_of_some hkeep hundo]
      have hok : s.compensationType = .mandatory →
          (exec.compensator s u.run.world).1.isOk = true := fun _ => by
        rw [hcall]
        rfl
      rw [and_iff_right hok]
      exact ih hrest ⟨exec.callCompensator u.run s, u.compensated ++ [n], u.preserved⟩
    | @tolerated s message hkeep hundo hcall htype =>
      rw [mandatoryHolds_cons_of_some hkeep hundo, and_iff_right fun hm => absurd hm htype]
      exact ih hrest ⟨exec.callCompensator u.run s, u.compensated, u.preserved⟩
    | @fatal s message hkeep hundo hcall htype =>
      rw [mandatoryHolds_cons_of_some hkeep hundo]
      refine Or.inr ⟨fun h => ?_, n, _, rfl, rfl, rfl⟩
      have := h.1 htype
      rw [hcall] at this
      cases this

/-! ## The end of a failed run -/

section FailedRun

variable {w : ω} {pre post : List SagaStep} {step : SagaStep} {fw : Forward ω} {tag : String}

theorem FailsAt.failed_ne_ok (h : exec.FailsAt defn w pre step post fw tag) :
    (exec.runner step fw.run.world).1 ≠ .ok := by
  rw [h.failed]
  exact nofun

/-- A rollback finds every completed step in the definition. -/
theorem FailsAt.known (h : exec.FailsAt defn w pre step post fw tag) :
    ∀ n ∈ fw.completed.reverse, ∃ s ∈ defn.steps, s.step = n := by
  intro n hn
  have hprogress := h.reached.progress
  rw [List.mem_reverse, hprogress.completed_eq] at hn
  obtain ⟨s, hs, rfl⟩ := List.mem_map.mp hn
  refine ⟨s, ?_, rfl⟩
  rw [h.split]
  exact List.mem_append_left _ (hprogress.sublist.subset hs)

/-- How a rollback ends: with every completed step taken back, or with the error of
a mandatory compensation, in a state that is not restored. -/
theorem FailsAt.rollBack_end (h : exec.FailsAt defn w pre step post fw tag)
    (decision : RecoveryDecision) :
    (exec.MandatoryHolds defn decision.action decision.preserveSet fw.completed.reverse
        (exec.runner step fw.run.world).2 ∧
      ∃ r₀ u, r₀.log = (exec.afterFailure fw.run step).log ∧
        Unwound defn decision.action decision.preserveSet r₀ fw.completed.reverse u ∧
        exec.rollBack defn step decision (exec.afterFailure fw.run step) fw.completed =
          ⟨.ok (.failed step.step decision.action u.compensated u.preserved),
            { u.run with state := .failed }⟩) ∨
    (¬ exec.MandatoryHolds defn decision.action decision.preserveSet fw.completed.reverse
        (exec.runner step fw.run.world).2 ∧
      ∃ n e, exec.rollBack defn step decision (exec.afterFailure fw.run step) fw.completed = e ∧
        e.result = .err (.mandatoryCompensationFailed n) ∧
        (e.run.state = .fullCompensation ∨ e.run.state = .partialCompensation)) := by
  have hcalls : compensationCalls (exec.afterFailure fw.run step).log = [] := by
    obtain ⟨-, -, hcalls⟩ := afterFailure_log h.failed_ne_ok
    rw [hcalls, h.reached.progress.calls]
  rw [rollBack]
  dsimp only
  generalize hr₀ : ({ exec.afterFailure fw.run step with
    state := if decision.action = .fullCompensation then SagaState.fullCompensation
      else .partialCompensation } : SagaRun ω) = r₀
  have hlog : r₀.log = (exec.afterFailure fw.run step).log := by rw [← hr₀]
  have hworld : r₀.world = (exec.runner step fw.run.world).2 := by
    rw [← hr₀]
    rfl
  rcases exec.unwind_end decision.action decision.preserveSet h.known ⟨r₀, [], []⟩ with
    ⟨hm, u, hu⟩ | ⟨hm, n, e, he, hres, hstate⟩
  · rw [hu]
    refine Or.inl ⟨hworld ▸ hm, r₀, u, hlog, Unwound.all (hlog ▸ hcalls) hu, rfl⟩
  · rw [he]
    refine Or.inr ⟨hworld ▸ hm, n, e, rfl, hres, ?_⟩
    rw [hstate, ← hr₀]
    by_cases hfull : decision.action = .fullCompensation
    · exact Or.inl (if_pos hfull)
    · exact Or.inr (if_neg hfull)

/-- A failing step whose rule rolls back ends the run with the rollback. -/
theorem FailsAt.run_eq_rollBack (h : exec.FailsAt defn w pre step post fw tag)
    (haction : rollsBack (decideRecovery tag step.onFailure).action) :
    exec.run defn w = exec.rollBack defn step (decideRecovery tag step.onFailure)
      (exec.afterFailure fw.run step) fw.completed := by
  apply h.run_eq
  have hcases := exec.recover_cases defn step tag fw.run fw.completed
  generalize exec.recover defn step tag (exec.callRunner fw.run step) fw.completed = res at hcases
  cases hcases with
  | rolledBack => rfl
  | paused hother => rcases haction with ha | ha <;> cases hother.symm.trans ha
  | retried hother => rcases haction with ha | ha <;> cases hother.symm.trans ha
  | gaveUp hother => rcases haction with ha | ha <;> cases hother.symm.trans ha
  | skipped hother => rcases haction with ha | ha <;> cases hother.symm.trans ha

/-- A retry that fails ends the run at once. -/
theorem FailsAt.run_eq_gaveUp (h : exec.FailsAt defn w pre step post fw tag)
    (haction : (decideRecovery tag step.onFailure).action = .retryWithAlternative)
    (hagain : (exec.runner step (exec.runner step fw.run.world).2).1 ≠ .ok) :
    exec.run defn w = ⟨.ok (.failed step.step .retryWithAlternative [] []),
      { exec.callRunner (exec.afterFailure fw.run step) step with state := .failed }⟩ := by
  apply h.run_eq
  have hcases := exec.recover_cases defn step tag fw.run fw.completed
  generalize exec.recover defn step tag (exec.callRunner fw.run step) fw.completed = res at hcases
  cases hcases with
  | rolledBack hother => rcases hother with ha | ha <;> cases haction.symm.trans ha
  | paused hother => cases haction.symm.trans hother
  | retried _ hok => exact absurd hok hagain
  | gaveUp => rfl
  | skipped hother => cases haction.symm.trans hother

end FailedRun

/-- The rollback loop's `expect` never fires. -/
theorem run_ne_panic (exec : SagaExecutor ω) (defn : SagaDefinition) (w : ω) (message : String) :
    (exec.run defn w).result ≠ .panic message := by
  rcases exec.run_cases defn w with ⟨fw, -, hrun⟩ | ⟨pre, step, post, fw, tag, h, hrec⟩
  · rw [hrun]
    exact nofun
  have hcases := exec.recover_cases defn step tag fw.run fw.completed
  rw [hrec] at hcases
  generalize exec.run defn w = e at hcases
  cases hcases with
  | rolledBack haction =>
    rcases h.rollBack_end (decideRecovery tag step.onFailure) with
      ⟨-, r₀, u, -, -, hend⟩ | ⟨-, n, e, hend, hres, -⟩
    · rw [hend]
      exact nofun
    · rw [hend, hres]
      exact nofun
  | paused haction => exact nofun
  | gaveUp haction hagain => exact nofun

/-- A step with a mandatory compensation, as the crate's tests build them. -/
def sampleStep (n : UInt32) (onFailure : Option OnFailure) : SagaStep :=
  ⟨n, "step", .deterministic, "cap", some "comp", .mandatory, onFailure⟩

/-- Two steps; the second retries on the tag `outage`. -/
def sampleSaga : SagaDefinition :=
  ⟨"x", none, [sampleStep 1 none,
    sampleStep 2 (some ⟨"intelligent", [⟨"outage", .retryWithAlternative, []⟩]⟩)]⟩

/-- Step `2` always fails with `tag`; compensations answer `answer`. -/
def sampleExecutor (tag : String) (answer : Except String Unit) : SagaExecutor Unit :=
  .new (fun s _ => (if s.step = 2 then .failedWithTag tag else .ok, ())) fun _ _ => (answer, ())

/-! ## The state agrees with the result -/

/-- The executor's state is the one its result announces, and no recovery is left
under way. -/
def StateAgrees (e : SagaEnd ω) : Prop :=
  (match e.result with
    | .ok (.completed _) => e.run.state = .completed
    | .ok (.pendingUser _) => e.run.state = .waitingForInput
    | .ok (.failed _ _ _ _) => e.run.state = .failed
    | .err _ => e.run.state = .failed
    | .panic _ => False) ∧
    e.run.state.isRecovering = false

/-- In the rollback a failing step starts, every mandatory compensation succeeds. -/
def RollbacksHold (exec : SagaExecutor ω) (defn : SagaDefinition) (w : ω) : Prop :=
  ∀ pre step post fw tag, exec.FailsAt defn w pre step post fw tag →
    rollsBack (decideRecovery tag step.onFailure).action →
      exec.MandatoryHolds defn (decideRecovery tag step.onFailure).action
        (decideRecovery tag step.onFailure).preserveSet fw.completed.reverse
        (exec.runner step fw.run.world).2

/-- **State and result.** A run ends in the state its result announces exactly when
no mandatory compensation of its rollback fails. -/
theorem stateAgrees_iff (exec : SagaExecutor ω) (defn : SagaDefinition) (w : ω) :
    StateAgrees (exec.run defn w) ↔ exec.RollbacksHold defn w := by
  refine ⟨fun hagrees pre step post fw tag h haction => ?_, fun hholds => ?_⟩
  · rw [h.run_eq_rollBack haction] at hagrees
    rcases h.rollBack_end (decideRecovery tag step.onFailure) with
      ⟨hm, -⟩ | ⟨-, n, e, hend, hres, hstate⟩
    · exact hm
    · -- the error leaves the state of the rollback behind
      rw [hend, StateAgrees, hres] at hagrees
      rcases hstate with hstate | hstate
      · cases hstate.symm.trans hagrees.1
      · cases hstate.symm.trans hagrees.1
  · rcases exec.run_cases defn w with ⟨fw, -, hrun⟩ | ⟨pre, step, post, fw, tag, h, hrec⟩
    · rw [hrun]
      exact ⟨rfl, rfl⟩
    have hcases := exec.recover_cases defn step tag fw.run fw.completed
    rw [hrec] at hcases
    generalize exec.run defn w = e at hcases
    cases hcases with
    | rolledBack haction =>
      rcases h.rollBack_end (decideRecovery tag step.onFailure) with
        ⟨-, r₀, u, -, -, hend⟩ | ⟨hm, -⟩
      · rw [hend]
        exact ⟨rfl, rfl⟩
      · exact absurd (hholds pre step post fw tag h haction) hm
    | paused haction => exact ⟨rfl, rfl⟩
    | gaveUp haction hagain => exact ⟨rfl, rfl⟩

/-- A mandatory compensation that fails leaves the executor in `FullCompensation`. -/
theorem failedCompensation_not_stateAgrees :
    ¬ StateAgrees ((sampleExecutor "oops" (.error "down")).run sampleSaga ()) := by
  intro h
  have hstate : ((sampleExecutor "oops" (.error "down")).run sampleSaga ()).run.state =
      .fullCompensation := by decide
  have hrecovering := h.2
  rw [hstate] at hrecovering
  cases hrecovering

/-! ## Every completed step is accounted for -/

/-- A completed step, named by its number as in the outcome's lists, is among the
compensated or the preserved ones, or its compensation, not a mandatory one, was
called and failed. -/
def Accounted (log : List SagaEvent) (compensated preserved : List UInt32) (s : SagaStep) : Prop :=
  s.step ∈ compensated ∨ s.step ∈ preserved ∨
    ∃ t ∈ failedCompensations log, t.step = s.step ∧ t.compensationType ≠ .mandatory

/-- With distinct step numbers a number is taken back by the step that has it. -/
theorem undoStep_of_distinct (hdistinct : (defn.steps.map (·.step)).Nodup) {s : SagaStep}
    (hs : s ∈ defn.steps) :
    undoStep defn s.step = if s.compensation.isSome then some s else none := by
  have hfind : defn.steps.find? (fun t => decide (t.step = s.step)) = some s := by
    rcases hf : defn.steps.find? (fun t => decide (t.step = s.step)) with _ | t
    · exact absurd (decide_eq_true rfl) (List.find?_eq_none.mp hf s hs)
    · have hnum := List.find?_some hf
      have heq : t = s := List.inj_on_of_nodup_map hdistinct (List.mem_of_find?_eq_some hf) hs
        (of_decide_eq_true hnum)
      rw [hf, heq]
  rw [undoStep, hfind, Option.filter_some]

theorem filterMap_undoStep (hdistinct : (defn.steps.map (·.step)).Nodup) (p : UInt32 → Bool) :
    ∀ {l : List SagaStep}, (∀ s ∈ l, s ∈ defn.steps) →
      ((l.map (·.step)).filter p).filterMap (undoStep defn) =
        l.filter fun s => p s.step && s.compensation.isSome := by
  intro l
  induction l with
  | nil => exact fun _ => rfl
  | cons s l ih =>
    intro hl
    have hs := undoStep_of_distinct hdistinct (hl s (List.mem_cons_self ..))
    have hrest := ih fun t ht => hl t (List.mem_cons_of_mem _ ht)
    rw [List.map_cons, List.filter_cons, List.filter_cons]
    by_cases hp : p s.step = true
    · by_cases hc : s.compensation.isSome = true
      · rw [if_pos hp, List.filterMap_cons, hs, if_pos hc, hrest, hp, hc]
        rfl
      · rw [if_pos hp, List.filterMap_cons, hs, if_neg hc, hrest, hp, Bool.eq_false_iff.mpr hc]
        rfl
    · rw [if_neg hp, hrest, Bool.eq_false_iff.mpr hp]
      rfl

/-- The rollback of a definition with distinct step numbers calls the compensator for
the completed steps that declare a compensation and are not preserved, and for
nothing else. -/
theorem Unwound.calls_exact {action : RecoveryAction} {preserveSet : List UInt32}
    {r₀ : SagaRun ω} {done : List SagaStep} {u : Unwind ω}
    (h : Unwound defn action preserveSet r₀ (done.map (·.step)).reverse u)
    (hdistinct : (defn.steps.map (·.step)).Nodup) (hdone : ∀ s ∈ done, s ∈ defn.steps) :
    compensationCalls u.run.log =
      done.reverse.filter fun s => s.compensation.isSome && decide (s.step ∉ u.preserved) := by
  have hrev : ∀ s ∈ done.reverse, s ∈ defn.steps := fun s hs => hdone s (List.mem_reverse.mp hs)
  rw [h.calls_eq, ← List.map_reverse, filterMap_undoStep hdistinct _ hrev]
  refine List.filter_congr fun s hs => ?_
  -- among the completed steps, the kept ones are the preserved ones
  have hkeeps : keeps action preserveSet s.step = decide (s.step ∈ u.preserved) := by
    rw [h.preserved_eq, ← List.map_reverse, Bool.eq_iff_iff, decide_eq_true_eq, List.mem_filter]
    exact ⟨fun hk => ⟨List.mem_map_of_mem hs, hk⟩, fun hk => hk.2⟩
  rw [hkeeps, Bool.and_comm, decide_not]

/-- With distinct step numbers, no step up to the failing one is defined after it. -/
theorem notMem_post_of_split (hdistinct : (defn.steps.map (·.step)).Nodup)
    (hsplit : defn.steps = pre ++ step :: post) {s : SagaStep} (hs : s ∈ pre ∨ s = step) :
    s ∉ post := by
  intro hpost
  rw [hsplit, List.map_append, List.map_cons, List.nodup_append', List.nodup_cons] at hdistinct
  obtain ⟨-, ⟨hstep, -⟩, hpre⟩ := hdistinct
  rcases hs with hs | rfl
  · exact hpre (List.mem_map_of_mem hs) (List.mem_cons_of_mem _ (List.mem_map_of_mem hpost))
  · exact hstep (List.mem_map_of_mem hpost)

/-- **Rollback is exact.** With distinct step numbers, a run that ends in full or
partial compensation called the compensator once for each completed, non-preserved
step that declares a compensation and for no other, latest completion first. The
compensated, the preserved and the steps whose compensation failed, none of them
mandatory, are disjoint and make up the completed steps; full compensation
preserves nothing; and no step after the failing one was run. -/
theorem compensation_exact (exec : SagaExecutor ω) (defn : SagaDefinition) (w : ω)
    (hdistinct : (defn.steps.map (·.step)).Nodup) (failedAt : UInt32) (action : RecoveryAction)
    (compensated preserved : List UInt32)
    (hresult : (exec.run defn w).result = .ok (.failed failedAt action compensated preserved))
    (haction : action = .fullCompensation ∨ action = .partialCompensation) :
    let log := (exec.run defn w).run.log
    compensationCalls log = ((completedSteps log).reverse.filter fun s =>
        s.compensation.isSome && decide (s.step ∉ preserved)) ∧
      compensated.Disjoint preserved ∧
      compensated.Disjoint ((failedCompensations log).map (·.step)) ∧
      preserved.Disjoint ((failedCompensations log).map (·.step)) ∧
      (∀ n, n ∈ (completedSteps log).map (·.step) ↔
        n ∈ compensated ∨ n ∈ preserved ∨ n ∈ (failedCompensations log).map (·.step)) ∧
      (∀ s ∈ failedCompensations log, s.compensationType ≠ .mandatory) ∧
      (action = .fullCompensation → preserved = []) ∧
      ∃ pre step post, defn.steps = pre ++ step :: post ∧ step.step = failedAt ∧
        ∀ s ∈ post, s ∉ ranSteps log := by
  intro log
  have hlog : log = (exec.run defn w).run.log := rfl
  rcases exec.run_cases defn w with ⟨fw, -, hrun⟩ | ⟨pre, step, post, fw, tag, h, hrec⟩
  · rw [hrun] at hresult
    cases hresult
  have hcases := exec.recover_cases defn step tag fw.run fw.completed
  rw [hrec] at hcases
  generalize exec.run defn w = e at hcases hresult hlog
  cases hcases with
  | paused hpause => cases hresult
  | gaveUp hretry hagain =>
    cases hresult
    rcases haction with ha | ha
    · cases ha
    · cases ha
  | rolledBack hrolls =>
    rcases h.rollBack_end (decideRecovery tag step.onFailure) with
      ⟨-, r₀, u, hr₀, hunwound, hend⟩ | ⟨-, n, e, hend, herr, -⟩
    swap
    · rw [hend, herr] at hresult
      cases hresult
    rw [hend] at hresult hlog
    cases hresult
    have hlog' : log = u.run.log := hlog
    obtain ⟨hdone, hran, -⟩ := afterFailure_log h.failed_ne_ok
    have hprogress := h.reached.progress
    -- the rollback took back exactly the completed steps of the log
    have hcompleted : completedSteps log = completedSteps fw.run.log := by
      rw [hlog', hunwound.completed_eq, hr₀, hdone]
    have hsub : (completedSteps fw.run.log).Sublist defn.steps := by
      rw [h.split]
      exact hprogress.sublist.trans (List.sublist_append_left _ _)
    rw [hprogress.completed_eq, ← hcompleted] at hunwound
    rw [← hcompleted] at hsub
    have hnodup : ((completedSteps log).map (·.step)).reverse.Nodup :=
      List.nodup_reverse.mpr ((hsub.map _).nodup hdistinct)
    obtain ⟨hcp, hcf, hpf⟩ := hunwound.disjoint hnodup
    rw [← hlog'] at hcf hpf
    refine ⟨?_, hcp, hcf, hpf, fun n => ?_, ?_, fun hfull => ?_, pre, step, post, h.split, rfl, ?_⟩
    · rw [← hunwound.calls_exact hdistinct fun s hs => hsub.subset hs, hlog']
    · rw [← List.mem_reverse, ← hunwound.perm.mem_iff, hlog', List.mem_append, List.mem_append,
        or_assoc]
    · rw [hlog']
      exact hunwound.tolerated
    · rw [hfull] at hunwound
      exact hunwound.preserved_nil
    · -- everything run comes from `pre` or is the failing step
      intro s hs hmem
      rw [hlog', hunwound.ran_eq, hr₀, hran, List.mem_append, List.mem_singleton] at hmem
      refine notMem_post_of_split hdistinct h.split ?_ hs
      rcases hmem with hmem | rfl
      · exact Or.inl (hprogress.ran s hmem)
      · exact Or.inr rfl

/-- The second step fails for good, and the first is taken back. -/
theorem compensation_exact_sampleSaga :
    let e := (sampleExecutor "oops" (.ok ())).run sampleSaga ()
    e.result = .ok (.failed 2 .fullCompensation [1] []) ∧
      compensationCalls e.run.log = [sampleStep 1 none] := by
  have hresult : ((sampleExecutor "oops" (.ok ())).run sampleSaga ()).result =
      .ok (.failed 2 .fullCompensation [1] []) := by decide
  refine ⟨hresult, ?_⟩
  rw [(compensation_exact (sampleExecutor "oops" (.ok ())) sampleSaga () (by decide) 2
    .fullCompensation [1] [] hresult (Or.inl rfl)).1]
  decide

end SagaExecutor

end Aaf
