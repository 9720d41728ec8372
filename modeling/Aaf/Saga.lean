import Aaf.Text
import Aaf.Loop

/-!
# The saga executor

`SagaExecutor::run` of `aaf-saga`: steps run in order; a tagged failure is
answered by the first matching rule of the step, else by full compensation.

The two closures are `Fn`, but may keep state behind a lock, so that a step that
failed once can succeed on its retry. They are functions that pass a world `ω`
along, and every call of either is written to a log. Both loops may return from
their middle and are `List.foldlM` in `Except`.
-/

namespace Aaf

/-! ## Definitions -/

/-- Step type. -/
inductive StepKind : Type where
  | deterministic : StepKind
  | agent : StepKind
  | approval : StepKind
  deriving DecidableEq, Repr

/-- Compensation requirement; `bestEffort` is the default. -/
inductive CompensationType : Type where
  | mandatory : CompensationType
  | bestEffort : CompensationType
  | none : CompensationType
  deriving DecidableEq, Repr

/-- Recovery action. -/
inductive RecoveryAction : Type where
  | pauseAndAskUser : RecoveryAction
  | retryWithAlternative : RecoveryAction
  | partialCompensation : RecoveryAction
  | fullCompensation : RecoveryAction
  | skip : RecoveryAction
  deriving DecidableEq, Repr

/-- One recovery rule. -/
structure RecoveryRule where
  /-- matched verbatim against the failure tag -/
  condition : String
  action : RecoveryAction
  preserve : List String
  deriving DecidableEq, Repr

/-- Failure policy attached to a step. -/
structure OnFailure where
  strategy : String
  rules : List RecoveryRule
  deriving DecidableEq, Repr

/-- One step of a saga. -/
structure SagaStep where
  step : UInt32
  name : String
  kind : StepKind
  capability : String
  compensation : Option String
  compensationType : CompensationType
  onFailure : Option OnFailure
  deriving DecidableEq, Repr

/-- A whole saga. -/
structure SagaDefinition where
  name : String
  description : Option String
  steps : List SagaStep
  deriving DecidableEq, Repr

/-- Discrete states of a saga execution. -/
inductive SagaState : Type where
  | initiated : SagaState
  | running : SagaState
  | stepFailed : SagaState
  | analyzing : SagaState
  | recoverySelected : SagaState
  | partialCompensation : SagaState
  | waitingForInput : SagaState
  | resumed : SagaState
  | fullCompensation : SagaState
  | failed : SagaState
  | completed : SagaState
  deriving DecidableEq, Repr

/-! ## Recovery -/

/-- Result of analysing a failure. -/
inductive RecoveryDecision : Type where
  | apply (rule : RecoveryRule) : RecoveryDecision
  | fallback (action : RecoveryAction) : RecoveryDecision
  deriving DecidableEq, Repr

/-- `decide`: the first rule whose condition is the tag. -/
def decideRecovery (failureTag : String) (onFailure : Option OnFailure) : RecoveryDecision :=
  match onFailure.bind fun o => o.rules.find? fun rule => decide (rule.condition = failureTag) with
  | some rule => .apply rule
  | none => .fallback .fullCompensation

/-- The action of a decision. -/
def RecoveryDecision.action : RecoveryDecision → RecoveryAction
  | apply rule => rule.action
  | fallback action => action

/-- The steps a decision preserves: the entries that parse as step numbers. -/
def RecoveryDecision.preserveSet : RecoveryDecision → List UInt32
  | apply rule => rule.preserve.filterMap Text.parseU32
  | fallback _ => []

/-! ## Outcomes -/

/-- Outcome of one step closure. -/
inductive StepResult : Type where
  | ok : StepResult
  | failedWithTag (tag : String) : StepResult
  deriving DecidableEq, Repr

/-- Outcome of a saga run. -/
inductive SagaOutcome : Type where
  | completed (completed : List UInt32) : SagaOutcome
  | failed (failedAt : UInt32) (recovery : RecoveryAction)
      (compensated preserved : List UInt32) : SagaOutcome
  | pendingUser (step : UInt32) : SagaOutcome
  deriving DecidableEq, Repr

/-- Errors of the executor. -/
inductive SagaError : Type where
  | mandatoryCompensationFailed (step : UInt32) : SagaError
  | stepClosureFailed (step : UInt32) (message : String) : SagaError
  deriving DecidableEq, Repr

/-- How a run ends. The `expect` of the rollback loop could panic in principle;
it never does, see `SagaExecutor.run_ne_panic`. -/
inductive SagaReturn : Type where
  | ok (outcome : SagaOutcome) : SagaReturn
  | err (error : SagaError) : SagaReturn
  | panic (message : String) : SagaReturn
  deriving DecidableEq, Repr

/-- A call of one of the two closures, with its answer. -/
inductive SagaEvent : Type where
  | ran (step : SagaStep) (result : StepResult) : SagaEvent
  | compensated (step : SagaStep) (result : Except String Unit) : SagaEvent

/-! ## The executor -/

/-- `SagaExecutor`. -/
structure SagaExecutor (ω : Type) where
  runner : SagaStep → ω → StepResult × ω
  compensator : SagaStep → ω → Except String Unit × ω
  state : SagaState

/-- What a run changes: the executor's state, the world, the log of calls. -/
structure SagaRun (ω : Type) where
  state : SagaState
  world : ω
  log : List SagaEvent

/-- The forward loop's state. -/
structure Forward (ω : Type) where
  run : SagaRun ω
  completed : List UInt32

/-- The rollback loop's state. -/
structure Unwind (ω : Type) where
  run : SagaRun ω
  compensated : List UInt32
  preserved : List UInt32

/-- What a run leaves behind: its result, and the executor's state with the world
and the log. -/
structure SagaEnd (ω : Type) where
  result : SagaReturn
  run : SagaRun ω

namespace SagaExecutor

variable {ω : Type}

/-- `SagaExecutor::new`. -/
def new (runner : SagaStep → ω → StepResult × ω)
    (compensator : SagaStep → ω → Except String Unit × ω) : SagaExecutor ω :=
  ⟨runner, compensator, .initiated⟩

/-- One call of the step closure. -/
def callRunner (exec : SagaExecutor ω) (r : SagaRun ω) (step : SagaStep) : SagaRun ω :=
  { r with
    world := (exec.runner step r.world).2
    log := r.log ++ [.ran step (exec.runner step r.world).1] }

/-- One call of the compensation closure. -/
def callCompensator (exec : SagaExecutor ω) (r : SagaRun ω) (step : SagaStep) : SagaRun ω :=
  { r with
    world := (exec.compensator step r.world).2
    log := r.log ++ [.compensated step (exec.compensator step r.world).1] }

/-- The rollback of one completed step. -/
def unwindOne (exec : SagaExecutor ω) (defn : SagaDefinition) (action : RecoveryAction)
    (preserveSet : List UInt32) (u : Unwind ω) (done : UInt32) :
    Except (SagaEnd ω) (Unwind ω) :=
  if action = .partialCompensation ∧ done ∈ preserveSet then
    .ok { u with preserved := u.preserved ++ [done] }
  else
    match defn.steps.find? fun s => decide (s.step = done) with
    | none => .error ⟨.panic "known", u.run⟩
    | some doneStep =>
      if doneStep.compensation.isSome then
        let run := exec.callCompensator u.run doneStep
        match (exec.compensator doneStep u.run.world).1 with
        | .ok _ => .ok { u with run := run, compensated := u.compensated ++ [done] }
        | .error _ =>
          if doneStep.compensationType = .mandatory then
            .error ⟨.err (.mandatoryCompensationFailed done), run⟩
          else .ok { u with run := run }
      else .ok { u with compensated := u.compensated ++ [done] }

/-- The rollback branch: the completed steps, latest first. It always leaves the
forward loop. -/
def rollBack (exec : SagaExecutor ω) (defn : SagaDefinition) (step : SagaStep)
    (decision : RecoveryDecision) (run : SagaRun ω) (completed : List UInt32) : SagaEnd ω :=
  let state : SagaState :=
    if decision.action = .fullCompensation then .fullCompensation else .partialCompensation
  match completed.reverse.foldlM (exec.unwindOne defn decision.action decision.preserveSet)
      ⟨{ run with state := state }, [], []⟩ with
  | .error e => e
  | .ok u =>
    ⟨.ok (.failed step.step decision.action u.compensated u.preserved),
      { u.run with state := .failed }⟩

/-- The failure branch of one step: `run` is the run after the failing call. -/
def recover (exec : SagaExecutor ω) (defn : SagaDefinition) (step : SagaStep) (tag : String)
    (run : SagaRun ω) (completed : List UInt32) : Except (SagaEnd ω) (Forward ω) :=
  -- `StepFailed`, then `Analyzing`, then `RecoverySelected`: only the last is seen by a closure
  let run := { run with state := .stepFailed }
  let run := { run with state := .analyzing }
  let decision := decideRecovery tag step.onFailure
  let run := { run with state := .recoverySelected }
  match decision.action with
  | .fullCompensation => .error (exec.rollBack defn step decision run completed)
  | .partialCompensation => .error (exec.rollBack defn step decision run completed)
  | .pauseAndAskUser =>
    .error ⟨.ok (.pendingUser step.step), { run with state := .waitingForInput }⟩
  | .retryWithAlternative =>
    let again := exec.callRunner run step
    match (exec.runner step run.world).1 with
    | .ok => .ok ⟨again, completed ++ [step.step]⟩
    | .failedWithTag _ =>
      .error ⟨.ok (.failed step.step .retryWithAlternative [] []), { again with state := .failed }⟩
  | .skip => .ok ⟨run, completed⟩

/-- One step of the forward loop. -/
def advance (exec : SagaExecutor ω) (defn : SagaDefinition) (fw : Forward ω) (step : SagaStep) :
    Except (SagaEnd ω) (Forward ω) :=
  let run := exec.callRunner fw.run step
  match (exec.runner step fw.run.world).1 with
  | .ok => .ok ⟨run, fw.completed ++ [step.step]⟩
  | .failedWithTag tag => exec.recover defn step tag run fw.completed

/-- The forward loop before its first step. -/
def start (w : ω) : Forward ω := ⟨⟨.running, w, []⟩, []⟩

/-- `SagaExecutor::run`. -/
def run (exec : SagaExecutor ω) (defn : SagaDefinition) (w : ω) : SagaEnd ω :=
  match defn.steps.foldlM (exec.advance defn) (start w) with
  | .error e => e
  | .ok fw => ⟨.ok (.completed fw.completed), { fw.run with state := .completed }⟩

end SagaExecutor

end Aaf
