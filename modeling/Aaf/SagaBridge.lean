import Aaf.Registry
import Aaf.SagaScript

/-!
# The saga bridge

`RegistryBridge` of `aaf-saga` makes the two closures of a saga executor out of the
capability registry and an invoker: a step is handed to the invoker only when its
capability is registered, a compensation always. With the in-memory invoker the closures
follow a script, and so the calls the invoker gets in a whole run are known beforehand:
`RegistryBridge.run_by_script`.
-/

namespace Aaf

/-! ## Definitions -/

/-- Errors raised by the bridge during step execution. -/
inductive BridgeError : Type where
  | unknownCapability (id : String) : BridgeError
  | tagged (tag : String) : BridgeError
  deriving DecidableEq, Repr

/-- The `Display` rendering. -/
def BridgeError.toText : BridgeError → String
  | unknownCapability id => "unknown capability: " ++ id
  | tagged tag => "invocation tagged failure: " ++ tag

/-- `CapabilityInvoker`: runs a single capability in a world `ω`. -/
abbrev CapabilityInvoker (ω : Type) : Type := String → ω → Except BridgeError Json × ω

/-- `InMemoryInvoker`: pre-programmed outcomes, and the log of the calls. -/
structure InMemoryInvoker where
  outcomes : HashMap String (Except String Json)
  log : List String

namespace InMemoryInvoker

/-- `InMemoryInvoker::new`. -/
def new : InMemoryInvoker := ⟨∅, []⟩

/-- `InMemoryInvoker::ok`. -/
def ok (inv : InMemoryInvoker) (capability : String) (value : Json) : InMemoryInvoker :=
  { inv with outcomes := inv.outcomes.insert capability (.ok value) }

/-- `InMemoryInvoker::fail`. -/
def fail (inv : InMemoryInvoker) (capability tag : String) : InMemoryInvoker :=
  { inv with outcomes := inv.outcomes.insert capability (.error tag) }

/-- `InMemoryInvoker::calls`. -/
def calls (inv : InMemoryInvoker) : List String := inv.log

/-- The outcome of a capability; without one it succeeds with an empty value. -/
def outcome (inv : InMemoryInvoker) (capabilityId : String) : Except String Json :=
  (inv.outcomes.lookup capabilityId).getD (.ok .null)

/-- `CapabilityInvoker::invoke`. -/
def invoke : CapabilityInvoker InMemoryInvoker := fun capabilityId inv =>
  let inv := { inv with log := inv.log ++ [capabilityId] }
  match inv.outcome capabilityId with
  | .ok v => (.ok v, inv)
  | .error tag => (.error (.tagged tag), inv)

end InMemoryInvoker

/-- `RegistryBridge`. -/
structure RegistryBridge (ω : Type) where
  registry : Registry
  invoker : CapabilityInvoker ω

namespace RegistryBridge

/-- `RegistryBridge::step_runner`. -/
def stepRunner {ω : Type} (bridge : RegistryBridge ω) (step : SagaStep) (w : ω) :
    StepResult × ω :=
  let known := (bridge.registry.get ⟨step.capability⟩).isOk
  if !known then (.failedWithTag "unknown_capability", w)
  else
    match bridge.invoker step.capability w with
    | (.ok _, w) => (.ok, w)
    | (.error (.tagged t), w) => (.failedWithTag t, w)
    | (.error (.unknownCapability _), w) => (.failedWithTag "unknown_capability", w)

/-- `RegistryBridge::compensation_runner`. -/
def compensationRunner {ω : Type} (bridge : RegistryBridge ω) (step : SagaStep) (w : ω) :
    Except String Unit × ω :=
  match step.compensation with
  | none => (.ok (), w)
  | some comp =>
    match bridge.invoker comp w with
    | (.ok _, w) => (.ok (), w)
    | (.error e, w) => (.error e.toText, w)

/-- The executor over the bridge's closures. -/
def executor {ω : Type} (bridge : RegistryBridge ω) : SagaExecutor ω :=
  .new bridge.stepRunner bridge.compensationRunner

end RegistryBridge

/-! ## The bridge over the in-memory invoker -/

namespace InMemoryInvoker

/-- The script the closures follow: an unknown capability fails before it is invoked. -/
def script (inv : InMemoryInvoker) (registry : Registry) : SagaScript where
  answer step :=
    if (registry.get ⟨step.capability⟩).isOk then
      match inv.outcome step.capability with
      | .ok _ => .ok
      | .error tag => .failedWithTag tag
    else .failedWithTag "unknown_capability"
  undo step :=
    match step.compensation with
    | none => .ok ()
    | some comp =>
      match inv.outcome comp with
      | .ok _ => .ok ()
      | .error tag => .error (BridgeError.tagged tag).toText

/-- What a call of a closure hands to the invoker. -/
def dispatched (registry : Registry) : SagaEvent → Option String
  | .ran step _ => if (registry.get ⟨step.capability⟩).isOk then some step.capability else none
  | .compensated step _ => step.compensation

/-- The invoker after a log of calls of the closures. -/
def after (inv : InMemoryInvoker) (registry : Registry) (log : List SagaEvent) : InMemoryInvoker :=
  { inv with log := inv.log ++ log.filterMap (dispatched registry) }

/-- An invocation is logged, and answered from the table. -/
theorem invoke_eq (inv : InMemoryInvoker) (capabilityId : String) :
    invoke capabilityId inv =
      ((inv.outcome capabilityId).mapError .tagged, { inv with log := inv.log ++ [capabilityId] }) := by
  rw [invoke]
  have hsame : ({ inv with log := inv.log ++ [capabilityId] } : InMemoryInvoker).outcome
      capabilityId = inv.outcome capabilityId := rfl
  rw [hsame]
  rcases inv.outcome capabilityId with tag | v
  · rfl
  · rfl

/-- No call changes the outcomes, so none changes the script. -/
theorem script_after (inv : InMemoryInvoker) (registry : Registry) (log : List SagaEvent) :
    (inv.after registry log).script registry = inv.script registry := rfl

theorem after_append (inv : InMemoryInvoker) (registry : Registry) (log log' : List SagaEvent) :
    (inv.after registry log).after registry log' = inv.after registry (log ++ log') := by
  simp [after, List.filterMap_append]

end InMemoryInvoker

namespace RegistryBridge

/-- A step goes by the script, and is logged when its capability is known. -/
theorem stepRunner_eq (registry : Registry) (inv : InMemoryInvoker) (step : SagaStep) :
    (⟨registry, InMemoryInvoker.invoke⟩ : RegistryBridge InMemoryInvoker).stepRunner step inv =
      ((inv.script registry).answer step,
        inv.after registry [(inv.script registry).ran step]) := by
  rw [stepRunner]
  rcases hknown : (registry.get ⟨step.capability⟩).isOk with _ | _
  · simp [hknown, InMemoryInvoker.script, InMemoryInvoker.after, SagaScript.ran,
      InMemoryInvoker.dispatched]
  · dsimp only
    rw [InMemoryInvoker.invoke_eq]
    rcases houtcome : inv.outcome step.capability with tag | v
    · simp [hknown, houtcome, InMemoryInvoker.script, InMemoryInvoker.after, SagaScript.ran,
        InMemoryInvoker.dispatched, Except.mapError]
    · simp [hknown, houtcome, InMemoryInvoker.script, InMemoryInvoker.after, SagaScript.ran,
        InMemoryInvoker.dispatched, Except.mapError]

/-- A compensation goes by the script, and is logged when the step declares one. -/
theorem compensationRunner_eq (registry : Registry) (inv : InMemoryInvoker) (step : SagaStep) :
    (⟨registry, InMemoryInvoker.invoke⟩ : RegistryBridge InMemoryInvoker).compensationRunner
        step inv =
      ((inv.script registry).undo step,
        inv.after registry [(inv.script registry).compensated step]) := by
  rw [compensationRunner]
  rcases hcomp : step.compensation with _ | comp
  · simp [hcomp, InMemoryInvoker.script, InMemoryInvoker.after, SagaScript.compensated,
      InMemoryInvoker.dispatched]
  · dsimp only
    rw [InMemoryInvoker.invoke_eq]
    rcases houtcome : inv.outcome comp with tag | v
    · simp [hcomp, houtcome, InMemoryInvoker.script, InMemoryInvoker.after,
        SagaScript.compensated, InMemoryInvoker.dispatched, Except.mapError]
    · simp [hcomp, houtcome, InMemoryInvoker.script, InMemoryInvoker.after,
        SagaScript.compensated, InMemoryInvoker.dispatched, Except.mapError]

/-- The bridge's closures follow the script of the outcomes. -/
theorem follows (registry : Registry) (inv : InMemoryInvoker) :
    (⟨registry, InMemoryInvoker.invoke⟩ : RegistryBridge InMemoryInvoker).executor.Follows
      (inv.script registry) (fun log w => w = inv.after registry log) := by
  refine ⟨?_, ?_⟩
  · rintro log w step rfl
    rw [executor, SagaExecutor.new]
    dsimp only
    rw [stepRunner_eq, InMemoryInvoker.script_after, InMemoryInvoker.after_append]
    exact ⟨rfl, rfl⟩
  · rintro log w step rfl
    rw [executor, SagaExecutor.new]
    dsimp only
    rw [compensationRunner_eq, InMemoryInvoker.script_after, InMemoryInvoker.after_append]
    exact ⟨rfl, rfl⟩

/-- **A saga over the bridge.** Every saga over any registry and any programmed outcomes ends, and
calls the invoker, as its script says: the steps up to the first that fails and is not skipped, each
handed over only if its capability is registered; then the failing step again, or the
compensations of the completed steps, latest first, up to the first fatal one. -/
theorem run_by_script (registry : Registry) (inv : InMemoryInvoker) (defn : SagaDefinition) :
    let bridge : RegistryBridge InMemoryInvoker := ⟨registry, InMemoryInvoker.invoke⟩
    let script := inv.script registry
    let e := bridge.executor.run defn inv
    e.result = script.result defn ∧ e.run.log = script.log defn ∧
      e.run.world.outcomes = inv.outcomes ∧
      e.run.world.calls = inv.calls ++
        (script.log defn).filterMap (InMemoryInvoker.dispatched registry) := by
  intro bridge script e
  have hstart : inv = inv.after registry [] := by simp [InMemoryInvoker.after]
  obtain ⟨hresult, hlog, hworld⟩ := (follows registry inv).run_eq defn hstart
  refine ⟨hresult, hlog, ?_, ?_⟩
  · rw [hworld]
    rfl
  · rw [hworld, hlog]
    rfl

end RegistryBridge

end Aaf
