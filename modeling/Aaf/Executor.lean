import Aaf.GraphOrder
import Aaf.Policy
import Aaf.Recorder

/-!
# The graph executor

`GraphExecutor::run` (`aaf-runtime`) with the compensation chain it drains.

The run is a loop with early exits, so every phase of an iteration is a function
into `Except (Exit ρ)`: an error is the `return` of the source, with the state the
run leaves behind. Beside the source's own variables the state carries a log of
what happened (`Event`): policy evaluations, node and leaf executions, shadowed
nodes, charges, compensator runs and recorder operations, in order. The code reads none
of it.

Clock readings and the rendering of JSON values come from a `World`. The counters
`step` and `composed_writes` are `u32` in the source.
-/

namespace Aaf

/-! ## The compensation chain -/

/-- One execution of a compensator: the step it undoes, what it was handed, and
what it returned. -/
structure CompensatorRun where
  step : NodeId
  compensator : Node
  prior : Outputs
  result : Except RuntimeError NodeOutput

/-- `CompensationChain`: a stack whose top is the end of the list. -/
structure CompensationChain where
  stack : List (NodeId × Node)

namespace CompensationChain

/-- `CompensationChain::push`. -/
def push (chain : CompensationChain) (forStep : NodeId) (compensator : Node) : CompensationChain :=
  ⟨chain.stack ++ [(forStep, compensator)]⟩

/-- `CompensationChain::is_empty`. -/
def isEmpty (chain : CompensationChain) : Bool := chain.stack.isEmpty

/-- The popping loop, over the stack in pop order. -/
def drain (intent : IntentEnvelope) :
    Outputs → List (NodeId × Node) → Except RuntimeError (List NodeOutput) × List CompensatorRun
  | _, [] => (.ok [], [])
  | prior, (step, comp) :: rest =>
    match comp.run intent prior with
    | .error e =>
      (.error (.compensationFailed step.raw e.display), [⟨step, comp, prior, .error e⟩])
    | .ok o =>
      let (out, runs) := drain intent (prior.insert step o) rest
      (out.map (o :: ·), ⟨step, comp, prior, .ok o⟩ :: runs)

/-- `CompensationChain::rollback`: run all compensators in reverse, up to the
first failure. -/
def rollback (chain : CompensationChain) (intent : IntentEnvelope) :
    Except RuntimeError (List NodeOutput) × List CompensatorRun :=
  drain intent ∅ chain.stack.reverse

end CompensationChain

/-! ## Outcomes, events, state -/

/-- `ExecutionOutcome`. -/
inductive ExecutionOutcome : Type where
  | completed (outputs : Outputs) (steps : ℕ) : ExecutionOutcome
  | partialResult (outputs : Outputs) (steps : ℕ) (reason : BudgetTrackerError) : ExecutionOutcome
  | pendingApproval (outputs : Outputs) (atStep : ℕ) (decision : PolicyDecision) : ExecutionOutcome
  | rolledBack (failedAt : ℕ) (reason : String) (compensated : List NodeId) : ExecutionOutcome

/-- What the executor returns. -/
abbrev RunResult : Type := Except RuntimeError ExecutionOutcome

/-- What happens during a run. `graphNode` is the node of the graph an event
belongs to. -/
inductive Event : Type where
  | policy (hook : PolicyHook) (graphNode : Option NodeId) (ctx : PolicyContext)
      (decision : PolicyDecision) : Event
  /-- a leaf is executed, as or inside a node of the graph -/
  | leafRun (graphNode : NodeId) (prior : Outputs) (leaf : LeafNode) : Event
  | nodeRun (graphNode : NodeId) (prior : Outputs) (result : Except RuntimeError NodeOutput) : Event
  | shadowed (graphNode : NodeId) (output : NodeOutput) : Event
  | charged (graphNode : NodeId) (result : Except BudgetTrackerError Unit) : Event
  | compensatorRun (run : CompensatorRun) : Event
  | opened (result : Except RecorderError Unit) : Event
  | recorded (step : TraceStep) (result : Except RecorderError Unit) : Event
  | closed (status : TraceStatus) (result : Except RecorderError Unit) : Event

/-- The variables of a run, and its log. -/
structure RunState (ρ : Type) where
  outputs : Outputs
  step : ℕ
  composedWrites : ℕ
  chain : CompensationChain
  compensatorTargets : List NodeId
  budget : BudgetTracker
  recorder : ρ
  log : List Event

/-- A finished run: what is left behind and what is returned. -/
structure Exit (ρ : Type) where
  state : RunState ρ
  result : RunResult

/-- Kinds of revocable things; the executor asks about `Did` only. -/
inductive RevocationKind : Type where
  | did : RevocationKind
  | promptHash : RevocationKind
  | toolVersion : RevocationKind
  | manifestHash : RevocationKind
  | tokenJti : RevocationKind
  deriving DecidableEq, Repr

/-- What a run takes from outside. -/
structure World where
  /-- `started.elapsed()` around a node, in milliseconds -/
  elapsedMs : NodeId → ℕ
  jsonToString : Json → String

/-- `GraphExecutor`. The recorder and the budget are its initial states. -/
structure GraphExecutor (ρ : Type) where
  policy : PolicyEngine
  recorder : ρ
  budget : BudgetTracker
  revocation : Option (RevocationKind → String → Bool)
  shadow : Bool

/-- `GraphExecutor::new`. -/
def GraphExecutor.new {ρ : Type} (policy : PolicyEngine) (recorder : ρ) (budget : BudgetContract) :
    GraphExecutor ρ :=
  ⟨policy, recorder, .new budget, none, false⟩

/-- `GraphExecutor::with_shadow`. -/
def GraphExecutor.withShadow {ρ : Type} (exec : GraphExecutor ρ) : GraphExecutor ρ :=
  { exec with shadow := true }

namespace GraphExecutor

variable {ρ : Type} [TraceRecorder ρ]

/-! ## Leaving the run -/

/-- `close_trace`, then return `result`; a recorder error is returned in its
place. -/
def closeTrace (intent : IntentEnvelope) (status : TraceStatus) (s : RunState ρ)
    (result : RunResult) : Exit ρ :=
  let (r, recorder) := TraceRecorder.close intent.traceId status s.recorder
  let s := { s with recorder := recorder, log := s.log ++ [.closed status r] }
  match r with
  | .ok () => ⟨s, result⟩
  | .error e => ⟨s, .error (.node e.display)⟩

/-- `GraphExecutor::rollback`: the targets, once the chain is drained. -/
def rollback (intent : IntentEnvelope) (s : RunState ρ) :
    Except RuntimeError (List NodeId) × List CompensatorRun :=
  if s.chain.isEmpty then (.ok [], [])
  else
    let (r, runs) := s.chain.rollback intent
    (r.map fun _ => s.compensatorTargets, runs)

/-- The failure branch: roll back, close, surface the failure. A compensator
that fails returns before the trace is closed. -/
def failStep (intent : IntentEnvelope) (s : RunState ρ) (e : RuntimeError) : Exit ρ :=
  let (rolled, runs) := rollback intent s
  let s := { s with log := s.log ++ runs.map .compensatorRun }
  match rolled with
  | .error e' => ⟨s, .error e'⟩
  | .ok compensated =>
    closeTrace intent .failed s
      (if compensated.isEmpty then .error e
        else .ok (.rolledBack s.step e.display compensated))

/-! ## Policy hooks -/

/-- The context the executor builds for a hook. -/
def context (intent : IntentEnvelope) (payload output : Option String)
    (sideEffect : Option SideEffect) (s : RunState ρ) : PolicyContext where
  intent := intent
  capability := none
  requester := intent.requester
  payload := payload
  output := output
  sideEffect := sideEffect
  remainingBudget := s.budget.remaining
  tenant := intent.requester.tenant
  composedWrites := s.composedWrites
  ontologyClassLookup := none

/-- Act on a decision: deny fails the run, approval pauses it with the outputs
in `paused`. -/
def settle (intent : IntentEnvelope) (decision : PolicyDecision) (atStep : ℕ) (paused : Outputs)
    (s : RunState ρ) : Except (Exit ρ) (RunState ρ) :=
  match decision with
  | .deny violations =>
    .error (closeTrace intent .failed s (.error (.policyViolation violations)))
  | .requireApproval _ =>
    .error (closeTrace intent .partialResult s (.ok (.pendingApproval paused atStep decision)))
  | _ => .ok s

/-- Evaluate a hook and act on the decision. -/
def gate (exec : GraphExecutor ρ) (hook : PolicyHook) (graphNode : Option NodeId)
    (ctx : PolicyContext) (atStep : ℕ) (paused : Outputs) (s : RunState ρ) :
    Except (Exit ρ) (RunState ρ) :=
  let decision := exec.policy.evaluate hook ctx
  settle ctx.intent decision atStep paused
    { s with log := s.log ++ [.policy hook graphNode ctx decision] }

/-! ## One iteration -/

/-- The marker a shadowed node produces. -/
def shadowOutput (id : NodeId) (node : Node) : NodeOutput :=
  .ofData (.obj [("shadow", .bool true), ("would_have_run", .str id.raw),
    ("side_effect", .str node.sideEffect.debug)])

/-- The shadow guard and the node run. -/
def execute (exec : GraphExecutor ρ) (intent : IntentEnvelope) (id : NodeId) (node : Node)
    (s : RunState ρ) : Except (Exit ρ) (NodeOutput × RunState ρ) :=
  if exec.shadow && node.isWriteClass then
    let output := shadowOutput id node
    .ok (output, { s with log := s.log ++ [.shadowed id output] })
  else
    let result := node.run intent s.outputs
    let s := { s with
      log := s.log ++ (node.leaves.map (.leafRun id s.outputs) ++ [.nodeRun id s.outputs result]) }
    match result with
    | .ok output => .ok (output, s)
    | .error e => .error (failStep intent s e)

/-- Charge the budget (Rule 8); exhaustion ends the run without this step's
output. -/
def chargeStep (world : World) (intent : IntentEnvelope) (id : NodeId) (output : NodeOutput)
    (s : RunState ρ) : Except (Exit ρ) (RunState ρ) :=
  let (r, budget) := s.budget.charge output.tokens output.costUsd (world.elapsedMs id)
  let s := { s with budget := budget, log := s.log ++ [.charged id r] }
  match r with
  | .ok () => .ok s
  | .error e =>
    .error (closeTrace intent .partialResult s (.ok (.partialResult s.outputs (s.step - 1) e)))

/-- `u32::try_from(tokens).unwrap_or(u32::MAX)`. -/
def tokensU32 (tokens : ℕ) : ℕ := min tokens (2 ^ 32 - 1)

/-- The observation of a successful step, with its minimal outcome (Rules 12
and 15). -/
def observationOf (intent : IntentEnvelope) (id : NodeId) (node : Node) (output : NodeOutput)
    (step : ℕ) : Observation where
  traceId := intent.traceId
  nodeId := id
  step := step
  agent := ⟨"runtime"⟩
  observed := []
  reasoning := "ran node " ++ id.raw ++ " of kind " ++ node.kind.debug
  decision := "continue"
  confidence := .finite 1
  alternatives := []
  outcome := .success
  outcomeDetail := some ⟨.succeeded, output.durationMs, tokensU32 output.tokens, output.costUsd⟩

/-- The trace step of a successful node: its tokens are split in halves. -/
def traceStepOf (intent : IntentEnvelope) (id : NodeId) (node : Node) (output : NodeOutput)
    (step : ℕ) : TraceStep :=
  stepOf (observationOf intent id node output step) "node_run" output.costUsd output.durationMs
    (output.tokens / 2) (output.tokens - output.tokens / 2) output.model

/-- Record the observation. -/
def recordNode (intent : IntentEnvelope) (id : NodeId) (node : Node) (output : NodeOutput)
    (s : RunState ρ) : Except (Exit ρ) (RunState ρ) :=
  let step := traceStepOf intent id node output s.step
  let (r, recorder) := TraceRecorder.recordStep step s.recorder
  let s := { s with recorder := recorder, log := s.log ++ [.recorded step r] }
  match r with
  | .ok () => .ok s
  | .error e => .error ⟨s, .error (.node e.display)⟩

/-- Count a write and queue its compensator, then keep the output. -/
def commit (g : Graph) (id : NodeId) (node : Node) (output : NodeOutput) (s : RunState ρ) :
    RunState ρ :=
  let s :=
    if node.isWriteClass then
      let s := { s with composedWrites := s.composedWrites + 1 }
      match g.compensators.lookup id with
      | some comp =>
        { s with
          chain := s.chain.push id comp
          compensatorTargets := s.compensatorTargets ++ [id] }
      | none => s
    else s
  { s with outputs := s.outputs.insert id output }

/-- One iteration, once the node is found. `s` has its step counted already. -/
def runFound (exec : GraphExecutor ρ) (world : World) (g : Graph) (intent : IntentEnvelope)
    (id : NodeId) (node : Node) (s : RunState ρ) : Except (Exit ρ) (RunState ρ) := do
  let s ← exec.gate .preStep (some id)
    (context intent (some intent.goal) none (some node.sideEffect) s) s.step s.outputs s
  let (output, s) ← exec.execute intent id node s
  let s ← chargeStep world intent id output s
  let s ← exec.gate .postStep (some id)
    (context intent none (some (world.jsonToString output.data)) (some node.sideEffect) s)
    s.step (s.outputs.insert id output) s
  let s ← recordNode intent id node output s
  return commit g id node output s

/-- One iteration of the loop over `graph.order`. -/
def runNode (exec : GraphExecutor ρ) (world : World) (g : Graph) (intent : IntentEnvelope)
    (s : RunState ρ) (id : NodeId) : Except (Exit ρ) (RunState ρ) :=
  let s := { s with step := s.step + 1 }
  match g.nodes.lookup id with
  | none => .error ⟨s, .error (.node ("missing node " ++ id.raw))⟩
  | some node => runFound exec world g intent id node s

/-! ## The run -/

/-- The state before the first hook. -/
def initial (exec : GraphExecutor ρ) : RunState ρ :=
  ⟨∅, 0, 0, ⟨[]⟩, [], exec.budget, exec.recorder, []⟩

/-- The revocation check: the requester is a revoked DID. -/
def isRevoked (exec : GraphExecutor ρ) (intent : IntentEnvelope) : Bool :=
  match exec.revocation with
  | none => false
  | some reg =>
    Text.startsWith intent.requester.userId "did:aaf:" && reg .did intent.requester.userId

/-- `PrePlan` is evaluated before the trace is opened. -/
def prePlan (exec : GraphExecutor ρ) (intent : IntentEnvelope) : PolicyDecision × RunState ρ :=
  let ctx := context intent (some intent.goal) none none exec.initial
  let decision := exec.policy.evaluate .prePlan ctx
  (decision, { exec.initial with log := [.policy .prePlan none ctx decision] })

/-- Open the trace. -/
def openTrace (intent : IntentEnvelope) (s : RunState ρ) : Except (Exit ρ) (RunState ρ) :=
  let (r, recorder) := TraceRecorder.openTrace intent.traceId intent.intentId s.recorder
  let s := { s with recorder := recorder, log := s.log ++ [.opened r] }
  match r with
  | .ok () => .ok s
  | .error e => .error ⟨s, .error (.node e.display)⟩

/-- Everything before the loop, after the revocation check. -/
def start (exec : GraphExecutor ρ) (intent : IntentEnvelope) : Except (Exit ρ) (RunState ρ) := do
  let (decision, s) := exec.prePlan intent
  let s ← openTrace intent s
  settle intent decision 0 ∅ s

/-- `for node_id in &graph.order`. -/
def loop (exec : GraphExecutor ρ) (world : World) (g : Graph) (intent : IntentEnvelope)
    (order : List NodeId) (s : RunState ρ) : Except (Exit ρ) (RunState ρ) :=
  order.foldlM (exec.runNode world g intent) s

/-- `PreArtifact`, after the loop. -/
def preArtifact (exec : GraphExecutor ρ) (intent : IntentEnvelope) (s : RunState ρ) :
    Except (Exit ρ) (RunState ρ) :=
  exec.gate .preArtifact none (context intent none none none s) s.step s.outputs s

/-- `GraphExecutor::run`. -/
def run (exec : GraphExecutor ρ) (world : World) (g : Graph) (intent : IntentEnvelope) : Exit ρ :=
  if exec.isRevoked intent then
    ⟨exec.initial, .error (.revoked intent.requester.userId "revoked in revocation registry")⟩
  else
    match exec.start intent >>= exec.loop world g intent g.order >>= exec.preArtifact intent with
    | .error exit => exit
    | .ok s => closeTrace intent .completed s (.ok (.completed s.outputs s.step))

end GraphExecutor

end Aaf
