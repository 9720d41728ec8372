import Aaf.Approval
import Aaf.Effects
import Aaf.Rollback

/-!
# A pending approval does not pause the run

A gate whose request is pending, or not opened yet, answers with an error, and the
executor knows one reading of a node's error: roll back and close the trace as
failed. Whatever stands before the gate, and whether the gate is a node of the graph
or sits inside a fork, the run that reaches it never returns `PendingApproval`.
-/

namespace Aaf

/-! ## An error inside a node -/

/-- A fork that joins an error fails. -/
theorem Node.joinAll_error {elapsedMs : ℕ} {e : RuntimeError} :
    ∀ {results : List (Except RuntimeError NodeOutput)} {idx tokens : ℕ}
      {combined : List (String × Json)} {cost : F64},
      .error e ∈ results → ∃ e', joinAll elapsedMs idx combined tokens cost results = .error e' := by
  intro results
  induction results with
  | nil => exact fun h => absurd h List.not_mem_nil
  | cons r rest ih =>
    intro idx tokens combined cost h
    cases r with
    | error e' => exact ⟨e', rfl⟩
    | ok output =>
      rcases List.mem_cons.mp h with h | h
      · cases h
      · exact ih h

mutual

/-- A node with a failing leaf fails. -/
theorem Node.run_error_of_leaf {intent : IntentEnvelope} {prior : Outputs} {l : LeafNode}
    {e : RuntimeError} (hrun : l.run intent prior = .error e) :
    ∀ n : Node, l ∈ n.leaves → ∃ e', n.run intent prior = .error e'
  | .leaf n, h => by
    rw [leaves, List.mem_singleton] at h
    exact ⟨e, by rw [run, ← h, hrun]⟩
  | .fork id elapsedMs children, h => by
    rw [leaves] at h
    obtain ⟨e', he'⟩ := runAll_error_of_leaf hrun children h
    rw [run]
    exact joinAll_error he'

theorem Node.runAll_error_of_leaf {intent : IntentEnvelope} {prior : Outputs} {l : LeafNode}
    {e : RuntimeError} (hrun : l.run intent prior = .error e) :
    ∀ ns : List Node, l ∈ Node.leavesAll ns → ∃ e', .error e' ∈ Node.runAll intent prior ns
  | [], h => by
    rw [leavesAll] at h
    cases h
  | n :: rest, h => by
    rw [leavesAll, List.mem_append] at h
    rw [runAll]
    rcases h with h | h
    · obtain ⟨e', he'⟩ := run_error_of_leaf hrun n h
      exact ⟨e', List.mem_cons.mpr (Or.inl he'.symm)⟩
    · obtain ⟨e', he'⟩ := runAll_error_of_leaf hrun rest h
      exact ⟨e', List.mem_cons_of_mem _ he'⟩

end

/-- A gate whose request is pending, or not opened, answers with an error. -/
theorem ApprovalNode.run_pending {gate : ApprovalNode} {intent : IntentEnvelope}
    {wf : ApprovalWorkflow} (hworkflow : gate.autoApprove = false)
    (hpending : ∀ req, wf.get (requestIdOf intent.intentId) = some req → req.state = .pending) :
    ∃ e, (gate.run intent wf).1 = .error e := by
  rw [ApprovalNode.run, hworkflow, if_neg Bool.false_ne_true]
  rcases hreq : wf.get (requestIdOf intent.intentId) with _ | req
  · exact ⟨_, rfl⟩
  · dsimp only
    rw [hpending req hreq]
    exact ⟨_, rfl⟩

namespace GraphExecutor

variable {ρ : Type} [TraceRecorder ρ] {exec : GraphExecutor ρ} {world : World} {g : Graph}
  {intent : IntentEnvelope}

/-! ## The run that reaches the gate -/

/-- The failure branch never pauses. -/
theorem failStep_ne_pendingApproval (s : RunState ρ) (e : RuntimeError) (outputs : Outputs)
    (atStep : ℕ) (decision : PolicyDecision) :
    (failStep intent s e).result ≠ .ok (.pendingApproval outputs atStep decision) := by
  rw [failStep]
  rcases rollback intent s with ⟨e' | compensated, runs⟩
  · intro h
    cases h
  · dsimp only
    rw [closeTrace]
    dsimp only
    split
    · dsimp only
      split
      · intro h
        cases h
      · intro h
        cases h
    · intro h
      cases h

/-- The run paused for an approval: it returned the outputs so far, closed the trace
as partial, and undid nothing. -/
structure Pauses (x : Exit ρ) (outputs : Outputs) : Prop where
  result : ∃ atStep decision, x.result = .ok (.pendingApproval outputs atStep decision)
  closed : ∃ r, Event.closed .partialResult r ∈ x.state.log
  undisturbed : ∀ r, Event.compensatorRun r ∉ x.state.log

/-- **A pending approval never pauses.** No run that reaches a workflow-backed gate,
while its request is pending or not opened, pauses there with the outputs so far. -/
theorem pendingGate_not_pauses (exec : GraphExecutor ρ) (world : World) (g : Graph)
    (intent : IntentEnvelope) (gate : ApprovalNode) (wf : ApprovalWorkflow)
    (hworkflow : gate.autoApprove = false)
    (hpending : ∀ req, wf.get (requestIdOf intent.intentId) = some req → req.state = .pending)
    (id : NodeId) (outputs : Outputs)
    (hreached : ∀ l ∈ (gate.toNode wf).leaves,
      Event.leafRun id outputs l ∈ (exec.run world g intent).state.log) :
    ¬ Pauses (exec.run world g intent) outputs := by
  rintro ⟨⟨atStep, decision, hresult⟩, -, -⟩
  obtain ⟨e, he⟩ := ApprovalNode.run_pending hworkflow hpending
  have hleaf := hreached _ (List.mem_singleton.mpr rfl)
  obtain ⟨pre, s, node, hto, hpre, hshadow, hl, -⟩ := comesTo_of_leafRun hleaf
  obtain ⟨post, hsplit⟩ := hto.split
  -- the gate's error is its node's error, and that is the failure branch
  have hgate : ∃ e', node.run intent s.outputs = .error e' := Node.run_error_of_leaf he node hl
  obtain ⟨e', hrun⟩ := hgate
  have hran : exec.outputOf intent id node s = .error e' := by
    rw [outputOf, hshadow, if_neg Bool.false_ne_true, hrun]
  rw [run_eq_of_case (.stoppedAt hsplit hto.reach (.failed hto.found hpre hran))] at hresult
  exact failStep_ne_pendingApproval _ _ _ _ _ hresult

/-- A write, then a gate that nobody has reviewed. -/
def gatedWrite : ValidGraph :=
  Sample.pipeline (Sample.okNode Sample.nodeA .write)
    ((⟨Sample.nodeB, false, "needs review"⟩ : ApprovalNode).toNode ∅)
    (Sample.okNode ⟨"undo-a"⟩ .write)

/-- The run of `gatedWrite`. -/
def gatedRun : Exit (Recorder InMemoryTraceStore) :=
  (Sample.executor []).run Sample.world gatedWrite.toGraph Sample.intent

/-- The gate is reached. -/
theorem gatedRun_reached :
    ∃ outputs, ∀ l ∈ ((⟨Sample.nodeB, false, "needs review"⟩ : ApprovalNode).toNode ∅).leaves,
      Event.leafRun Sample.nodeB outputs l ∈ gatedRun.state.log := by
  have hfailed : (Sample.nodeB,
      RuntimeError.node "approval opened for intent int-1, awaiting reviewer") ∈
        failedRuns gatedRun.state.log := by decide +kernel
  obtain ⟨pre, s, node, hto, hpre, -⟩ := comesTo_of_failedRuns hfailed
  obtain rfl : node = (⟨Sample.nodeB, false, "needs review"⟩ : ApprovalNode).toNode ∅ :=
    Option.some.inj (hto.found.symm.trans rfl)
  refine ⟨s.outputs, fun l hl => ?_⟩
  exact (hto.run_prefix hpre).subset
    (List.mem_append_right _ (List.mem_append_right _ (leafRun_mem_runLog rfl hl)))

theorem gatedRun_not_pauses :
    ∃ outputs, (∀ l ∈ ((⟨Sample.nodeB, false, "needs review"⟩ : ApprovalNode).toNode ∅).leaves,
      Event.leafRun Sample.nodeB outputs l ∈ gatedRun.state.log) ∧ ¬ Pauses gatedRun outputs := by
  obtain ⟨outputs, hreached⟩ := gatedRun_reached
  refine ⟨outputs, hreached, ?_⟩
  exact pendingGate_not_pauses (Sample.executor []) Sample.world gatedWrite.toGraph Sample.intent
    ⟨Sample.nodeB, false, "needs review"⟩ ∅ rfl (fun req h => by cases h) Sample.nodeB outputs
    hreached

/-- The gate is reached and not reviewed; the run comes back rolled back, with the
compensator of the write run. -/
theorem gatedRun_undoes_write :
    (∃ outputs, ∀ l ∈ ((⟨Sample.nodeB, false, "needs review"⟩ : ApprovalNode).toNode ∅).leaves,
      Event.leafRun Sample.nodeB outputs l ∈ gatedRun.state.log) ∧
      ∀ outputs, ¬ Pauses gatedRun outputs := by
  refine ⟨gatedRun_reached, ?_⟩
  rintro outputs ⟨-, -, hundisturbed⟩
  have hruns : (compensatorRuns gatedRun.state.log).isEmpty = false := by decide +kernel
  rcases hcomp : compensatorRuns gatedRun.state.log with _ | ⟨r, rest⟩
  · rw [hcomp] at hruns
    cases hruns
  · have hmem : r ∈ compensatorRuns gatedRun.state.log := by
      rw [hcomp]
      exact List.mem_cons_self ..
    obtain ⟨ev, hev, heq⟩ := List.mem_filterMap.mp hmem
    split at heq
    · cases heq
      exact hundisturbed r hev
    · cases heq

end GraphExecutor

end Aaf
