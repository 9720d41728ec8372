import Aaf.Node

/-!
# The approval workflow and its gate

`ApprovalWorkflow` (`aaf-policy`) holds approval requests by a request id that
is made from the intent id; `ApprovalNode` (`aaf-runtime`) is the graph node that
consults it. Creation and resolution times are left out.
-/

namespace Aaf

/-! ## The workflow -/

/-- State of an approval request. -/
inductive ApprovalState : Type where
  | pending : ApprovalState
  | approved : ApprovalState
  | rejected : ApprovalState
  | expired : ApprovalState
  deriving DecidableEq, Repr

/-- One approval request. -/
structure ApprovalRequest where
  requestId : String
  intentId : IntentId
  reason : String
  violations : List PolicyViolation
  state : ApprovalState
  deriving DecidableEq, Repr

/-- The workflow's table of requests. -/
abbrev ApprovalWorkflow : Type := HashMap String ApprovalRequest

/-- The id of the request that belongs to an intent. -/
def requestIdOf (intentId : IntentId) : String := "appr-" ++ intentId.raw

theorem requestIdOf_injective : Function.Injective requestIdOf := by
  rintro ⟨a⟩ ⟨b⟩ h
  have hraw : a = b := by simpa [requestIdOf] using h
  rw [hraw]

namespace ApprovalWorkflow

/-- `ApprovalWorkflow::open`: a pending request, in place of any older one. -/
def openRequest (wf : ApprovalWorkflow) (intentId : IntentId) (reason : String)
    (violations : List PolicyViolation) : String × ApprovalWorkflow :=
  let requestId := requestIdOf intentId
  (requestId, wf.insert requestId ⟨requestId, intentId, reason, violations, .pending⟩)

/-- `ApprovalWorkflow::resolve`. -/
def resolve (wf : ApprovalWorkflow) (requestId : String) (approved : Bool) :
    Option ApprovalState × ApprovalWorkflow :=
  match wf.lookup requestId with
  | none => (none, wf)
  | some req =>
    let state := if approved then .approved else .rejected
    (some state, wf.insert requestId { req with state := state })

/-- `ApprovalWorkflow::get`. -/
def get (wf : ApprovalWorkflow) (requestId : String) : Option ApprovalRequest :=
  wf.lookup requestId

/-- Resolving one request leaves every other one alone. -/
theorem get_resolve_ne {wf : ApprovalWorkflow} {requestId other : String} (approved : Bool)
    (h : other ≠ requestId) : (wf.resolve requestId approved).2.get other = wf.get other := by
  rw [resolve, get]
  split
  · rfl
  · exact AList.lookup_insert_ne h

end ApprovalWorkflow

/-! ## The gate -/

/-- `ApprovalNode`: the workflow it consults is state, passed along by `run`. -/
structure ApprovalNode where
  id : NodeId
  /-- `ApprovalMode::AutoApprove` -/
  autoApprove : Bool
  reason : String

/-- The output of a gate that passed. -/
def approvedOutput (via : String) : NodeOutput :=
  .ofData (.obj [("approved", .bool true), ("via", .str via)])

/-- What a gate answers on a request in a given state. -/
def approvalVerdict (intentId : IntentId) : ApprovalState → Except RuntimeError NodeOutput
  | .approved => .ok (approvedOutput "workflow")
  | .rejected => .error (.node ("approval rejected for intent " ++ intentId.raw))
  | .pending => .error (.node ("approval pending for intent " ++ intentId.raw))
  | .expired => .error (.node ("approval expired for intent " ++ intentId.raw))

/-- `ApprovalNode::run`. -/
def ApprovalNode.run (gate : ApprovalNode) (intent : IntentEnvelope) (wf : ApprovalWorkflow) :
    Except RuntimeError NodeOutput × ApprovalWorkflow :=
  if gate.autoApprove then (.ok (approvedOutput "auto"), wf)
  else
    match wf.get (requestIdOf intent.intentId) with
    | some req => (approvalVerdict intent.intentId req.state, wf)
    | none =>
      (.error (.node ("approval opened for intent " ++ intent.intentId.raw ++
        ", awaiting reviewer")), (wf.openRequest intent.intentId gate.reason []).2)

/-- The gate as a node of a graph, in a workflow that nobody else touches while
it runs. -/
def ApprovalNode.toNode (gate : ApprovalNode) (wf : ApprovalWorkflow) : Node :=
  .leaf
    { id := gate.id
      kind := .approval
      sideEffect := .none
      run := fun intent _ => (gate.run intent wf).1 }

/-- The gate's answer depends on the workflow through the intent's own request
alone. -/
theorem ApprovalNode.run_congr (gate : ApprovalNode) (intent : IntentEnvelope)
    {wf wf' : ApprovalWorkflow}
    (h : wf'.get (requestIdOf intent.intentId) = wf.get (requestIdOf intent.intentId)) :
    (gate.run intent wf').1 = (gate.run intent wf).1 := by
  unfold ApprovalNode.run
  rw [h]
  split
  · rfl
  · split
    · rfl
    · rfl

end Aaf
