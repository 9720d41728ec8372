import Aaf.Budget

/-!
# Runtime nodes

The `Node` trait of `aaf-runtime` and its composite implementation `ForkNode`.

A graph executor runs a node at most once in a run, so a node's behaviour, however
stateful, is covered by an arbitrary function from the intent and the prior
outputs to a result; that is a `LeafNode`. `ForkNode` is the one node that runs
other nodes, so `Node` is the tree of forks over leaves.

A fork spawns every child before it joins any, so all its leaves run whatever the
result; the join then stops at the first failing child in list order. A child
that panics is represented by the join error it turns into.
-/

namespace Aaf

/-! ## Errors -/

/-- Errors of storage backends. -/
inductive StorageError : Type where
  | notFound (what : String) : StorageError
  | backend (what : String) : StorageError
  | conflict (what : String) : StorageError
  | boundaryViolation (what : String) : StorageError
  deriving DecidableEq, Repr

/-- The `Display` rendering. -/
def StorageError.display : StorageError → String
  | notFound what => "not found: " ++ what
  | backend what => "backend failure: " ++ what
  | conflict what => "conflict: " ++ what
  | boundaryViolation what => "tenant boundary violation: " ++ what

/-- Errors of graph validation. -/
inductive GraphValidationError : Type where
  | cycle (node : String) : GraphValidationError
  | missingNode (node : String) : GraphValidationError
  | empty : GraphValidationError
  deriving DecidableEq, Repr

/-- The `Display` rendering. -/
def GraphValidationError.display : GraphValidationError → String
  | cycle node => "cycle detected at node " ++ node
  | missingNode node => "missing node referenced in edges: " ++ node
  | empty => "empty graph"

/-- `RuntimeError`. -/
inductive RuntimeError : Type where
  | stepTimeout (stepId : String) (timeoutMs : ℕ) : RuntimeError
  | budgetExceeded (e : BudgetTrackerError) : RuntimeError
  | policyViolation (violations : List PolicyViolation) : RuntimeError
  | graph (e : GraphValidationError) : RuntimeError
  | storage (e : StorageError) : RuntimeError
  | compensationFailed (stepId reason : String) : RuntimeError
  | node (message : String) : RuntimeError
  | revoked (did reason : String) : RuntimeError
  deriving DecidableEq, Repr

/-- The `Display` rendering. -/
def RuntimeError.display : RuntimeError → String
  | stepTimeout stepId timeoutMs =>
    "step " ++ stepId ++ " timed out after " ++ toString timeoutMs ++ "ms"
  | budgetExceeded e => "budget exceeded: " ++ e.display
  | policyViolation violations => "policy violation: " ++ toString violations.length ++ " rule(s)"
  | graph e => "graph validation: " ++ e.display
  | storage e => "storage: " ++ e.display
  | compensationFailed stepId reason =>
    "compensation failed at step " ++ stepId ++ ": " ++ reason
  | node message => "node failure: " ++ message
  | revoked did reason => "agent " ++ did ++ " is revoked: " ++ reason

/-! ## Nodes -/

/-- What a node returns. -/
structure NodeOutput where
  data : Json
  tokens : ℕ
  costUsd : F64
  durationMs : ℕ
  model : Option String

/-- `NodeOutput { data, ..Default::default() }`. -/
def NodeOutput.ofData (data : Json) : NodeOutput := ⟨data, 0, 0, 0, none⟩

/-- Discriminator of a node. -/
inductive NodeKind : Type where
  | deterministic : NodeKind
  | agent : NodeKind
  | approval : NodeKind
  | fork : NodeKind
  | eventWait : NodeKind
  deriving DecidableEq, Repr

/-- The `Debug` rendering. -/
def NodeKind.debug : NodeKind → String
  | deterministic => "Deterministic"
  | agent => "Agent"
  | approval => "Approval"
  | fork => "Fork"
  | eventWait => "EventWait"

/-- Per-node outputs accumulated by a run. -/
abbrev Outputs : Type := HashMap NodeId NodeOutput

/-- A node that runs no other node. -/
structure LeafNode where
  id : NodeId
  kind : NodeKind
  sideEffect : SideEffect
  run : IntentEnvelope → Outputs → Except RuntimeError NodeOutput

/-- A node: a leaf, or a fork over child nodes. The fork's clock reading,
`started.elapsed()`, is an input of the run. -/
inductive Node : Type where
  | leaf : LeafNode → Node
  | fork (id : NodeId) (elapsedMs : ℕ) (children : List Node) : Node

namespace Node

/-- `Node::id`. -/
def id : Node → NodeId
  | leaf n => n.id
  | fork id _ _ => id

/-- `Node::kind`. -/
def kind : Node → NodeKind
  | leaf n => n.kind
  | fork _ _ _ => .fork

/-- `Node::side_effect`; a fork always answers `SideEffect::None`. -/
def sideEffect : Node → SideEffect
  | leaf n => n.sideEffect
  | fork _ _ _ => .none

/-- The executor's `is_write_class`: the declared side effect is `Write`,
`Delete`, `Send` or `Payment`. -/
def isWriteClass (n : Node) : Bool := n.sideEffect.requiresCompensation

/-- Join the results of a fork's children in list order, from index `idx`. -/
def joinAll (elapsedMs : ℕ) :
    ℕ → List (String × Json) → ℕ → F64 → List (Except RuntimeError NodeOutput) →
      Except RuntimeError NodeOutput
  | _, combined, tokens, cost, [] => .ok ⟨.obj combined, tokens, cost, elapsedMs, none⟩
  | _, _, _, _, .error e :: _ => .error e
  | idx, combined, tokens, cost, .ok res :: rest =>
    joinAll elapsedMs (idx + 1) (combined ++ [("child_" ++ toString idx, res.data)])
      (saturatingAdd tokens res.tokens) (cost + res.costUsd) rest

mutual

/-- `Node::run`. -/
def run (intent : IntentEnvelope) (prior : Outputs) : Node → Except RuntimeError NodeOutput
  | leaf n => n.run intent prior
  | fork _ elapsedMs children => joinAll elapsedMs 0 [] 0 0 (runAll intent prior children)

/-- Every child of a fork runs, on the same inputs. -/
def runAll (intent : IntentEnvelope) (prior : Outputs) :
    List Node → List (Except RuntimeError NodeOutput)
  | [] => []
  | n :: rest => run intent prior n :: runAll intent prior rest

end

mutual

/-- The leaves that run when the node runs. -/
def leaves : Node → List LeafNode
  | leaf n => [n]
  | fork _ _ children => leavesAll children

/-- The leaves of a list of nodes. -/
def leavesAll : List Node → List LeafNode
  | [] => []
  | n :: rest => leaves n ++ leavesAll rest

end

/-- Some leaf of the node is write-class. -/
def hasWriteLeaf (n : Node) : Bool := n.leaves.any fun l => l.sideEffect.requiresCompensation

/-- `DeterministicNode`: a pure function of the intent and the prior outputs,
with no tokens and no cost. `elapsedMs` is its clock reading. -/
def deterministic (id : NodeId) (sideEffect : SideEffect) (elapsedMs : ℕ)
    (func : IntentEnvelope → Outputs → Except RuntimeError Json) : Node :=
  leaf
    { id := id
      kind := .deterministic
      sideEffect := sideEffect
      run := fun intent prior => do
        let data ← func intent prior
        return ⟨data, 0, 0, elapsedMs, none⟩ }

end Node

/-! ## Waiting for an event -/

/-- How a wait ends: the payload arrives, the sender is gone, or the time is up. -/
inductive EventWaitEnd : Type where
  | arrived (payload : Json) : EventWaitEnd
  | closed : EventWaitEnd
  | timedOut : EventWaitEnd

/-- `EventWaitNode`, with its timeout in milliseconds. -/
structure EventWaitNode where
  id : NodeId
  timeoutMs : Option ℕ

namespace EventWaitNode

/-- `EventWaitNode::effective_timeout`: the override, else the intent's budget, else 30 s. -/
def effectiveTimeout (node : EventWaitNode) (intent : IntentEnvelope) : ℕ :=
  match node.timeoutMs with
  | some t => t
  | none => if intent.budget.maxLatencyMs > 0 then intent.budget.maxLatencyMs else 30000

/-- `EventWaitNode::run`. -/
def run (node : EventWaitNode) (intent : IntentEnvelope) :
    EventWaitEnd → Except RuntimeError NodeOutput
  | .arrived payload => .ok (.ofData payload)
  | .closed => .error (.node "event channel closed")
  | .timedOut => .error (.stepTimeout node.id.raw (node.effectiveTimeout intent))

/-- The wait as a node of a graph, by how it ends. -/
def toNode (node : EventWaitNode) (ends : EventWaitEnd) : Node :=
  .leaf
    { id := node.id
      kind := .eventWait
      sideEffect := .none
      run := fun intent _ => node.run intent ends }

end EventWaitNode

end Aaf
