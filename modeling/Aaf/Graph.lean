import Mathlib.Data.List.Sort
import Aaf.Node

/-!
# The execution graph and its validation

`Graph::validate_with_compensators` (`aaf-runtime`): reference checks, then
Kahn's algorithm over a queue kept sorted by id, popped from its greatest end.

Two things the Rust leaves implicit are explicit here. The order in which a
`HashMap` enumerates its keys is an argument, `HashOrder`. And the decrement of an
in-degree, which would panic on zero, is checked: `KahnFault` collects that
panic and the exhaustion of the fuel that makes the loop structural. Neither
occurs, see `Aaf.GraphOrder`.
-/

namespace Aaf

/-- One edge. -/
structure Edge where
  fromNode : NodeId
  toNode : NodeId
  deriving DecidableEq, Repr

/-- An execution graph. -/
structure Graph where
  nodes : HashMap NodeId Node
  edges : List Edge
  /-- topologically sorted order produced by validation -/
  order : List NodeId
  /-- compensators by the step they undo -/
  compensators : HashMap NodeId Node

/-- The order in which a hash map enumerates its keys: some permutation. -/
structure HashOrder where
  order : List NodeId → List NodeId
  perm : ∀ l, (order l).Perm l

/-! ## Kahn's algorithm -/

/-- `sort_by(|a, b| a.as_str().cmp(b.as_str()))`. -/
def sortById (queue : List NodeId) : List NodeId :=
  queue.insertionSort fun a b => a.raw ≤ b.raw

/-- The loop's state. -/
structure KahnState where
  queue : List NodeId
  indeg : HashMap NodeId ℕ
  order : List NodeId
  visited : List NodeId

/-- What would stop the loop abnormally. -/
inductive KahnFault : Type where
  /-- `*d -= 1` on zero -/
  | underflow : KahnFault
  | fuel : KahnFault
  deriving DecidableEq, Repr

/-- One child of the node just placed: its in-degree drops, and at zero it
joins the queue. -/
def relax (st : KahnState) (child : NodeId) : Except KahnFault KahnState :=
  match st.indeg.lookup child with
  | none => .ok st
  | some 0 => .error .underflow
  | some (d + 1) =>
    let indeg := st.indeg.insert child d
    if d = 0 then .ok { st with indeg := indeg, queue := sortById (st.queue ++ [child]) }
    else .ok { st with indeg := indeg }

/-- Place the popped node. -/
def place (st : KahnState) (n : NodeId) : KahnState :=
  { st with
    queue := st.queue.dropLast
    order := st.order ++ [n]
    visited := st.visited.insert n }

/-- `while let Some(n) = queue.pop()`. -/
def kahn (adj : HashMap NodeId (List NodeId)) : ℕ → KahnState → Except KahnFault KahnState
  | fuel, st =>
    match st.queue.getLast? with
    | none => .ok st
    | some n =>
      match fuel with
      | 0 => .error .fuel
      | fuel + 1 => do
        let st ← ((adj.lookup n).getD []).foldlM relax (place st n)
        kahn adj fuel st

/-- The in-degree table: every node, then one more for each edge into it. -/
def indegrees (nodes : List NodeId) (edges : List Edge) : HashMap NodeId ℕ :=
  edges.foldl (fun m e => m.insert e.toNode ((m.lookup e.toNode).getD 0 + 1))
    (nodes.foldl (fun m k => m.insert k 0) ∅)

/-- The adjacency table, children in edge order. -/
def adjacency (edges : List Edge) : HashMap NodeId (List NodeId) :=
  edges.foldl (fun m e => m.insert e.fromNode ((m.lookup e.fromNode).getD [] ++ [e.toNode])) ∅

/-- The queue before the first pop: the nodes of in-degree zero, sorted. -/
def initialQueue (hash : HashOrder) (indeg : HashMap NodeId ℕ) : List NodeId :=
  sortById ((hash.order indeg.keys).filter fun k => indeg.lookup k = some 0)

/-! ## Validation -/

/-- The first edge endpoint that is not a node. -/
def missingEndpoint (nodes : HashMap NodeId Node) (edges : List Edge) : Option NodeId :=
  edges.findSome? fun e =>
    if e.fromNode ∉ nodes then some e.fromNode
    else if e.toNode ∉ nodes then some e.toNode
    else none

/-- `Graph::validate_with_compensators`. -/
def Graph.validateWithCompensators (hash : HashOrder) (nodes : HashMap NodeId Node)
    (edges : List Edge) (compensators : HashMap NodeId Node) :
    Except KahnFault (Except GraphValidationError Graph) :=
  if nodes.keys.isEmpty then .ok (.error .empty)
  else
    match missingEndpoint nodes edges with
    | some k => .ok (.error (.missingNode k.raw))
    | none =>
      match (hash.order compensators.keys).find? (fun k => decide (k ∉ nodes)) with
      | some k => .ok (.error (.missingNode ("compensator-for-" ++ k.raw)))
      | none => do
        let indeg := indegrees nodes.keys edges
        let st ← kahn (adjacency edges) nodes.keys.length
          { queue := initialQueue hash indeg, indeg := indeg, order := [], visited := [] }
        if st.visited.length ≠ nodes.keys.length then
          let bad := (hash.order nodes.keys).find? fun k => decide (k ∉ st.visited)
          .ok (.error (.cycle (bad.getD ⟨"unknown"⟩).raw))
        else .ok (.ok ⟨nodes, edges, st.order, compensators⟩)

/-- A graph that validation produced. -/
structure ValidGraph extends Graph where
  /-- the run of validation that produced it -/
  validated : ∃ hash nodes edges compensators,
    Graph.validateWithCompensators hash nodes edges compensators = .ok (.ok toGraph)

end Aaf
