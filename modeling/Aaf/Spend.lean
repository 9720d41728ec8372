import Aaf.AgentLoop
import Aaf.Approval

/-!
# What the providers were paid

The tracker learns what an agent spent from the output of its node, and a node that
fails has no output. So the responses an agent got before a later chat or tool failed are
not charged, nor are those of the other children of a fork that fails, and the outputs of
compensators are not charged at all.

`MeteredNode` keeps the agents of a node in sight: beside what the node returns it tells
which responses were received (`received`). `accounted_iff`: the tracker holds all that a
run received exactly when the tokens fit its counter and no failing step, nor the rollback
after it, received anything that has to be paid.
-/

namespace Aaf

/-! ## Responses and their price -/

/-- Tokens and cost. -/
abbrev Spend : Type := ℕ × F64

/-- What a response has to be paid with. -/
def ChatResponse.spend (resp : ChatResponse) : Spend :=
  (resp.tokensIn + resp.tokensOut, resp.costUsd)

/-- What a list of responses has to be paid with. -/
def spendOf (received : List ChatResponse) : Spend := (received.map ChatResponse.spend).sum

@[simp] theorem spendOf_nil : spendOf [] = 0 := rfl

@[simp] theorem spendOf_append (l l' : List ChatResponse) :
    spendOf (l ++ l') = spendOf l + spendOf l' := by
  rw [spendOf, List.map_append, List.sum_append]
  rfl

theorem spendOf_singleton (resp : ChatResponse) : spendOf [resp] = resp.spend := by
  rw [spendOf, List.map_singleton, List.sum_singleton]

theorem isFinite_spendOf {l : List ChatResponse}
    (h : ∀ resp ∈ l, resp.costUsd.isFinite = true) : (spendOf l).2.isFinite = true := by
  induction l with
  | nil => rfl
  | cons resp l ih =>
    rw [← List.singleton_append, spendOf_append, spendOf_singleton]
    exact F64.isFinite_add (h resp List.mem_cons_self)
      (ih fun r hr => h r (List.mem_cons_of_mem _ hr))

/-! ## An agent -/

/-- The response of a chat that succeeded. -/
def AgentEvent.response : AgentEvent → Option ChatResponse
  | .chatted _ (.ok resp) => some resp
  | .chatted _ (.error _) => none
  | .executed _ _ _ => none

namespace AgentNode

variable {ω : Type} {agent : AgentNode ω} {intent : IntentEnvelope} {w : ω}

/-- The responses an agent received in a run, whatever became of it. -/
def received (agent : AgentNode ω) (intent : IntentEnvelope) (w : ω) : List ChatResponse :=
  (agent.run intent w).2.log.filterMap AgentEvent.response

/-- The loop's totals are those of the responses so far. -/
def Counted (st : AgentState ω) : Prop :=
  (st.totalTokens, st.totalCost) = spendOf (st.log.filterMap AgentEvent.response)

/-- A response is counted as soon as it is there. -/
theorem Counted.count {st : AgentState ω} {resp : ChatResponse} (hst : Counted st)
    (hreply : agent.reply st = .ok resp) : Counted (count (agent.chat st) resp) := by
  have hlog : (AgentNode.count (agent.chat st) resp).log.filterMap AgentEvent.response =
      st.log.filterMap AgentEvent.response ++ [resp] := by
    change (agent.chat st).log.filterMap AgentEvent.response = _
    rw [chat_log hreply, List.filterMap_append]
    rfl
  rw [Counted, hlog, spendOf_append, spendOf_singleton, ← hst]
  rfl

/-- Executing a tool costs nothing here. -/
theorem Counted.callTool {st : AgentState ω} (hst : Counted st) (executor : ToolExecutor ω)
    (toolUse : ToolUseBlock) : Counted (callTool executor toolUse st) := by
  rw [Counted, AgentNode.callTool]
  dsimp only
  rw [List.filterMap_append]
  change (st.totalTokens, st.totalCost) = spendOf (_ ++ [])
  rw [List.append_nil]
  exact hst

/-- Whatever a turn does, its response is counted. -/
theorem Turn.counted {st : AgentState ω} {turn : ℕ} {r : Except (AgentBreak ω) (AgentState ω)}
    (h : Turn agent st turn r) (hst : Counted st) : Counted (stateOf r) := by
  cases h with
  | @chatFailed e hreply =>
    rw [reply] at hreply
    rw [Counted, stateOf, chat, hreply]
    dsimp only
    rw [List.filterMap_append]
    change (st.totalTokens, st.totalCost) = spendOf (_ ++ [])
    rw [List.append_nil]
    exact hst
  | finished hreply hquiet => exact hst.count hreply
  | exhausted hreply hturn => exact hst.count hreply
  | toolFailed hreply hasks htool => exact (hst.count hreply).callTool _ _
  | toolUsed hreply hasks htool => exact (hst.count hreply).callTool _ _

/-- An agent that succeeds reports all that it received. -/
theorem output_spend {o : NodeOutput} (h : (agent.run intent w).1 = .ok o) :
    (o.tokens, o.costUsd) = spendOf (agent.received intent w) := by
  have hcounted : Counted (agent.run intent w).2 :=
    run_induction (I := Counted) rfl fun turn st _ hst => (agent.turnStep_cases st turn).counted hst
  rw [run] at h
  rcases hresult : (agent.loop intent w).result with e | content
  · rw [hresult] at h
    cases h
  · rw [hresult] at h
    cases h
    exact hcounted

end AgentNode

/-! ## Nodes -/

/-- A leaf that has nobody to pay: its outputs report no tokens and no cost. -/
structure FreeLeaf extends LeafNode where
  free : ∀ {intent prior o}, run intent prior = .ok o → (o.tokens, o.costUsd) = (0 : Spend)

namespace FreeLeaf

/-- A `DeterministicNode`. -/
def deterministic (id : NodeId) (sideEffect : SideEffect) (elapsedMs : ℕ)
    (func : IntentEnvelope → Outputs → Except RuntimeError Json) : FreeLeaf where
  id := id
  kind := .deterministic
  sideEffect := sideEffect
  run := fun intent prior => do
    let data ← func intent prior
    return ⟨data, 0, 0, elapsedMs, none⟩
  free := by
    intro intent prior o h
    obtain ⟨data, -, hdata⟩ := Loop.bind_ok_iff.mp h
    cases hdata
    rfl

/-- An `ApprovalNode`. -/
def approval (gate : ApprovalNode) (wf : ApprovalWorkflow) : FreeLeaf where
  id := gate.id
  kind := .approval
  sideEffect := .none
  run := fun intent _ => (gate.run intent wf).1
  free := by
    intro intent prior o h
    rw [ApprovalNode.run] at h
    split at h
    · cases h
      rfl
    · split at h
      · next req _ =>
        rcases hstate : req.state with _ | _ | _ | _ <;> rw [hstate] at h <;> cases h
        rfl
      · cases h

/-- An `EventWaitNode`. -/
def eventWait (node : EventWaitNode) (ends : EventWaitEnd) : FreeLeaf where
  id := node.id
  kind := .eventWait
  sideEffect := .none
  run := fun intent _ => node.run intent ends
  free := by
    intro intent prior o h
    cases ends with
    | arrived payload =>
      cases h
      rfl
    | closed => cases h
    | timedOut => cases h

end FreeLeaf

/-- A node whose agents are in sight. -/
inductive MeteredNode (ω : Type) : Type where
  | agent (agent : AgentNode ω) (w : ω) : MeteredNode ω
  | free (leaf : FreeLeaf) : MeteredNode ω
  | fork (id : NodeId) (elapsedMs : ℕ) (children : List (MeteredNode ω)) : MeteredNode ω

/-- A counter and a cost report what was received. The counter may have stopped at
`u64::MAX`. -/
structure Reports (tokens : ℕ) (cost : F64) (received : List ChatResponse) : Prop where
  tokens_eq : min tokens u64Max = min (spendOf received).1 u64Max
  cost_eq : cost = (spendOf received).2

theorem Reports.of_eq {tokens : ℕ} {cost : F64} {received : List ChatResponse}
    (h : (tokens, cost) = spendOf received) : Reports tokens cost received := by
  refine ⟨?_, ?_⟩
  · rw [← h]
  · rw [← h]

/-- A saturating counter goes on reporting. -/
theorem Reports.add {t t' : ℕ} {c c' : F64} {l l' : List ChatResponse} (h : Reports t c l)
    (h' : Reports t' c' l') : Reports (saturatingAdd t t') (c + c') (l ++ l') := by
  refine ⟨?_, ?_⟩
  · have htokens := h.tokens_eq
    have htokens' := h'.tokens_eq
    rw [spendOf_append, Prod.fst_add, saturatingAdd]
    omega
  · rw [spendOf_append, Prod.snd_add, h.cost_eq, h'.cost_eq]

namespace MeteredNode

variable {ω : Type}

mutual

/-- The node that a graph holds. -/
def toNode : MeteredNode ω → Node
  | agent a w => a.toNode w
  | free leaf => .leaf leaf.toLeafNode
  | fork id elapsedMs children => .fork id elapsedMs (toNodeAll children)

def toNodeAll : List (MeteredNode ω) → List Node
  | [] => []
  | n :: rest => toNode n :: toNodeAll rest

end

mutual

/-- The responses received when the node runs. Every child of a fork runs. -/
def received (intent : IntentEnvelope) : MeteredNode ω → List ChatResponse
  | agent a w => a.received intent w
  | free _ => []
  | fork _ _ children => receivedAll intent children

def receivedAll (intent : IntentEnvelope) : List (MeteredNode ω) → List ChatResponse
  | [] => []
  | n :: rest => received intent n ++ receivedAll intent rest

end

mutual

/-- A node that succeeds reports all that was received in it. -/
theorem reports {intent : IntentEnvelope} {prior : Outputs} {o : NodeOutput} :
    ∀ n : MeteredNode ω, n.toNode.run intent prior = .ok o →
      Reports o.tokens o.costUsd (n.received intent)
  | agent a w, h => by
    rw [received]
    exact Reports.of_eq (a.output_spend h)
  | free leaf, h => by
    rw [received]
    exact Reports.of_eq (leaf.free h)
  | fork id elapsedMs children, h => by
    rw [toNode, Node.run] at h
    rw [received]
    have hnone : Reports 0 0 [] := ⟨rfl, rfl⟩
    exact reports_joinAll children hnone h

/-- The join adds up what the children report. -/
theorem reports_joinAll {intent : IntentEnvelope} {prior : Outputs} {elapsedMs : ℕ}
    {o : NodeOutput} :
    ∀ (ns : List (MeteredNode ω)) {idx : ℕ} {combined : List (String × Json)} {tokens : ℕ}
      {cost : F64} {l : List ChatResponse}, Reports tokens cost l →
      Node.joinAll elapsedMs idx combined tokens cost (Node.runAll intent prior (toNodeAll ns)) =
        .ok o → Reports o.tokens o.costUsd (l ++ receivedAll intent ns)
  | [], _, _, _, _, l, hl, h => by
    rw [toNodeAll, Node.runAll, Node.joinAll] at h
    cases h
    rw [receivedAll, List.append_nil]
    exact hl
  | n :: rest, idx, combined, tokens, cost, l, hl, h => by
    rw [toNodeAll, Node.runAll] at h
    rcases hrun : n.toNode.run intent prior with e | res
    · rw [hrun, Node.joinAll] at h
      cases h
    · rw [hrun, Node.joinAll] at h
      rw [receivedAll, ← List.append_assoc]
      exact reports_joinAll rest (hl.add (reports n hrun)) h

end

theorem toNode_deterministic (id : NodeId) (sideEffect : SideEffect) (elapsedMs : ℕ)
    (func : IntentEnvelope → Outputs → Except RuntimeError Json) :
    (free (.deterministic id sideEffect elapsedMs func) : MeteredNode ω).toNode =
      .deterministic id sideEffect elapsedMs func := by
  rw [toNode]
  rfl

theorem toNode_approval (gate : ApprovalNode) (wf : ApprovalWorkflow) :
    (free (.approval gate wf) : MeteredNode ω).toNode = gate.toNode wf := by
  rw [toNode]
  rfl

theorem toNode_eventWait (node : EventWaitNode) (ends : EventWaitEnd) :
    (free (.eventWait node ends) : MeteredNode ω).toNode = node.toNode ends := by
  rw [toNode]
  rfl

end MeteredNode

/-! ## Runs -/

/-- The metered nodes and compensators that a graph was made of. -/
structure Metering (ω : Type) (g : Graph) where
  node : NodeId → MeteredNode ω
  compensator : NodeId → MeteredNode ω
  node_eq : ∀ {id n}, g.nodes.lookup id = some n → (node id).toNode = n
  compensator_eq : ∀ {id n}, g.compensators.lookup id = some n → (compensator id).toNode = n

namespace Metering

variable {ω : Type} {g : Graph}

/-- The responses received in an event of a run. -/
def received (m : Metering ω g) (intent : IntentEnvelope) : Event → List ChatResponse
  | .nodeRun id _ _ => (m.node id).received intent
  | .compensatorRun run => (m.compensator run.step).received intent
  | _ => []

/-- The responses received in a run. -/
def receivedIn (m : Metering ω g) (intent : IntentEnvelope) (log : List Event) :
    List ChatResponse :=
  log.flatMap (m.received intent)

/-- The responses received at a step that fails behind `pre`, and in the rollback after it. -/
def unbilled (m : Metering ω g) (intent : IntentEnvelope) (pre : List NodeId) (id : NodeId) :
    List ChatResponse :=
  (m.node id).received intent ++
    m.receivedIn intent ((g.rollbackOf intent pre).2.map .compensatorRun)

@[simp] theorem receivedIn_append (m : Metering ω g) (intent : IntentEnvelope)
    (l l' : List Event) :
    m.receivedIn intent (l ++ l') = m.receivedIn intent l ++ m.receivedIn intent l' :=
  List.flatMap_append

@[simp] theorem receivedIn_singleton (m : Metering ω g) (intent : IntentEnvelope) (ev : Event) :
    m.receivedIn intent [ev] = m.received intent ev :=
  List.flatMap_singleton _ _

@[simp] theorem receivedIn_leafRuns (m : Metering ω g) (intent : IntentEnvelope) (id : NodeId)
    (prior : Outputs) (leaves : List LeafNode) :
    m.receivedIn intent (leaves.map (.leafRun id prior)) = [] := by
  induction leaves with
  | nil => rfl
  | cons l leaves ih => exact ih

end Metering

/-- The tracker holds what was received since `start`, up to saturation. -/
structure Billed (start now : BudgetTracker) (received : List ChatResponse) : Prop where
  tokens : now.usedTokens = min (start.usedTokens + (spendOf received).1) u64Max
  cost : now.usedCost = start.usedCost + (spendOf received).2

theorem billed_nil {start : BudgetTracker} (h : start.usedTokens ≤ u64Max) :
    Billed start start [] := by
  refine ⟨?_, ?_⟩
  · rw [spendOf_nil, Prod.fst_zero, Nat.add_zero, min_eq_left h]
  · rw [spendOf_nil, Prod.snd_zero, add_zero]

/-- A charge of what was reported bills what was received. -/
theorem Billed.charge {start now : BudgetTracker} {l l' : List ChatResponse} {tokens : ℕ}
    {cost : F64} (h : Billed start now l) (hreports : Reports tokens cost l') (elapsedMs : ℕ) :
    Billed start (now.charge tokens cost elapsedMs).2 (l ++ l') := by
  refine ⟨?_, ?_⟩
  · have htokens := hreports.tokens_eq
    rw [BudgetTracker.charge, BudgetTracker.add, spendOf_append, Prod.fst_add]
    dsimp only
    rw [saturatingAdd, h.tokens]
    omega
  · rw [BudgetTracker.charge, BudgetTracker.add, spendOf_append, Prod.snd_add]
    dsimp only
    rw [h.cost, hreports.cost_eq, add_assoc]

namespace GraphExecutor

variable {ω ρ : Type} {exec : GraphExecutor ρ} {world : World} {g : Graph}
  {intent : IntentEnvelope} {pre : List NodeId} {s t : RunState ρ} {id : NodeId} {node : Node}
  {output : NodeOutput} {x : Exit ρ} {status : TraceStatus} {result : RunResult}

/-- What a step that succeeds yields reports what was received in it. -/
theorem reports_runLog (m : Metering ω g) (hfound : g.nodes.lookup id = some node)
    (hran : exec.outputOf intent id node s = .ok output) :
    Reports output.tokens output.costUsd (m.receivedIn intent (exec.runLog intent id node s)) := by
  rw [outputOf] at hran
  rw [runLog]
  by_cases hshadow : (exec.shadow && node.isWriteClass) = true
  · rw [if_pos hshadow] at hran ⊢
    cases hran
    exact ⟨rfl, rfl⟩
  · rw [if_neg hshadow, ← m.node_eq hfound] at hran
    rw [if_neg hshadow, Metering.receivedIn_append, Metering.receivedIn_leafRuns,
      Metering.receivedIn_singleton]
    exact (m.node id).reports hran

/-- A step that fails was not shadowed. -/
theorem received_runLog_of_error (m : Metering ω g) {e : RuntimeError}
    (hran : exec.outputOf intent id node s = .error e) :
    m.receivedIn intent (exec.runLog intent id node s) = (m.node id).received intent := by
  rw [outputOf] at hran
  rw [runLog]
  by_cases hshadow : (exec.shadow && node.isWriteClass) = true
  · rw [if_pos hshadow] at hran
    cases hran
  · rw [if_neg hshadow, Metering.receivedIn_append, Metering.receivedIn_leafRuns,
      Metering.receivedIn_singleton]
    rfl

/-- The tracker of a state holds what was received on the way to it. -/
def BilledAt (m : Metering ω g) (exec : GraphExecutor ρ) (intent : IntentEnvelope)
    (s : RunState ρ) : Prop :=
  Billed exec.budget s.budget (m.receivedIn intent s.log)

/-- Events in which nothing is received leave the account as it is. -/
theorem BilledAt.quiet {m : Metering ω g} (h : BilledAt m exec intent s)
    (hbudget : t.budget = s.budget) {rest : List Event} (hlog : t.log = s.log ++ rest)
    (hrest : m.receivedIn intent rest = []) : BilledAt m exec intent t := by
  rw [BilledAt, hbudget, hlog, Metering.receivedIn_append, hrest, List.append_nil]
  exact h

/-- Once a step is charged, what was received in it is billed. -/
theorem BilledAt.charged {m : Metering ω g} (h : BilledAt m exec intent s)
    (hfound : g.nodes.lookup id = some node)
    (hran : exec.outputOf intent id node s = .ok output)
    (hbudget : t.budget = (chargeOf world id output s).2) {rest : List Event}
    (hlog : t.log = s.log ++ (exec.preLog intent id node s ++ exec.runLog intent id node s ++ rest))
    (hrest : m.receivedIn intent rest = []) : BilledAt m exec intent t := by
  have hreceived : m.receivedIn intent t.log =
      m.receivedIn intent s.log ++ m.receivedIn intent (exec.runLog intent id node s) := by
    rw [hlog, Metering.receivedIn_append, Metering.receivedIn_append, Metering.receivedIn_append,
      hrest, List.append_nil]
    rfl
  rw [BilledAt, hbudget, hreceived]
  exact Billed.charge h (reports_runLog m hfound hran) _

variable [TraceRecorder ρ]

/-- Closing the trace pays nobody. -/
theorem BilledAt.close {m : Metering ω g} (h : BilledAt m exec intent s) :
    BilledAt m exec intent (closeTrace intent status s result).state :=
  h.quiet closeTrace_budget closeTrace_log rfl

theorem billedAt_openedState (m : Metering ω g) (hstart : exec.budget.usedTokens ≤ u64Max) :
    BilledAt m exec intent (exec.openedState intent) := billed_nil hstart

/-- The log of an iteration, split where the node has run. -/
theorem stepLog_eq : exec.stepLog world intent id node output s =
    exec.preLog intent id node s ++ exec.runLog intent id node s ++
      (chargeLog world id output s ++ exec.postLog world intent id node output s ++
        recordLog intent id node output s) := by
  simp only [stepLog, List.append_assoc]

/-- Wherever a run gets, everything received is billed. -/
theorem Reaches.billedAt (m : Metering ω g) (hstart : exec.budget.usedTokens ≤ u64Max)
    (h : Reaches exec world g intent pre s) : BilledAt m exec intent s := by
  refine h.induction (I := fun _ s => BilledAt m exec intent s)
    (fun _ => billedAt_openedState m hstart) ?_
  intro pre s id node output _ hs hcont
  exact hs.charged hcont.found hcont.ran rfl (congrArg (s.log ++ ·) stepLog_eq) rfl

/-- The run comes to a step that `PreStep` lets through and that fails. -/
structure FailsAt (exec : GraphExecutor ρ) (world : World) (g : Graph) (intent : IntentEnvelope)
    (pre : List NodeId) (id : NodeId) (s : RunState ρ) (node : Node) (e : RuntimeError) :
    Prop where
  comes : ComesTo exec world g intent pre id s node
  allowed : (exec.preDecision intent node s).isAllowed = true
  ran : exec.outputOf intent id node s = .error e

/-- A run that fails at a step charges nothing for it, nor for the rollback. -/
theorem FailsAt.run_unbilled (m : Metering ω g) {e : RuntimeError}
    (h : FailsAt exec world g intent pre id s node e) :
    (exec.run world g intent).state.budget = s.budget ∧
      m.receivedIn intent (exec.run world g intent).state.log =
        m.receivedIn intent s.log ++ m.unbilled intent pre id := by
  obtain ⟨hto, hpre, hran⟩ := h
  obtain ⟨post, hsplit⟩ := hto.split
  have hreceived : m.receivedIn intent (exec.preLog intent id node s ++
      exec.runLog intent id node s ++ (g.rollbackOf intent pre).2.map .compensatorRun) =
        m.unbilled intent pre id := by
    rw [Metering.receivedIn_append, Metering.receivedIn_append, received_runLog_of_error m hran]
    rfl
  rw [run_eq_of_case (.stoppedAt hsplit hto.reach (.failed hto.found hpre hran))]
  rcases hroll : (g.rollbackOf intent pre).1 with e' | out
  · rw [failStep_stuck hto.reach hroll]
    refine ⟨rfl, ?_⟩
    dsimp only [stopped]
    rw [Metering.receivedIn_append, hreceived]
  · rw [failStep_rolledBack hto.reach hroll, closeTrace_budget, closeTrace_log]
    refine ⟨rfl, ?_⟩
    dsimp only [stopped]
    rw [Metering.receivedIn_append, Metering.receivedIn_append, hreceived]
    exact List.append_nil _

/-- A run fails at a step, or everything received in it is billed. -/
theorem run_billed (m : Metering ω g) (exec : GraphExecutor ρ) (world : World)
    (intent : IntentEnvelope) (hstart : exec.budget.usedTokens ≤ u64Max) :
    (∃ pre id s node e, FailsAt exec world g intent pre id s node e) ∨
      BilledAt m exec intent (exec.run world g intent).state := by
  have hopened : BilledAt m exec intent (exec.openedState intent) :=
    billedAt_openedState m hstart
  have hcase : RunCase exec world g intent (exec.run world g intent) := run_cases
  generalize exec.run world g intent = x at hcase ⊢
  cases hcase with
  | revoked hrev => exact Or.inr (billed_nil hstart)
  | unopened hrev hopen => exact Or.inr hopened
  | planDenied hrev hopen hplan => exact Or.inr hopened.close
  | planPaused hrev hopen hplan => exact Or.inr hopened.close
  | artifactDenied hreach hart =>
    exact Or.inr (.close ((hreach.billedAt m hstart).quiet rfl rfl rfl))
  | artifactPaused hreach hart =>
    exact Or.inr (.close ((hreach.billedAt m hstart).quiet rfl rfl rfl))
  | completed hreach hart =>
    exact Or.inr (.close ((hreach.billedAt m hstart).quiet rfl rfl rfl))
  | @stoppedAt pre post id s _ hsplit hreach hexit =>
    have hs := hreach.billedAt m hstart
    cases hexit with
    | missing hfound => exact Or.inr (hs.quiet rfl rfl rfl)
    | preDenied hfound hpre => exact Or.inr (.close (hs.quiet rfl rfl rfl))
    | prePaused hfound hpre => exact Or.inr (.close (hs.quiet rfl rfl rfl))
    | failed hfound hpre hran =>
      exact Or.inl ⟨pre, id, s, _, _, ⟨⟨⟨post, hsplit⟩, hreach, hfound⟩, hpre, hran⟩⟩
    | exhausted hfound hpre hran hcharged =>
      exact Or.inr (.close (hs.charged hfound hran rfl rfl rfl))
    | postDenied hfound hpre hran hcharged hpost =>
      exact Or.inr (.close (hs.charged hfound hran rfl
        (congrArg (s.log ++ ·) (List.append_assoc _ _ _)) rfl))
    | postPaused hfound hpre hran hcharged hpost =>
      exact Or.inr (.close (hs.charged hfound hran rfl
        (congrArg (s.log ++ ·) (List.append_assoc _ _ _)) rfl))
    | unrecorded hfound hpre hran hcharged hpost hrecorded =>
      exact Or.inr (hs.charged hfound hran rfl (congrArg (s.log ++ ·) stepLog_eq) rfl)

/-! ## The account of a run -/

/-- The tracker holds, beside what it started with, exactly what was received in the run. -/
def Accounted (m : Metering ω g) (exec : GraphExecutor ρ) (world : World)
    (intent : IntentEnvelope) : Prop :=
  ((exec.run world g intent).state.budget.usedTokens,
      (exec.run world g intent).state.budget.usedCost) =
    ((exec.budget.usedTokens, exec.budget.usedCost) : Spend) +
      spendOf (m.receivedIn intent (exec.run world g intent).state.log)

/-- When a step fails, nothing that was received in it or in the rollback after it has to be
paid. -/
def FailsFree (m : Metering ω g) (exec : GraphExecutor ρ) (world : World)
    (intent : IntentEnvelope) : Prop :=
  ∀ pre id s node e, FailsAt exec world g intent pre id s node e →
    spendOf (m.unbilled intent pre id) = 0

/-- The tokens received in the run fit the tracker's counter. -/
def Fits (m : Metering ω g) (exec : GraphExecutor ρ) (world : World)
    (intent : IntentEnvelope) : Prop :=
  exec.budget.usedTokens +
    (spendOf (m.receivedIn intent (exec.run world g intent).state.log)).1 ≤ u64Max

/-- The tracker's counter is a `u64`. -/
theorem run_usedTokens_le (m : Metering ω g) (exec : GraphExecutor ρ) (world : World)
    (intent : IntentEnvelope) (hstart : exec.budget.usedTokens ≤ u64Max) :
    (exec.run world g intent).state.budget.usedTokens ≤ u64Max := by
  obtain ⟨pre, id, s, node, e, hfails⟩ | hbilled := run_billed m exec world intent hstart
  · rw [(hfails.run_unbilled m).1, (hfails.comes.reach.billedAt m hstart).tokens]
    exact min_le_right _ _
  · rw [hbilled.tokens]
    exact min_le_right _ _

/-- **The account of a run.** The tracker holds exactly what the run received if, and only
if, no failing step and no rollback received anything to be paid, and the tokens fit the
counter. -/
theorem accounted_iff (m : Metering ω g) (exec : GraphExecutor ρ) (world : World)
    (intent : IntentEnvelope) (hstart : exec.budget.usedTokens ≤ u64Max)
    (hcost : exec.budget.usedCost.isFinite = true)
    (hfinite : ∀ resp ∈ m.receivedIn intent (exec.run world g intent).state.log,
      resp.costUsd.isFinite = true) :
    Accounted m exec world intent ↔
      FailsFree m exec world intent ∧ Fits m exec world intent := by
  refine ⟨fun h => ⟨?_, ?_⟩, ?_⟩
  · intro pre id s node e hfails
    have hs : BilledAt m exec intent s := hfails.comes.reach.billedAt m hstart
    obtain ⟨hbudget, hreceived⟩ := hfails.run_unbilled m
    rw [Accounted, hbudget, hreceived, spendOf_append] at h
    obtain ⟨htokens, hcosts⟩ := Prod.ext_iff.mp h
    dsimp only [Prod.fst_add, Prod.snd_add] at htokens hcosts
    refine Prod.ext ?_ ?_
    · rw [hs.tokens] at htokens
      change (spendOf (m.unbilled intent pre id)).1 = 0
      omega
    · rw [hs.cost, ← add_assoc] at hcosts
      refine F64.eq_zero_of_eq_add (F64.isFinite_add hcost ?_) hcosts
      refine isFinite_spendOf fun resp hresp => hfinite resp ?_
      rw [hreceived]
      exact List.mem_append_left _ hresp
  · have hle := run_usedTokens_le m exec world intent hstart
    have htokens := (Prod.ext_iff.mp h).1
    dsimp only [Prod.fst_add] at htokens
    rw [Fits, ← htokens]
    exact hle
  · rintro ⟨hfree, hfits⟩
    have hbilled : BilledAt m exec intent (exec.run world g intent).state := by
      obtain ⟨pre, id, s, node, e, hfails⟩ | hbilled := run_billed m exec world intent hstart
      · have hs : BilledAt m exec intent s := hfails.comes.reach.billedAt m hstart
        obtain ⟨hbudget, hreceived⟩ := hfails.run_unbilled m
        have hspend : spendOf (m.receivedIn intent s.log ++ m.unbilled intent pre id) =
            spendOf (m.receivedIn intent s.log) := by
          rw [spendOf_append, hfree pre id s node e hfails, add_zero]
        rw [BilledAt, hbudget, hreceived]
        refine ⟨?_, ?_⟩
        · rw [hspend]
          exact hs.tokens
        · rw [hspend]
          exact hs.cost
      · exact hbilled
    refine Prod.ext ?_ ?_
    · change (exec.run world g intent).state.budget.usedTokens = _
      rw [hbilled.tokens]
      exact min_eq_left hfits
    · exact hbilled.cost

/-! ## A tool that is down -/

/-- The stock agent with a tool that fails. -/
def downAgent : AgentNode ℕ :=
  (AgentNode.stockAgent "check_stock").withTools [AgentNode.stockTool]
    fun _ _ chats => (.error (.node "tool is down"), chats)

/-- The agent, before a node that does nothing. -/
def downGraph : ValidGraph :=
  Sample.pipeline (downAgent.toNode 0) (Sample.okNode Sample.nodeB .read)
    (Sample.okNode ⟨"undo-a"⟩ .write)

def downMetering : Metering ℕ downGraph.toGraph where
  node := fun id =>
    if id = Sample.nodeA then .agent downAgent 0
    else .free (.deterministic Sample.nodeB .read 0 fun _ _ => .ok .null)
  compensator := fun _ => .free (.deterministic ⟨"undo-a"⟩ .write 0 fun _ _ => .ok .null)
  node_eq := by
    intro id n h
    obtain ⟨rfl, rfl⟩ | ⟨rfl, rfl⟩ := Sample.pipeline_found h
    · rw [if_pos rfl, MeteredNode.toNode]
    · rw [if_neg (by decide), MeteredNode.toNode_deterministic]
      rfl
  compensator_eq := by
    intro id n h
    have hentries : downGraph.toGraph.compensators.entries =
      [⟨Sample.nodeA, Sample.okNode ⟨"undo-a"⟩ .write⟩] := rfl
    have hmem := AList.mem_lookup_iff.mp h
    rw [hentries, List.mem_singleton] at hmem
    cases hmem
    rw [MeteredNode.toNode_deterministic]
    rfl

theorem downRun_finite :
    ∀ resp ∈ downMetering.receivedIn Sample.intent
      ((Sample.executor []).run Sample.world downGraph.toGraph Sample.intent).state.log,
        resp.costUsd.isFinite = true := by
  decide +kernel

theorem accounted_iff_downRun :
    Accounted downMetering (Sample.executor []) Sample.world Sample.intent ↔
      FailsFree downMetering (Sample.executor []) Sample.world Sample.intent ∧
        Fits downMetering (Sample.executor []) Sample.world Sample.intent :=
  accounted_iff downMetering (Sample.executor []) Sample.world Sample.intent (by decide) rfl
    downRun_finite

/-- A chat of 15 tokens succeeds, the tool it asks for fails, and the tracker still stands
at zero. -/
theorem downRun_not_accounted :
    Fits downMetering (Sample.executor []) Sample.world Sample.intent ∧
      ¬ Accounted downMetering (Sample.executor []) Sample.world Sample.intent := by
  refine ⟨?_, fun h => ?_⟩
  · rw [Fits]
    decide +kernel
  · have htokens := (Prod.ext_iff.mp h).1
    exact absurd htokens (by decide +kernel)

end GraphExecutor

end Aaf
