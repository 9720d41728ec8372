import Aaf.ExecutorRun

/-!
# The trace a run leaves behind

With the crate's own `Recorder`: what is in the trace when a run returns, and
with which status.

A step is recorded at the end of its iteration, after the charge and `PostStep`,
so the trace holds the steps that got that far (`traceComplete_iff`). The trace is
closed on every way out except one: a compensator that fails returns first
(`traceClosed_iff`).
-/

namespace Aaf

/-! ## Steps that yielded an output -/

/-- The nodes that ran and succeeded, or were shadowed, with their outputs, in
order. -/
def yields (log : List Event) : List (NodeId × NodeOutput) :=
  log.filterMap fun
    | .nodeRun id _ (.ok o) => some (id, o)
    | .shadowed id o => some (id, o)
    | _ => none

theorem yields_append (l l' : List Event) : yields (l ++ l') = yields l ++ yields l' :=
  List.filterMap_append

/-- The trace records these outputs: one step each, in order, numbered from 1, with
their tokens and their total cost. -/
structure Records (trace : ExecutionTrace) (outputs : List (NodeId × NodeOutput)) : Prop where
  nodes : trace.steps.map (·.nodeId) = outputs.map Prod.fst
  numbers : trace.steps.map (·.step) = List.range' 1 outputs.length
  tokens : trace.steps.map (fun t => t.tokensIn + t.tokensOut) = outputs.map (·.2.tokens)
  cost : trace.totalCostUsd = (outputs.map (·.2.costUsd)).sum

theorem records_open (id : TraceId) (intent : IntentId) :
    Records (ExecutionTrace.open id intent) [] := ⟨rfl, rfl, rfl, rfl⟩

theorem Records.length {trace : ExecutionTrace} {outputs : List (NodeId × NodeOutput)}
    (h : Records trace outputs) : trace.steps.length = outputs.length := by
  have hmap := congrArg List.length h.nodes
  simpa using hmap

/-- Closing a trace changes none of its steps. -/
theorem Records.close {trace : ExecutionTrace} {outputs : List (NodeId × NodeOutput)}
    (h : Records trace outputs) (status : TraceStatus) : Records (trace.close status) outputs :=
  ⟨h.nodes, h.numbers, h.tokens, h.cost⟩

/-- Recording the next step. -/
theorem Records.record {trace : ExecutionTrace} {outputs : List (NodeId × NodeOutput)}
    (h : Records trace outputs) (intent : IntentEnvelope) (id : NodeId) (node : Node)
    (output : NodeOutput) :
    Records
      (trace.record (GraphExecutor.traceStepOf intent id node output (outputs.length + 1)))
      (outputs ++ [(id, output)]) := by
  refine ⟨?_, ?_, ?_, ?_⟩
  · simp only [ExecutionTrace.record, List.map_append, h.nodes]
    rfl
  · simp only [ExecutionTrace.record, List.map_append, h.numbers, List.length_append,
      List.length_singleton, List.range'_concat]
    simp [GraphExecutor.traceStepOf, GraphExecutor.observationOf, stepOf, Nat.add_comm]
  · have hsplit : output.tokens / 2 + (output.tokens - output.tokens / 2) = output.tokens := by
      omega
    simp only [ExecutionTrace.record, List.map_append, h.tokens]
    simp [GraphExecutor.traceStepOf, stepOf, hsplit]
  · simp only [ExecutionTrace.record, List.map_append, List.sum_append, h.cost, List.map_cons,
      List.map_nil, List.sum_cons, List.sum_nil, add_zero]
    rfl

namespace GraphExecutor

/-! ## The recorder after a run -/

section Yields

variable {ρ : Type} (exec : GraphExecutor ρ) (world : World) (intent : IntentEnvelope)
  (id : NodeId) (node : Node) (output : NodeOutput) (s : RunState ρ)

@[simp] theorem yields_preLog : yields (exec.preLog intent id node s) = [] := rfl

@[simp] theorem yields_chargeLog : yields (chargeLog world id output s) = [] := rfl

@[simp] theorem yields_postLog : yields (exec.postLog world intent id node output s) = [] := rfl

@[simp] theorem yields_closed (status : TraceStatus) (r : Except RecorderError Unit) :
    yields [.closed status r] = [] := rfl

@[simp] theorem yields_compensators (runs : List CompensatorRun) :
    yields (runs.map .compensatorRun) = [] := by
  simp [yields, List.filterMap_map]

theorem yields_leaves (prior : Outputs) (leaves : List LeafNode) :
    yields (leaves.map (.leafRun id prior)) = [] := by
  simp [yields, List.filterMap_map]

variable {exec intent id node output s}

theorem yields_of_ok (h : exec.outputOf intent id node s = .ok output) :
    yields (exec.runLog intent id node s) = [(id, output)] := by
  rw [outputOf] at h
  rw [runLog]
  by_cases hs : (exec.shadow && node.isWriteClass) = true
  · rw [if_pos hs] at h ⊢
    cases h
    rfl
  · rw [if_neg hs] at h ⊢
    rw [yields_append, yields_leaves, h]
    rfl

theorem yields_of_error {e : RuntimeError} (h : exec.outputOf intent id node s = .error e) :
    yields (exec.runLog intent id node s) = [] := by
  rw [outputOf] at h
  rw [runLog]
  by_cases hs : (exec.shadow && node.isWriteClass) = true
  · rw [if_pos hs] at h
    cases h
  · rw [if_neg hs] at h ⊢
    rw [yields_append, yields_leaves, h]
    rfl

end Yields

variable {σ : Type} [TraceStore σ] {exec : GraphExecutor (Recorder σ)} {world : World}
  {intent : IntentEnvelope} {pre : List NodeId} {s : RunState (Recorder σ)} {id : NodeId}
  {node : Node} {output : NodeOutput}

/-- The recorder holds the intent's trace, with this status and these outputs. -/
def Holds (intent : IntentEnvelope) (r : Recorder σ) (status : TraceStatus)
    (outputs : List (NodeId × NodeOutput)) : Prop :=
  ∃ trace, r.traces.lookup intent.traceId = some trace ∧ trace.status = status ∧
    Records trace outputs

theorem Holds.close {r : Recorder σ} {status : TraceStatus} {outputs : List (NodeId × NodeOutput)}
    (h : Holds intent r status outputs) (status' : TraceStatus) :
    Holds intent (TraceRecorder.close intent.traceId status' r).2 status' outputs := by
  obtain ⟨trace, hlookup, -, hrec⟩ := h
  exact ⟨trace.close status', Recorder.close_traces hlookup, rfl, hrec.close status'⟩

/-- What `get` answers then. -/
theorem Holds.get {r : Recorder σ} {status : TraceStatus} {outputs : List (NodeId × NodeOutput)}
    (h : Holds intent r status outputs) :
    ∃ trace, TraceRecorder.get intent.traceId r = .ok trace ∧ trace.status = status ∧
      Records trace outputs := by
  obtain ⟨trace, hlookup, hrest⟩ := h
  refine ⟨trace, ?_, hrest⟩
  change r.get intent.traceId = .ok trace
  rw [Recorder.get, hlookup]

/-- Opening the trace. -/
theorem holds_opened (h : (exec.openOf intent).1 = .ok ()) :
    Holds intent (exec.openedState intent).recorder .running [] :=
  ⟨_, Recorder.openTrace_ok h, rfl, records_open _ _⟩

variable {g : Graph}

/-- While the loop runs the trace is open and has the steps so far. -/
theorem Reaches.holds (h : Reaches exec world g intent pre s) :
    Holds intent s.recorder .running (yields s.log) ∧ (yields s.log).length = pre.length := by
  refine h.induction (I := fun pre s => Holds intent s.recorder .running (yields s.log) ∧
    (yields s.log).length = pre.length) ?_ ?_
  · intro h₀
    obtain ⟨-, hopen, -, -⟩ := reaches_nil_iff.mp h₀
    exact ⟨holds_opened hopen, rfl⟩
  · rintro pre s id node output hreach ⟨⟨trace, hlookup, hrunning, hrec⟩, hlen⟩ hcont
    have hyields : yields (s.log ++ exec.stepLog world intent id node output s) =
        yields s.log ++ [(id, output)] := by
      simp only [stepLog, yields_append, yields_preLog, yields_of_ok hcont.ran, yields_chargeLog,
        yields_postLog, List.nil_append, List.append_nil]
      rfl
    have hstep : s.step + 1 = (yields s.log).length + 1 := by
      rw [hreach.bookkeeping.step, hlen]
    have hnew : (nextState exec world g intent s id node output).recorder.traces.lookup
        intent.traceId = some (trace.record (traceStepOf intent id node output (s.step + 1))) :=
      (Recorder.recordStep_ok hlookup hcont.recorded).1
    refine ⟨⟨_, hnew, hrunning, ?_⟩, ?_⟩
    · rw [nextState, hyields, hstep]
      exact hrec.record intent id node output
    · rw [nextState, hyields, List.length_append, List.length_append, hlen]
      rfl

/-! ## How a run leaves its trace -/

/-- The trace status that goes with an outcome. -/
def traceStatusOf : RunResult → TraceStatus
  | .ok (.completed _ _) => .completed
  | .ok (.partialResult _ _ _) => .partialResult
  | .ok (.pendingApproval _ _ _) => .partialResult
  | .ok (.rolledBack _ _ _) => .failed
  | .error _ => .failed

/-- A node ran, and its iteration ended before it was recorded. -/
structure Unobserved (exec : GraphExecutor (Recorder σ)) (world : World) (g : Graph)
    (intent : IntentEnvelope) (pre : List NodeId) (id : NodeId) (s : RunState (Recorder σ))
    (node : Node) (output : NodeOutput) : Prop where
  comes : ComesTo exec world g intent pre id s node
  allowed : (exec.preDecision intent node s).isAllowed = true
  ran : exec.outputOf intent id node s = .ok output
  lost : ¬ ((chargeOf world id output s).1 = .ok () ∧
    (exec.postDecision world intent id node output s).isAllowed = true)

/-- A node failed, and so did a compensator of the rollback it caused. -/
structure Stuck (exec : GraphExecutor (Recorder σ)) (world : World) (g : Graph)
    (intent : IntentEnvelope) (pre : List NodeId) (id : NodeId) (s : RunState (Recorder σ))
    (node : Node) (e e' : RuntimeError) : Prop where
  comes : ComesTo exec world g intent pre id s node
  allowed : (exec.preDecision intent node s).isAllowed = true
  ran : exec.outputOf intent id node s = .error e
  rollback : (g.rollbackOf intent pre).1 = .error e'

/-- The ways a run with a working recorder leaves its trace. -/
inductive Ending (exec : GraphExecutor (Recorder σ)) (world : World) (g : Graph)
    (intent : IntentEnvelope) : Exit (Recorder σ) → Prop where
  /-- closed, with every output recorded -/
  | observed {t : RunState (Recorder σ)} (result : RunResult)
    (holds : Holds intent t.recorder .running (yields t.log)) :
    Ending exec world g intent (closeTrace intent (traceStatusOf result) t result)
  /-- closed, without the last output -/
  | unobserved {pre : List NodeId} {id : NodeId} {s t : RunState (Recorder σ)} {node : Node}
    {output : NodeOutput} (result : RunResult)
    (last : Unobserved exec world g intent pre id s node output)
    (holds : Holds intent t.recorder .running (yields s.log))
    (log : yields t.log = yields s.log ++ [(id, output)]) :
    Ending exec world g intent (closeTrace intent (traceStatusOf result) t result)
  /-- not closed -/
  | stuck {pre : List NodeId} {id : NodeId} {s t : RunState (Recorder σ)} {node : Node}
    {e e' : RuntimeError} (last : Stuck exec world g intent pre id s node e e')
    (holds : Holds intent t.recorder .running (yields t.log)) :
    Ending exec world g intent ⟨t, .error e'⟩

section Endings

variable {x : Exit (Recorder σ)}

/-- An iteration that ends after its node ran loses the output, whatever it logs
after the node. -/
theorem Unobserved.ending {block : List Event}
    (h : Unobserved exec world g intent pre id s node output) (hblock : yields block = [])
    (result : RunResult) :
    Ending exec world g intent (closeTrace intent (traceStatusOf result)
      (spent world s id output
        (exec.preLog intent id node s ++ exec.runLog intent id node s ++ block)) result) := by
  refine .unobserved result h h.comes.reach.holds.1 ?_
  simp only [spent, yields_append, yields_preLog, yields_of_ok h.ran, hblock, List.nil_append,
    List.append_nil]

/-- A node that fails leaves the trace as it was, and the rollback decides whether
it is closed. -/
theorem ComesTo.ending_failed {e : RuntimeError}
    (hto : ComesTo exec world g intent pre id s node)
    (hpre : (exec.preDecision intent node s).isAllowed = true)
    (hran : exec.outputOf intent id node s = .error e) :
    Ending exec world g intent (failStep intent
      (stopped s (exec.preLog intent id node s ++ exec.runLog intent id node s)) e) := by
  have hlog : yields (stopped s (exec.preLog intent id node s ++ exec.runLog intent id node s ++
      (g.rollbackOf intent pre).2.map .compensatorRun)).log = yields s.log := by
    simp only [stopped, yields_append, yields_preLog, yields_of_error hran, yields_compensators,
      List.append_nil]
  have hholds := hlog.symm ▸ hto.reach.holds.1
  rcases hroll : (g.rollbackOf intent pre).1 with e' | out
  · rw [failStep_stuck hto.reach hroll]
    exact .stuck ⟨hto, hpre, hran, hroll⟩ hholds
  · rw [failStep_rolledBack hto.reach hroll]
    -- the outcome is the node's error or `RolledBack`, and `Failed` goes with both
    by_cases hnil : pre.filterMap g.compensatorOf = []
    · rw [if_pos hnil]
      exact .observed (.error e) hholds
    · rw [if_neg hnil]
      exact .observed (.ok (.rolledBack _ _ _)) hholds

/-- **Every run of a validated graph, once its trace is open, ends in one of these
ways.** -/
theorem RunCase.ending {g : ValidGraph} (h : RunCase exec world g.toGraph intent x)
    (hopened : Event.opened (.ok ()) ∈ x.state.log) (hok : RecorderOk x.state.log) :
    Ending exec world g.toGraph intent x := by
  have hartifact : ∀ {s : RunState (Recorder σ)}, Reaches exec world g.toGraph intent g.order s →
      Holds intent (exec.artifactState intent s).recorder .running
        (yields (exec.artifactState intent s).log) := by
    intro s hreach
    rw [artifactState, yields_append]
    exact (List.append_nil (yields s.log)).symm ▸ hreach.holds.1
  cases h with
  | revoked hrev => exact absurd hopened List.not_mem_nil
  | unopened hrev hopen =>
    have hbad := hok _ (List.mem_cons_of_mem _ (List.mem_singleton.mpr rfl))
    rw [Event.recorderOk, hopen] at hbad
    cases hbad
  | planDenied hrev hopen hplan => exact .observed (.error _) (holds_opened hopen)
  | planPaused hrev hopen hplan =>
    exact .observed (.ok (.pendingApproval _ _ _)) (holds_opened hopen)
  | @stoppedAt pre post id s x hsplit hreach hexit =>
    have hto : ∀ {node : Node}, g.nodes.lookup id = some node →
        ComesTo exec world g.toGraph intent pre id s node :=
      fun hfound => ⟨⟨post, hsplit⟩, hreach, hfound⟩
    have hbefore : ∀ node, Holds intent (stopped s (exec.preLog intent id node s)).recorder .running
        (yields (stopped s (exec.preLog intent id node s)).log) := by
      intro node
      rw [stopped, yields_append, yields_preLog, List.append_nil]
      exact hreach.holds.1
    cases hexit with
    | missing hfound => exact absurd hfound (g.lookup_ne_none hsplit)
    | @preDenied node vs hfound hdeny => exact .observed (.error _) (hbefore node)
    | @prePaused node vs hfound hpause =>
      exact .observed (.ok (.pendingApproval _ _ _)) (hbefore node)
    | failed hfound hpre hran => exact (hto hfound).ending_failed hpre hran
    | exhausted hfound hpre hran hcharged =>
      have hlost : Unobserved exec world g.toGraph intent pre id s _ _ :=
        ⟨hto hfound, hpre, hran, fun h => by rw [hcharged] at h; cases h.1⟩
      exact hlost.ending (yields_chargeLog world id _ s) (.ok (.partialResult _ _ _))
    | postDenied hfound hpre hran hcharged hdeny =>
      have hlost : Unobserved exec world g.toGraph intent pre id s _ _ :=
        ⟨hto hfound, hpre, hran, fun h => by rw [hdeny] at h; cases h.2⟩
      rw [List.append_assoc (exec.preLog intent id _ s ++ _)]
      exact hlost.ending rfl (.error _)
    | postPaused hfound hpre hran hcharged hpause =>
      have hlost : Unobserved exec world g.toGraph intent pre id s _ _ :=
        ⟨hto hfound, hpre, hran, fun h => by rw [hpause] at h; cases h.2⟩
      rw [List.append_assoc (exec.preLog intent id _ s ++ _)]
      exact hlost.ending rfl (.ok (.pendingApproval _ _ _))
    | unrecorded hfound hpre hran hcharged hpost hrecorded =>
      have hbad := hok _ (List.mem_append_right _ (List.mem_append_right _
        (List.mem_singleton.mpr rfl)))
      rw [Event.recorderOk, hrecorded] at hbad
      cases hbad
  | artifactDenied hreach hart => exact .observed (.error _) (hartifact hreach)
  | artifactPaused hreach hart =>
    exact .observed (.ok (.pendingApproval _ _ _)) (hartifact hreach)
  | completed hreach hart => exact .observed (.ok (.completed _ _)) (hartifact hreach)

/-- A trace closed by the run holds what was recorded, under the status of the
outcome. -/
theorem holds_closeTrace {t : RunState (Recorder σ)} {result : RunResult}
    {outputs : List (NodeId × NodeOutput)} (h : Holds intent t.recorder .running outputs)
    (hok : RecorderOk (closeTrace intent (traceStatusOf result) t result).state.log) :
    Holds intent (closeTrace intent (traceStatusOf result) t result).state.recorder
      (traceStatusOf (closeTrace intent (traceStatusOf result) t result).result) outputs := by
  rw [closeTrace_log, recorderOk_append] at hok
  have hclosed := hok.2 _ (List.mem_singleton.mpr rfl)
  rw [closeTrace_result hclosed, closeTrace_recorder]
  exact h.close _

/-- A trace holds one record only. -/
theorem Holds.unique {r : Recorder σ} {status : TraceStatus}
    {outputs : List (NodeId × NodeOutput)} {trace : ExecutionTrace}
    (h : Holds intent r status outputs) (hget : TraceRecorder.get intent.traceId r = .ok trace) :
    trace.status = status ∧ Records trace outputs := by
  obtain ⟨trace', hget', hrest⟩ := h.get
  rw [hget] at hget'
  cases hget'
  exact hrest

end Endings

/-! ## Closure -/

section Closure

/-- The run's trace is closed, with the status of its outcome. -/
def TraceClosed (intent : IntentEnvelope) (x : Exit (Recorder σ)) : Prop :=
  ∃ trace, TraceRecorder.get intent.traceId x.state.recorder = .ok trace ∧
    trace.status ≠ .running ∧ trace.status = traceStatusOf x.result

theorem traceStatusOf_ne_running (result : RunResult) : traceStatusOf result ≠ .running := by
  rcases result with e | (_ | _ | _ | _) <;> exact nofun

theorem Ending.traceClosed {x : Exit (Recorder σ)} (h : Ending exec world g intent x)
    (hok : RecorderOk x.state.log)
    (hroll : ∀ pre id s node e e', ¬ Stuck exec world g intent pre id s node e e') :
    TraceClosed intent x := by
  have hclosed : ∀ {t : RunState (Recorder σ)} {result : RunResult}
      {outputs : List (NodeId × NodeOutput)},
      RecorderOk (closeTrace intent (traceStatusOf result) t result).state.log →
      Holds intent t.recorder .running outputs →
      TraceClosed intent (closeTrace intent (traceStatusOf result) t result) := by
    intro t result outputs hok h
    obtain ⟨trace, hget, hstatus, -⟩ := (holds_closeTrace h hok).get
    exact ⟨trace, hget, hstatus ▸ traceStatusOf_ne_running _, hstatus⟩
  cases h with
  | observed result hholds => exact hclosed hok hholds
  | unobserved result hlast hholds hlog => exact hclosed hok hholds
  | stuck hlast hholds => exact absurd hlast (hroll _ _ _ _ _ _)

/-- A rollback that gets stuck leaves the trace running. -/
theorem Stuck.not_traceClosed {e e' : RuntimeError}
    (h : Stuck exec world g intent pre id s node e e') :
    ¬ TraceClosed intent (exec.run world g intent) := by
  obtain ⟨post, hsplit⟩ := h.comes.split
  have hrun := run_eq_of_case (.stoppedAt hsplit h.comes.reach
    (.failed h.comes.found h.allowed h.ran))
  rw [failStep_stuck h.comes.reach h.rollback] at hrun
  rintro ⟨trace, hget, hne, -⟩
  rw [hrun] at hget
  exact hne (h.comes.reach.holds.1.unique hget).1

/-- **Trace closure, exactly.** A run that opened its trace closes it, with the
status of its outcome, if and only if no rollback it starts has a compensator that
fails. -/
theorem traceClosed_iff (exec : GraphExecutor (Recorder σ)) (world : World) (g : ValidGraph)
    (intent : IntentEnvelope)
    (hopened : Event.opened (.ok ()) ∈ (exec.run world g.toGraph intent).state.log)
    (hok : RecorderOk (exec.run world g.toGraph intent).state.log) :
    TraceClosed intent (exec.run world g.toGraph intent) ↔
      ∀ pre id s node e, ComesTo exec world g.toGraph intent pre id s node →
        (exec.preDecision intent node s).isAllowed = true →
        exec.outputOf intent id node s = .error e →
        ∃ out, (g.rollbackOf intent pre).1 = .ok out := by
  refine ⟨fun h pre id s node e hto hpre hran => ?_, fun h => ?_⟩
  · rcases hroll : (g.rollbackOf intent pre).1 with e' | out
    · exact absurd h (Stuck.not_traceClosed ⟨hto, hpre, hran, hroll⟩)
    · exact ⟨out, rfl⟩
  · refine (run_cases.ending hopened hok).traceClosed hok ?_
    intro pre id s node e e' hstuck
    obtain ⟨out, hroll⟩ := h pre id s node e hstuck.comes hstuck.allowed hstuck.ran
    rw [hstuck.rollback] at hroll
    cases hroll

/-- A write with a compensator that works, then a step that fails. -/
def undoneWrite : ValidGraph :=
  Sample.pipeline (Sample.okNode Sample.nodeA .write) (Sample.failingNode Sample.nodeB .read)
    (Sample.okNode Sample.nodeA .write)

/-- The same, with a compensator that fails. -/
def stuckWrite : ValidGraph :=
  Sample.pipeline (Sample.okNode Sample.nodeA .write) (Sample.failingNode Sample.nodeB .read)
    (Sample.failingNode Sample.nodeA .write)

/-- The trace is opened. -/
def opens (log : List Event) : Bool :=
  log.any fun
    | .opened (.ok ()) => true
    | _ => false

theorem mem_of_opens {log : List Event} (h : opens log = true) : Event.opened (.ok ()) ∈ log := by
  obtain ⟨ev, hev, hopen⟩ := List.any_eq_true.mp h
  split at hopen
  · exact hev
  · cases hopen

theorem traceClosed_iff_undoneWrite :
    TraceClosed Sample.intent
        ((Sample.executor []).run Sample.world undoneWrite.toGraph Sample.intent) ↔
      ∀ pre id s node e,
        ComesTo (Sample.executor []) Sample.world undoneWrite.toGraph Sample.intent pre id s node →
        ((Sample.executor []).preDecision Sample.intent node s).isAllowed = true →
        (Sample.executor []).outputOf Sample.intent id node s = .error e →
        ∃ out, (undoneWrite.rollbackOf Sample.intent pre).1 = .ok out :=
  traceClosed_iff (Sample.executor []) Sample.world undoneWrite Sample.intent
    (mem_of_opens (by decide +kernel)) run_cases.recorderOk

/-- The compensator's error is returned and the trace is left running. -/
theorem stuckWrite_not_closed :
    Event.opened (.ok ()) ∈
        ((Sample.executor []).run Sample.world stuckWrite.toGraph Sample.intent).state.log ∧
      RecorderOk
        ((Sample.executor []).run Sample.world stuckWrite.toGraph Sample.intent).state.log ∧
      ¬ TraceClosed Sample.intent
        ((Sample.executor []).run Sample.world stuckWrite.toGraph Sample.intent) := by
  refine ⟨mem_of_opens (by decide +kernel), run_cases.recorderOk, ?_⟩
  have hget : (TraceRecorder.get Sample.intent.traceId ((Sample.executor []).run Sample.world
      stuckWrite.toGraph Sample.intent).state.recorder).toOption.map (·.status) =
        some .running := by
    decide +kernel
  rintro ⟨trace, htrace, hne, -⟩
  rw [htrace] at hget
  exact hne (Option.some.inj hget)

end Closure

/-! ## Completeness -/

section Completeness

/-- The run's trace has one step for every node that yielded an output. -/
def TraceComplete (intent : IntentEnvelope) (x : Exit (Recorder σ)) : Prop :=
  ∃ trace, TraceRecorder.get intent.traceId x.state.recorder = .ok trace ∧
    Records trace (yields x.state.log)

theorem yields_closeTrace {t : RunState (Recorder σ)} {status : TraceStatus} {result : RunResult} :
    yields (closeTrace intent status t result).state.log = yields t.log := by
  rw [closeTrace_log, yields_append, yields_closed, List.append_nil]

theorem Ending.traceComplete {x : Exit (Recorder σ)} (h : Ending exec world g intent x)
    (hok : RecorderOk x.state.log)
    (hall : ∀ pre id s node output, ¬ Unobserved exec world g intent pre id s node output) :
    TraceComplete intent x := by
  cases h with
  | observed result hholds =>
    obtain ⟨trace, hget, -, hrec⟩ := (holds_closeTrace hholds hok).get
    refine ⟨trace, hget, ?_⟩
    rw [yields_closeTrace]
    exact hrec
  | unobserved result hlast hholds hlog => exact absurd hlast (hall _ _ _ _ _)
  | stuck hlast hholds =>
    obtain ⟨trace, hget, -, hrec⟩ := hholds.get
    exact ⟨trace, hget, hrec⟩

/-- An output that was lost is missing from the trace. -/
theorem Unobserved.not_traceComplete
    (h : Unobserved exec world g intent pre id s node output) :
    ¬ TraceComplete intent (exec.run world g intent) := by
  obtain ⟨post, hsplit⟩ := h.comes.split
  -- the run ends here, with the trace of the steps before and one more output
  have hmissing : ∀ {block : List Event} {status : TraceStatus} {result : RunResult},
      RunCase exec world g intent (closeTrace intent status (spent world s id output
        (exec.preLog intent id node s ++ exec.runLog intent id node s ++ block)) result) →
      yields block = [] → ¬ TraceComplete intent (exec.run world g intent) := by
    intro block status result hcase hblock
    rw [run_eq_of_case hcase]
    rintro ⟨trace, hget, hrec⟩
    rw [closeTrace_recorder] at hget
    have hlen := ((h.comes.reach.holds.1.close status).unique hget).2.length
    have hlen' := hrec.length
    rw [yields_closeTrace, spent] at hlen'
    simp only [yields_append, yields_preLog, yields_of_ok h.ran, hblock, List.length_append,
      List.length_singleton, List.length_nil] at hlen'
    omega
  rcases hcharged : (chargeOf world id output s).1 with e | _
  · exact hmissing (.stoppedAt hsplit h.comes.reach
      (.exhausted h.comes.found h.allowed h.ran hcharged)) rfl
  · have hlost := h.lost
    rw [hcharged] at hlost
    rcases hpost : exec.postDecision world intent id node output s with _ | vs | vs | vs
    · exact absurd ⟨rfl, by rw [hpost]; rfl⟩ hlost
    · exact absurd ⟨rfl, by rw [hpost]; rfl⟩ hlost
    · have hcase := RunCase.stoppedAt hsplit h.comes.reach
        (.postPaused h.comes.found h.allowed h.ran hcharged hpost)
      rw [List.append_assoc (exec.preLog intent id _ s ++ _)] at hcase
      exact hmissing hcase rfl
    · have hcase := RunCase.stoppedAt hsplit h.comes.reach
        (.postDenied h.comes.found h.allowed h.ran hcharged hpost)
      rw [List.append_assoc (exec.preLog intent id _ s ++ _)] at hcase
      exact hmissing hcase rfl

/-- **No unobserved step, exactly.** The trace of a run has every output of the run
if and only if every node that yields one is within budget and passes `PostStep`. -/
theorem traceComplete_iff (exec : GraphExecutor (Recorder σ)) (world : World) (g : ValidGraph)
    (intent : IntentEnvelope)
    (hopened : Event.opened (.ok ()) ∈ (exec.run world g.toGraph intent).state.log)
    (hok : RecorderOk (exec.run world g.toGraph intent).state.log) :
    TraceComplete intent (exec.run world g.toGraph intent) ↔
      ∀ pre id s node output, ComesTo exec world g.toGraph intent pre id s node →
        (exec.preDecision intent node s).isAllowed = true →
        exec.outputOf intent id node s = .ok output →
        (chargeOf world id output s).1 = .ok () ∧
          (exec.postDecision world intent id node output s).isAllowed = true := by
  refine ⟨fun h pre id s node output hto hpre hran => ?_, fun h => ?_⟩
  · by_contra hlost
    exact Unobserved.not_traceComplete ⟨hto, hpre, hran, hlost⟩ h
  · refine (run_cases.ending hopened hok).traceComplete hok ?_
    intro pre id s node output hlost
    exact hlost.lost (h pre id s node output hlost.comes hlost.allowed hlost.ran)

theorem traceComplete_iff_undoneWrite :
    TraceComplete Sample.intent
        ((Sample.executor []).run Sample.world undoneWrite.toGraph Sample.intent) ↔
      ∀ pre id s node output,
        ComesTo (Sample.executor []) Sample.world undoneWrite.toGraph Sample.intent pre id s node →
        ((Sample.executor []).preDecision Sample.intent node s).isAllowed = true →
        (Sample.executor []).outputOf Sample.intent id node s = .ok output →
        (chargeOf Sample.world id output s).1 = .ok () ∧
          ((Sample.executor []).postDecision Sample.world Sample.intent id node output
            s).isAllowed = true :=
  traceComplete_iff (Sample.executor []) Sample.world undoneWrite Sample.intent
    (mem_of_opens (by decide +kernel)) run_cases.recorderOk

/-- Clocks by which every node takes longer than the whole budget. -/
def slowWorld : World := ⟨fun _ => 2000, fun _ => "null"⟩

/-- The step that exhausts the budget has run, and is not in the trace. -/
theorem overdue_not_complete :
    Event.opened (.ok ()) ∈
        ((Sample.executor []).run slowWorld undoneWrite.toGraph Sample.intent).state.log ∧
      RecorderOk
        ((Sample.executor []).run slowWorld undoneWrite.toGraph Sample.intent).state.log ∧
      ¬ TraceComplete Sample.intent
        ((Sample.executor []).run slowWorld undoneWrite.toGraph Sample.intent) := by
  refine ⟨mem_of_opens (by decide +kernel), run_cases.recorderOk, ?_⟩
  have hsteps : (TraceRecorder.get Sample.intent.traceId ((Sample.executor []).run slowWorld
      undoneWrite.toGraph Sample.intent).state.recorder).toOption.map (·.steps.length) =
        some 0 := by
    decide +kernel
  have hran : (yields ((Sample.executor []).run slowWorld undoneWrite.toGraph
      Sample.intent).state.log).length = 1 := by
    decide +kernel
  rintro ⟨trace, htrace, hrec⟩
  rw [htrace] at hsteps
  have hnone : trace.steps.length = 0 := Option.some.inj hsteps
  have hlen := hrec.length
  omega

end Completeness

/-! ## Other traces -/

section Others

variable {other : TraceId} {x : Exit (Recorder σ)}

theorem closeTrace_lookup_ne {t : RunState (Recorder σ)} {status : TraceStatus} {result : RunResult}
    (h : other ≠ intent.traceId) :
    (closeTrace intent status t result).state.recorder.traces.lookup other =
      t.recorder.traces.lookup other := by
  rw [closeTrace_recorder]
  exact Recorder.close_lookup_ne status t.recorder h

theorem openedState_lookup_ne (h : other ≠ intent.traceId) :
    (exec.openedState intent).recorder.traces.lookup other =
      exec.recorder.traces.lookup other :=
  Recorder.openTrace_lookup_ne intent.intentId exec.recorder h

theorem Reaches.lookup_ne (hreach : Reaches exec world g intent pre s)
    (h : other ≠ intent.traceId) :
    s.recorder.traces.lookup other = exec.recorder.traces.lookup other := by
  refine hreach.induction
    (I := fun _ s => s.recorder.traces.lookup other = exec.recorder.traces.lookup other) ?_ ?_
  · exact fun _ => openedState_lookup_ne h
  · intro pre s id node output _ ih _
    rw [← ih]
    exact Recorder.recordStep_lookup_ne (traceStepOf intent id node output (s.step + 1)) s.recorder h

theorem StepExit.lookup_ne (hreach : Reaches exec world g intent pre s)
    (hexit : StepExit exec world g intent s id x) (h : other ≠ intent.traceId) :
    x.state.recorder.traces.lookup other = s.recorder.traces.lookup other := by
  cases hexit with
  | missing hfound => rfl
  | failed hfound hpre hran =>
    rcases hroll : (g.rollbackOf intent pre).1 with e' | out
    · rw [failStep_stuck hreach hroll]
      rfl
    · rw [failStep_rolledBack hreach hroll]
      exact closeTrace_lookup_ne h
  | @unrecorded node output e hfound hpre hran hcharged hpost hrecorded =>
    exact Recorder.recordStep_lookup_ne (traceStepOf intent id node output (s.step + 1)) s.recorder h
  | _ => exact closeTrace_lookup_ne h

/-- **A run touches no trace but its intent's.** -/
theorem RunCase.lookup_ne (hcase : RunCase exec world g intent x) (h : other ≠ intent.traceId) :
    x.state.recorder.traces.lookup other = exec.recorder.traces.lookup other := by
  cases hcase with
  | revoked hrev => rfl
  | unopened hrev hopen => exact openedState_lookup_ne h
  | planDenied hrev hopen hplan => rw [closeTrace_lookup_ne h, openedState_lookup_ne h]
  | planPaused hrev hopen hplan => rw [closeTrace_lookup_ne h, openedState_lookup_ne h]
  | stoppedAt hsplit hreach hexit => rw [hexit.lookup_ne hreach h, hreach.lookup_ne h]
  | artifactDenied hreach hart => rw [closeTrace_lookup_ne h, artifactState, hreach.lookup_ne h]
  | artifactPaused hreach hart => rw [closeTrace_lookup_ne h, artifactState, hreach.lookup_ne h]
  | completed hreach hart => rw [closeTrace_lookup_ne h, artifactState, hreach.lookup_ne h]

end Others

end GraphExecutor

end Aaf
