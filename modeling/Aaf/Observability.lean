import Aaf.Learning
import Aaf.TraceRecord

/-!
# Views of a trace

What `aaf-trace` makes of traces: the OpenTelemetry document of one (`otelJsonFor`), the
projection of one to its first steps (`Replayer::project`) and the metrics of many
(`TraceMetrics::compute`).

The views are of traces in general. Of those that runs leave behind, `run_views` says what they
show: the nodes that ran, in the order of the graph, one span each; and a replay up to a step is
the trace as it was after that step. `metrics_of_jobs` says that the metrics of the traces on a
recorder count the results of its runs.

The time an observation was recorded at is a parameter. The counters are `u64`, taken as
unbounded.
-/

namespace Aaf

/-! ## OpenTelemetry -/

/-- `OtelAttr`. -/
structure OtelAttr where
  key : String
  value : String
  deriving DecidableEq, Repr

/-- `OtelStatus`, whose message is never set. -/
structure OtelStatus where
  code : String
  deriving DecidableEq, Repr

/-- `OtelSpan`. -/
structure OtelSpan where
  traceId : String
  spanId : String
  name : String
  startTimeUnixNano : ℤ
  endTimeUnixNano : ℤ
  attributes : List OtelAttr
  status : OtelStatus
  deriving DecidableEq, Repr

/-- The code of a status. -/
def StepOutcome.otelCode : StepOutcome → String
  | success => "OK"
  | failure => "ERROR"
  | skipped => "UNSET"
  | compensated => "UNSET"
  | pending => "UNSET"

/-- `step_to_span`; `recordedAt` is in nanoseconds. -/
def stepToSpan (recordedAt : Observation → ℤ) (traceId : String) (step : TraceStep) : OtelSpan where
  traceId := traceId
  spanId := step.observation.nodeId.raw
  name := step.stepType
  startTimeUnixNano := recordedAt step.observation - step.durationMs * 1000000
  endTimeUnixNano := recordedAt step.observation
  attributes := [⟨"aaf.step", toString step.step⟩, ⟨"aaf.tokens_in", toString step.tokensIn⟩,
    ⟨"aaf.tokens_out", toString step.tokensOut⟩, ⟨"aaf.cost_usd", step.costUsd.fixed 6⟩,
    ⟨"aaf.confidence", step.observation.confidence.fixed 4⟩] ++
      step.model.toList.map fun model => ⟨"aaf.model", model⟩
  status := ⟨step.observation.outcome.otelCode⟩

/-- The span as the serializer writes it. -/
def OtelSpan.toJson (span : OtelSpan) : Json :=
  .obj [("traceId", .str span.traceId), ("spanId", .str span.spanId), ("name", .str span.name),
    ("startTimeUnixNano", .num (.finite span.startTimeUnixNano)),
    ("endTimeUnixNano", .num (.finite span.endTimeUnixNano)),
    ("attributes", .arr (span.attributes.map fun attr =>
      .obj [("key", .str attr.key), ("value", .str attr.value)])),
    ("status", .obj [("code", .str span.status.code)])]

/-- The spans of a trace. -/
def spansOf (recordedAt : Observation → ℤ) (trace : ExecutionTrace) : List OtelSpan :=
  trace.steps.map (stepToSpan recordedAt trace.traceId.raw)

/-- `otel_json_for`. -/
def otelJsonFor (recordedAt : Observation → ℤ) (trace : ExecutionTrace) : Json :=
  .obj [("resourceSpans", .arr [.obj [
    ("resource", .obj [("attributes", .arr [
      .obj [("key", .str "service.name"), ("value", .str "aaf")],
      .obj [("key", .str "aaf.intent_id"), ("value", .str trace.intentId.raw)]])]),
    ("scopeSpans", .arr [.obj [
      ("scope", .obj [("name", .str "aaf-trace")]),
      ("spans", .arr ((spansOf recordedAt trace).map OtelSpan.toJson))]])]])]

/-! ## Replay -/

/-- `ReplayError`. -/
inductive ReplayError : Type where
  | outOfRange (step : ℕ) : ReplayError
  deriving DecidableEq, Repr

/-- `Replayer::project`. -/
def project (trace : ExecutionTrace) (upTo : ℕ) : Except ReplayError (List TraceStep) :=
  let max := (trace.steps.map (·.step)).max?.getD 0
  if upTo > max ∧ upTo ≠ 0 then .error (.outOfRange upTo)
  else .ok (trace.steps.filter fun s => decide (s.step ≤ upTo))

/-! ## Metrics -/

/-- `TraceMetrics`. -/
structure TraceMetrics where
  totalTraces : ℕ
  completed : ℕ
  failed : ℕ
  partialResult : ℕ
  cancelled : ℕ
  totalCostUsd : F64
  meanCostUsd : F64
  meanSteps : F64
  intentResolutionRate : F64
  deriving DecidableEq, Repr

namespace TraceMetrics

/-- The counters before the first trace, beside the number of steps. -/
def zero : TraceMetrics × ℕ := (⟨0, 0, 0, 0, 0, 0, 0, 0, 0⟩, 0)

/-- One more trace is counted. -/
def count (m : TraceMetrics × ℕ) (t : ExecutionTrace) : TraceMetrics × ℕ :=
  let counted := { m.1 with
    totalTraces := m.1.totalTraces + 1
    totalCostUsd := m.1.totalCostUsd + t.totalCostUsd }
  (match t.status with
    | .completed => { counted with completed := counted.completed + 1 }
    | .failed => { counted with failed := counted.failed + 1 }
    | .partialResult => { counted with partialResult := counted.partialResult + 1 }
    | .cancelled => { counted with cancelled := counted.cancelled + 1 }
    | .running => counted,
    m.2 + t.steps.length)

/-- `TraceMetrics::compute`. -/
def compute (traces : List ExecutionTrace) : TraceMetrics :=
  let (m, totalSteps) := traces.foldl count zero
  if m.totalTraces > 0 then
    { m with
      meanCostUsd := m.totalCostUsd / .finite m.totalTraces
      meanSteps := .finite totalSteps / .finite m.totalTraces
      intentResolutionRate := .finite m.completed / .finite m.totalTraces }
  else m

/-- The traces with a status. -/
def countOf (status : TraceStatus) (traces : List ExecutionTrace) : ℕ :=
  traces.countP fun t => decide (t.status = status)

/-- What the counters hold. -/
theorem foldl_count (traces : List ExecutionTrace) :
    traces.foldl count zero = (⟨traces.length, countOf .completed traces, countOf .failed traces,
      countOf .partialResult traces, countOf .cancelled traces,
      (traces.map (·.totalCostUsd)).sum, 0, 0, 0⟩, (traces.map (·.steps.length)).sum) := by
  induction traces using List.reverseRecOn with
  | nil => rfl
  | append_singleton traces t ih =>
    have hcost : ((traces ++ [t]).map (·.totalCostUsd)).sum =
        (traces.map (·.totalCostUsd)).sum + t.totalCostUsd := by
      rw [List.map_append, List.sum_append, List.map_singleton, List.sum_singleton]
    rw [List.foldl_concat, ih, hcost]
    cases hstatus : t.status <;> simp [count, countOf, hstatus]

/-- **The metrics of traces.** -/
theorem compute_eq (traces : List ExecutionTrace) :
    (compute traces).totalTraces = traces.length ∧
      (compute traces).completed = countOf .completed traces ∧
      (compute traces).failed = countOf .failed traces ∧
      (compute traces).partialResult = countOf .partialResult traces ∧
      (compute traces).cancelled = countOf .cancelled traces ∧
      (compute traces).totalCostUsd = (traces.map (·.totalCostUsd)).sum ∧
      (traces ≠ [] → (compute traces).intentResolutionRate =
        .finite (countOf .completed traces) / .finite traces.length) := by
  rw [compute, foldl_count]
  dsimp only
  split_ifs with h
  · exact ⟨rfl, rfl, rfl, rfl, rfl, rfl, fun _ => rfl⟩
  · exact ⟨rfl, rfl, rfl, rfl, rfl, rfl, fun hne => absurd (List.length_pos_of_ne_nil hne) h⟩

theorem countOf_failed_add_running (traces : List ExecutionTrace) :
    countOf .failed traces + countOf .running traces =
      traces.countP fun t => decide (t.status = .failed ∨ t.status = .running) := by
  induction traces with
  | nil => rfl
  | cons t traces ih =>
    rw [countOf, countOf] at ih ⊢
    rw [List.countP_cons, List.countP_cons, List.countP_cons, ← ih]
    cases t.status <;> simp <;> omega

end TraceMetrics

/-! ## The trace of a run -/

/-- What an observation says its step cost. -/
def Observation.costUsd (obs : Observation) : F64 :=
  (obs.outcomeDetail.map Outcome.costUsd).getD 0

/-- The trace has the steps of these nodes, numbered from 1, with their observations and costs. -/
structure Tells (trace : ExecutionTrace) (pre : List NodeId) (told : List Observation) : Prop where
  nodes : trace.steps.map (·.nodeId) = pre
  numbers : trace.steps.map (·.step) = List.range' 1 pre.length
  observations : trace.steps.map (·.observation) = told
  node_eq : ∀ step ∈ trace.steps, step.observation.nodeId = step.nodeId
  cost_eq : ∀ step ∈ trace.steps,
    step.observation.outcomeDetail.map Outcome.costUsd = some step.costUsd
  total : trace.totalCostUsd = (trace.steps.map (·.costUsd)).sum

namespace Tells

variable {trace : ExecutionTrace} {pre : List NodeId} {told : List Observation}

theorem opened (id : TraceId) (intent : IntentId) : Tells (.open id intent) [] [] :=
  ⟨rfl, rfl, rfl, fun _ h => absurd h List.not_mem_nil, fun _ h => absurd h List.not_mem_nil, rfl⟩

theorem close (h : Tells trace pre told) (status : TraceStatus) :
    Tells (trace.close status) pre told :=
  ⟨h.nodes, h.numbers, h.observations, h.node_eq, h.cost_eq, h.total⟩

theorem length (h : Tells trace pre told) : trace.steps.length = pre.length := by
  rw [← h.nodes, List.length_map]

theorem total_eq (h : Tells trace pre told) :
    trace.totalCostUsd = (told.map Observation.costUsd).sum := by
  rw [h.total, ← h.observations, List.map_map]
  refine congrArg List.sum (List.map_congr_left fun step hstep => ?_)
  rw [Function.comp_apply, Observation.costUsd, h.cost_eq step hstep]
  rfl

/-- The next step. -/
theorem record (h : Tells trace pre told) (intent : IntentEnvelope) (id : NodeId) (node : Node)
    (output : NodeOutput) :
    Tells (trace.record (GraphExecutor.traceStepOf intent id node output (pre.length + 1)))
      (pre ++ [id])
      (told ++ [GraphExecutor.observationOf intent id node output (pre.length + 1)]) := by
  have hsteps : ∀ {P : TraceStep → Prop}, (∀ step ∈ trace.steps, P step) →
      P (GraphExecutor.traceStepOf intent id node output (pre.length + 1)) →
      ∀ step ∈ trace.steps ++ [GraphExecutor.traceStepOf intent id node output (pre.length + 1)],
        P step := by
    intro P hold hnew step hstep
    rcases List.mem_append.mp hstep with hstep | hstep
    · exact hold step hstep
    · rw [List.mem_singleton.mp hstep]
      exact hnew
  refine ⟨?_, ?_, ?_, hsteps h.node_eq rfl, hsteps h.cost_eq rfl, ?_⟩
  · rw [ExecutionTrace.record, List.map_append, h.nodes]
    rfl
  · rw [ExecutionTrace.record, List.map_append, h.numbers, List.length_append,
      List.length_singleton, List.range'_concat, Nat.one_mul, Nat.add_comm 1]
    rfl
  · rw [ExecutionTrace.record, List.map_append, h.observations]
    rfl
  · rw [ExecutionTrace.record, List.map_append, List.sum_append, ← h.total, List.map_singleton,
      List.sum_singleton]

/-- Steps numbered on from `first`: those up to `k` come first. -/
theorem filter_le_eq_take {steps : List TraceStep} {first n : ℕ}
    (h : steps.map (·.step) = List.range' first n) (k : ℕ) :
    steps.filter (fun s => decide (s.step ≤ k)) = steps.take (k + 1 - first) := by
  induction steps generalizing first n with
  | nil => rw [List.filter_nil, List.take_nil]
  | cons step steps ih =>
    rcases n with _ | n
    · cases h
    rw [List.range'_succ, List.map_cons] at h
    obtain ⟨hstep, hrest⟩ := List.cons.inj h
    by_cases hle : first ≤ k
    · have htake : k + 1 - first = k + 1 - (first + 1) + 1 := by omega
      rw [List.filter_cons_of_pos (by rw [hstep]; exact decide_eq_true hle), ih hrest, htake,
        List.take_succ_cons]
    · have hnone : k + 1 - first = 0 := by omega
      rw [List.filter_cons_of_neg (by rw [hstep]; simpa using hle), ih hrest, hnone,
        List.take_zero]
      have hzero : k + 1 - (first + 1) = 0 := by omega
      rw [hzero, List.take_zero]

/-- **Replay.** The projection to a step is the trace up to it. -/
theorem project_eq (h : Tells trace pre told) (upTo : ℕ) :
    project trace upTo =
      if upTo ≤ pre.length then .ok (trace.steps.take upTo) else .error (.outOfRange upTo) := by
  have hmax : (trace.steps.map (·.step)).max?.getD 0 = pre.length := by
    rw [h.numbers]
    rcases hn : pre.length with _ | n
    · rfl
    · have hsome : (List.range' 1 (n + 1)).max? = some (n + 1) := by
        rw [List.max?_eq_some_iff]
        refine ⟨List.mem_range'_1.mpr ⟨by omega, by omega⟩, fun k hk => ?_⟩
        have hlt := (List.mem_range'_1.mp hk).2
        omega
      rw [hsome, Option.getD_some]
  have hfilter := filter_le_eq_take h.numbers upTo
  rw [Nat.add_sub_cancel] at hfilter
  rw [project, hmax, hfilter]
  by_cases hle : upTo ≤ pre.length
  · rw [if_neg fun hand => Nat.not_lt.mpr hle hand.1, if_pos hle]
  · rw [if_neg hle, if_pos ⟨Nat.not_le.mp hle, by omega⟩]

end Tells

namespace GraphExecutor

section Run

variable {σ : Type} [TraceStore σ] {exec : GraphExecutor (Recorder σ)} {world : World} {g : Graph}
  {intent : IntentEnvelope} {pre : List NodeId} {id : NodeId} {node : Node}
  {output : NodeOutput} {s : RunState (Recorder σ)} {x : Exit (Recorder σ)}

/-- Up to each of its steps, the trace is what the recorder had when the run had got there. -/
def Replays (exec : GraphExecutor (Recorder σ)) (world : World) (g : Graph)
    (intent : IntentEnvelope) (pre : List NodeId) (steps : List TraceStep) : Prop :=
  ∀ k, 0 < k → k ≤ pre.length → ∃ s trace, Reaches exec world g intent (pre.take k) s ∧
    TraceRecorder.get intent.traceId s.recorder = .ok trace ∧ trace.steps = steps.take k

/-- The trace of a run that got through these nodes, with this status. -/
structure TraceOf (exec : GraphExecutor (Recorder σ)) (world : World) (g : Graph)
    (intent : IntentEnvelope) (status : TraceStatus) (pre : List NodeId) (log : List Event)
    (trace : ExecutionTrace) : Prop where
  id_eq : trace.traceId = intent.traceId
  status_eq : trace.status = status
  tells : Tells trace pre (observed log)
  replays : Replays exec world g intent pre trace.steps

/-- The recorder has the trace of the run. -/
def Kept (exec : GraphExecutor (Recorder σ)) (world : World) (g : Graph)
    (intent : IntentEnvelope) (status : TraceStatus) (pre : List NodeId)
    (s : RunState (Recorder σ)) : Prop :=
  ∃ trace, s.recorder.traces.lookup intent.traceId = some trace ∧
    TraceOf exec world g intent status pre s.log trace

/-- A part of the run that records nothing. -/
theorem Kept.silent {s' : RunState (Recorder σ)} {status : TraceStatus} {block : List Event}
    (h : Kept exec world g intent status pre s) (hlog : s'.log = s.log ++ block)
    (hblock : observed block = []) (hrecorder : s'.recorder = s.recorder) :
    Kept exec world g intent status pre s' := by
  obtain ⟨trace, hlookup, hid, hstatus, htells, hreplays⟩ := h
  refine ⟨trace, hrecorder ▸ hlookup, hid, hstatus, ?_, hreplays⟩
  rw [hlog, observed_append, hblock, List.append_nil]
  exact htells

theorem Kept.closeTrace {status status' : TraceStatus} {result : RunResult}
    (h : Kept exec world g intent status pre s) :
    Kept exec world g intent status' pre (closeTrace intent status' s result).state := by
  obtain ⟨trace, hlookup, hid, -, htells, hreplays⟩ := h
  refine ⟨trace.close status', ?_, hid, rfl, ?_, hreplays⟩
  · rw [closeTrace_recorder]
    exact Recorder.close_traces hlookup
  · rw [closeTrace_log, observed_append]
    exact (List.append_nil (observed s.log)).symm ▸ htells.close status'

theorem get_of_lookup {r : Recorder σ} {id : TraceId} {trace : ExecutionTrace}
    (h : r.traces.lookup id = some trace) : TraceRecorder.get id r = .ok trace := by
  change r.get id = .ok trace
  rw [Recorder.get, h]

theorem kept_opened (hopen : (exec.openOf intent).1 = .ok ()) :
    Kept exec world g intent .running [] (exec.openedState intent) := by
  refine ⟨_, Recorder.openTrace_ok hopen, rfl, rfl, .opened _ _, fun k hpos hk => ?_⟩
  exact absurd hk (Nat.not_le.mpr hpos)

theorem Reaches.kept (h : Reaches exec world g intent pre s) :
    Kept exec world g intent .running pre s := by
  refine h.induction (I := fun pre s => Kept exec world g intent .running pre s)
    (fun hreach => kept_opened (reaches_nil_iff.mp hreach).2.1) ?_
  rintro pre s id node output hreach ⟨trace, hlookup, hid, hstatus, htells, hreplays⟩ hcont
  have hnext := (Recorder.recordStep_ok hlookup hcont.recorded).1
  have hlength := htells.length
  refine ⟨_, hnext, hid, hstatus, ?_, fun k hpos hk => ?_⟩
  · rw [nextState, observed_append, observed_stepLog, hreach.bookkeeping.step]
    exact htells.record intent id node output
  -- the last step is the one just recorded; up to an earlier one the trace is the old one
  rw [List.length_append, List.length_singleton] at hk
  rcases Nat.lt_or_eq_of_le hk with hlt | rfl
  · have hle := Nat.le_of_lt_succ hlt
    obtain ⟨s', trace', hreach', hget, hsteps⟩ := hreplays k hpos hle
    rw [List.take_append_of_le_length hle]
    refine ⟨s', trace', hreach', hget, hsteps.trans ?_⟩
    exact (List.take_append_of_le_length (hle.trans hlength.ge)).symm
  · have hlookup' : (nextState exec world g intent s id node output).recorder.traces.lookup
        intent.traceId = some _ := hnext
    refine ⟨_, _, ?_, get_of_lookup hlookup', ?_⟩
    · rw [List.take_of_length_le (by simp)]
      exact reaches_concat_iff.mpr ⟨s, node, output, hreach, hcont, rfl⟩
    · exact (List.take_of_length_le (by simp [ExecutionTrace.record, hlength])).symm

/-- The status that goes with a result: the run closed its trace, or a rollback got stuck. -/
inductive Settled : RunResult → TraceStatus → Prop where
  | closed (result : RunResult) : Settled result (traceStatusOf result)
  | stuck (step reason : String) : Settled (.error (.compensationFailed step reason)) .running

/-- A trace counts as the result of its run does, but for those of stuck rollbacks. -/
theorem Settled.status_iff {result : RunResult} {status status' : TraceStatus}
    (h : Settled result status) (hrunning : status' ≠ .running) (hfailed : status' ≠ .failed) :
    status = status' ↔ traceStatusOf result = status' := by
  cases h with
  | closed => rfl
  | stuck step reason =>
    exact ⟨fun heq => absurd heq.symm hrunning, fun heq => absurd heq.symm hfailed⟩

theorem Settled.failed_iff {result : RunResult} {status : TraceStatus} (h : Settled result status) :
    status = .failed ∨ status = .running ↔ traceStatusOf result = .failed := by
  cases h with
  | closed => simp [traceStatusOf_ne_running]
  | stuck step reason => simp [traceStatusOf]

/-- What a run leaves: its trace, of the first nodes of the order, all of them if it completed. -/
structure Left (exec : GraphExecutor (Recorder σ)) (world : World) (g : Graph)
    (intent : IntentEnvelope) (x : Exit (Recorder σ)) (status : TraceStatus) (pre : List NodeId) :
    Prop where
  first : pre <+: g.order
  settled : Settled x.result status
  kept : Kept exec world g intent status pre x.state
  whole : traceStatusOf x.result = .completed → pre = g.order

end Run

section Reliable

variable {σ : Type} [ReliableStore σ] {exec : GraphExecutor (Recorder σ)} {world : World}
  {g : Graph} {intent : IntentEnvelope} {pre : List NodeId} {id : NodeId}
  {s : RunState (Recorder σ)} {x : Exit (Recorder σ)}

/-- A run that closes its trace. -/
theorem Kept.left (h : Kept exec world g intent .running pre s)
    (hopen : LawfulRecorder.IsOpen s.recorder intent.traceId) (hfirst : pre <+: g.order)
    (result : RunResult) (hwhole : traceStatusOf result = .completed → pre = g.order) :
    ∃ status, Left exec world g intent
      (GraphExecutor.closeTrace intent (traceStatusOf result) s result) status pre := by
  refine ⟨traceStatusOf result, hfirst, ?_, h.closeTrace, ?_⟩
  · rw [result_closeTrace hopen]
    exact .closed result
  · rw [result_closeTrace hopen]
    exact hwhole

/-- A node that fails. -/
theorem Reaches.left_failed (hreach : Reaches exec world g intent pre s)
    (hfirst : pre <+: g.order) {block : List Event} (hblock : observed block = [])
    (e : RuntimeError) :
    ∃ status, Left exec world g intent (failStep intent (stopped s block) e) status pre := by
  have hruns : observed (block ++ (g.rollbackOf intent pre).2.map .compensatorRun) = [] := by
    rw [observed_append, hblock, observed_compensatorRuns]
    rfl
  have hkept : Kept exec world g intent .running pre
      (stopped s (block ++ (g.rollbackOf intent pre).2.map .compensatorRun)) :=
    hreach.kept.silent rfl hruns rfl
  rcases hroll : (g.rollbackOf intent pre).1 with e' | out
  · rw [failStep_stuck hreach hroll]
    obtain ⟨step, reason, rfl⟩ := CompensationChain.drain_error_eq hroll
    exact ⟨.running, hfirst, .stuck step reason, hkept, by simp [traceStatusOf]⟩
  · rw [failStep_rolledBack hreach hroll]
    by_cases hnil : pre.filterMap g.compensatorOf = []
    · rw [if_pos hnil]
      exact hkept.left hreach.isOpen hfirst (.error e) (by simp [traceStatusOf])
    · rw [if_neg hnil]
      exact hkept.left hreach.isOpen hfirst (.ok (.rolledBack _ _ _)) (by simp [traceStatusOf])

/-- An iteration that ends the run. -/
theorem StepExit.left {g : ValidGraph} {post : List NodeId}
    (hexit : StepExit exec world g.toGraph intent s id x)
    (hreach : Reaches exec world g.toGraph intent pre s) (hsplit : g.order = pre ++ id :: post) :
    ∃ status, Left exec world g.toGraph intent x status pre := by
  have hfirst : pre <+: g.order := hsplit ▸ List.prefix_append _ _
  have hopen := hreach.isOpen
  have hstopped : ∀ {block : List Event}, observed block = [] →
      Kept exec world g.toGraph intent .running pre (stopped s block) :=
    fun hblock => hreach.kept.silent rfl hblock rfl
  have hspent : ∀ {output : NodeOutput} {block : List Event}, observed block = [] →
      Kept exec world g.toGraph intent .running pre (spent world s id output block) :=
    fun hblock => hreach.kept.silent rfl hblock rfl
  cases hexit with
  | missing hfound => exact absurd hfound (g.lookup_ne_none hsplit)
  | preDenied =>
    exact (hstopped rfl).left hopen hfirst (.error (.policyViolation _)) (by simp [traceStatusOf])
  | prePaused =>
    exact (hstopped rfl).left hopen hfirst (.ok (.pendingApproval _ _ _))
      (by simp [traceStatusOf])
  | failed =>
    refine hreach.left_failed hfirst ?_ _
    rw [observed_append, observed_runLog]
    rfl
  | unrecorded _ _ _ _ _ hrecorded =>
    rw [hreach.record_ok] at hrecorded
    cases hrecorded
  | exhausted =>
    refine (hspent ?_).left hopen hfirst (.ok (.partialResult _ _ _))
      (by simp [traceStatusOf])
    rw [observed_append, observed_append, observed_runLog]
    rfl
  | postDenied =>
    refine (hspent ?_).left hopen hfirst (.error (.policyViolation _))
      (by simp [traceStatusOf])
    rw [observed_append, observed_append, observed_append, observed_runLog]
    rfl
  | postPaused =>
    refine (hspent ?_).left hopen hfirst (.ok (.pendingApproval _ _ _))
      (by simp [traceStatusOf])
    rw [observed_append, observed_append, observed_append, observed_runLog]
    rfl

/-- Every run that is not refused leaves its trace. -/
theorem run_left (exec : GraphExecutor (Recorder σ)) (world : World) (g : ValidGraph)
    (intent : IntentEnvelope) (hrev : exec.isRevoked intent = false) :
    ∃ status pre, Left exec world g.toGraph intent (exec.run world g.toGraph intent) status pre := by
  have hcases : RunCase exec world g.toGraph intent (exec.run world g.toGraph intent) := run_cases
  generalize exec.run world g.toGraph intent = x at hcases
  have hopened : Kept exec world g.toGraph intent .running [] (exec.openedState intent) :=
    kept_opened (LawfulRecorder.open_ok _ _ _).1
  have hartifact : ∀ {s : RunState (Recorder σ)}, Reaches exec world g.toGraph intent g.order s →
      Kept exec world g.toGraph intent .running g.order (exec.artifactState intent s) := by
    intro s hreach
    have hlog : (exec.artifactState intent s).log = s.log ++
        [.policy .preArtifact none (artifactContext intent s) (exec.artifactDecision intent s)] :=
      rfl
    exact hreach.kept.silent hlog rfl rfl
  -- whichever way the run ends, its trace is that of the nodes it got through
  have hleft : ∀ {pre : List NodeId} {x : Exit (Recorder σ)},
      (∃ status, Left exec world g.toGraph intent x status pre) →
        ∃ status pre, Left exec world g.toGraph intent x status pre := by
    rintro pre x ⟨status, h⟩
    exact ⟨status, pre, h⟩
  cases hcases with
  | revoked h =>
    rw [hrev] at h
    cases h
  | unopened _ hopen =>
    have hok : (exec.openOf intent).1 = .ok () := (LawfulRecorder.open_ok _ _ _).1
    rw [hok] at hopen
    cases hopen
  | planDenied =>
    exact hleft (hopened.left (LawfulRecorder.open_ok _ _ _).2 List.nil_prefix
      (.error (.policyViolation _)) (by simp [traceStatusOf]))
  | planPaused =>
    exact hleft (hopened.left (LawfulRecorder.open_ok _ _ _).2 List.nil_prefix
      (.ok (.pendingApproval _ _ _)) (by simp [traceStatusOf]))
  | stoppedAt hsplit hreach hexit => exact hleft (hexit.left hreach hsplit)
  | artifactDenied hreach =>
    exact hleft ((hartifact hreach).left hreach.isOpen (List.prefix_refl _)
      (.error (.policyViolation _)) fun _ => rfl)
  | artifactPaused hreach =>
    exact hleft ((hartifact hreach).left hreach.isOpen (List.prefix_refl _)
      (.ok (.pendingApproval _ _ _)) fun _ => rfl)
  | completed hreach =>
    exact hleft ((hartifact hreach).left hreach.isOpen (List.prefix_refl _)
      (.ok (.completed _ _)) fun _ => rfl)

/-- What the views show of the trace of a run that got through these nodes. -/
structure Views (recordedAt : Observation → ℤ) (exec : GraphExecutor (Recorder σ)) (world : World)
    (g : Graph) (intent : IntentEnvelope) (pre : List NodeId) (trace : ExecutionTrace) : Prop where
  first : pre <+: g.order
  whole : traceStatusOf (exec.run world g intent).result = .completed → pre = g.order
  spans : (spansOf recordedAt trace).map (·.spanId) = pre.map NodeId.raw
  distinct : ((spansOf recordedAt trace).map (·.spanId)).Nodup
  fine : ∀ span ∈ spansOf recordedAt trace,
    span.traceId = intent.traceId.raw ∧ span.status.code = "OK"
  past : ∀ upTo, 0 < upTo → upTo ≤ pre.length → ∃ s earlier,
    Reaches exec world g intent (pre.take upTo) s ∧
      TraceRecorder.get intent.traceId s.recorder = .ok earlier ∧
        project trace upTo = .ok earlier.steps
  start : project trace 0 = .ok []
  future : ∀ upTo, pre.length < upTo → project trace upTo = .error (.outOfRange upTo)

/-- **The views of a run.** However it ends, its trace has one span for each node it got through,
all of them fine, and replays to what it was after each. -/
theorem run_views (recordedAt : Observation → ℤ) (exec : GraphExecutor (Recorder σ))
    (world : World) (g : ValidGraph) (intent : IntentEnvelope)
    (hrev : exec.isRevoked intent = false) :
    ∃ trace pre, TraceRecorder.get intent.traceId
        (exec.run world g.toGraph intent).state.recorder = .ok trace ∧
      Settled (exec.run world g.toGraph intent).result trace.status ∧
        Views recordedAt exec world g.toGraph intent pre trace := by
  obtain ⟨status, pre, hfirst, hsettled, hkept, hwhole⟩ := run_left exec world g intent hrev
  obtain ⟨trace, hlookup, hid, rfl, htells, hreplays⟩ := hkept
  have hspans : (spansOf recordedAt trace).map (·.spanId) = pre.map NodeId.raw := by
    rw [← htells.nodes, spansOf, List.map_map, List.map_map]
    exact List.map_congr_left fun step hstep => congrArg NodeId.raw (htells.node_eq step hstep)
  have hinjective : Function.Injective NodeId.raw := by
    rintro ⟨a⟩ ⟨b⟩ heq
    exact congrArg NodeId.mk heq
  refine ⟨trace, pre, get_of_lookup hlookup, hsettled, hfirst, hwhole, hspans, ?_, ?_, ?_, ?_, ?_⟩
  · rw [hspans]
    exact (g.orderSpec.order_nodup.sublist hfirst.sublist).map hinjective
  · intro span hspan
    obtain ⟨step, hstep, rfl⟩ := List.mem_map.mp hspan
    refine ⟨congrArg TraceId.raw hid, ?_⟩
    have hobs : step.observation ∈ observed (exec.run world g.toGraph intent).state.log := by
      rw [← htells.observations]
      exact List.mem_map_of_mem hstep
    have hsuccess := (run_handed exec world g.toGraph intent).success _ hobs
    change step.observation.outcome.otelCode = "OK"
    rw [hsuccess.outcome_eq]
    rfl
  · intro upTo hpos hle
    obtain ⟨s, earlier, hreach, hget, hsteps⟩ := hreplays upTo hpos hle
    refine ⟨s, earlier, hreach, hget, ?_⟩
    rw [htells.project_eq, if_pos hle, hsteps]
  · rw [htells.project_eq, if_pos (Nat.zero_le _), List.take_zero]
  · intro upTo hlt
    rw [htells.project_eq, if_neg (Nat.not_le.mpr hlt)]

theorem run_views_pipeline :
    ∃ trace pre, TraceRecorder.get Sample.intent.traceId ((Sample.executor []).run Sample.world
        undoneWrite.toGraph Sample.intent).state.recorder = .ok trace ∧
      Settled ((Sample.executor []).run Sample.world undoneWrite.toGraph
          Sample.intent).result trace.status ∧
        Views (fun _ => 0) (Sample.executor []) Sample.world undoneWrite.toGraph Sample.intent pre
          trace :=
  run_views (fun _ => 0) (Sample.executor []) Sample.world undoneWrite Sample.intent
    (by decide +kernel)

end Reliable

/-! ### The metrics of runs -/

section Jobs

variable {σ : Type}

/-- What is in a recorder of a run that was made on it. -/
structure Counted (st : Machine.Step (Recorder σ) (Job σ) (Exit (Recorder σ)))
    (trace : ExecutionTrace) : Prop where
  settled : Settled st.reply.result trace.status
  cost_eq : trace.totalCostUsd = ((observed st.reply.state.log).map Observation.costUsd).sum

theorem sum_cost_of_forall₂ {sts : List (Machine.Step (Recorder σ) (Job σ) (Exit (Recorder σ)))}
    {traces : List ExecutionTrace} (h : List.Forall₂ Counted sts traces) :
    (traces.map (·.totalCostUsd)).sum =
      ((sts.flatMap fun st => observed st.reply.state.log).map Observation.costUsd).sum := by
  induction h with
  | nil => rfl
  | cons hst _ ih =>
    rw [List.map_cons, List.sum_cons, List.flatMap_cons, List.map_append, List.sum_append,
      hst.cost_eq, ih]

/-- Counting along. -/
theorem countP_of_forall₂ {α β : Type} {R : α → β → Prop} {p : α → Bool} {q : β → Bool}
    {l : List α} {l' : List β} (h : List.Forall₂ R l l') (heq : ∀ a b, R a b → p a = q b) :
    l'.countP q = l.countP p := by
  induction h with
  | nil => rfl
  | cons hab _ ih => rw [List.countP_cons, List.countP_cons, ih, heq _ _ hab]

/-- Such a run can be made. -/
def Job.Ready (job : Job σ) : Prop :=
  job.exec.isRevoked job.intent = false ∧ ∃ g : ValidGraph, job.graph = g.toGraph

variable [ReliableStore σ]

/-- One more run. -/
theorem counted_execJob (r : Recorder σ) {job : Job σ} (h : job.Ready) :
    ∃ trace, (execJob r job).2.traces.lookup job.intent.traceId = some trace ∧
      Counted (Machine.stepAt execJob r job) trace := by
  obtain ⟨hrev, g, hgraph⟩ := h
  obtain ⟨status, pre, -, hsettled, ⟨trace, hlookup, -, rfl, htells, -⟩, -⟩ :=
    run_left { job.exec with recorder := r } job.world g job.intent hrev
  rw [← hgraph] at hsettled hlookup htells
  exact ⟨trace, hlookup, hsettled, htells.total_eq⟩

/-- The traces of jobs, and what became of each. -/
theorem counted_jobs (r : Recorder σ) (jobs : List (Job σ)) (hready : ∀ job ∈ jobs, job.Ready)
    (hids : (jobs.map (·.intent.traceId)).Nodup) :
    ∃ traces : List ExecutionTrace,
      jobs.map (fun job => (Machine.run execJob r jobs).traces.lookup job.intent.traceId) =
          traces.map some ∧
        List.Forall₂ Counted (Machine.trace execJob r jobs) traces := by
  induction jobs using List.reverseRecOn with
  | nil => exact ⟨[], rfl, .nil⟩
  | append_singleton jobs job ih =>
    rw [List.map_append, List.nodup_append] at hids
    obtain ⟨hbefore, -, hnew⟩ := hids
    obtain ⟨traces, hlookups, hcounted⟩ :=
      ih (fun j hj => hready j (List.mem_append_left _ hj)) hbefore
    obtain ⟨trace, hlookup, hcount⟩ := counted_execJob (Machine.run execJob r jobs)
      (hready job (List.mem_append_right _ (List.mem_singleton_self _)))
    refine ⟨traces ++ [trace], ?_, ?_⟩
    · rw [Machine.run_concat, List.map_append, List.map_append, ← hlookups, List.map_singleton,
        List.map_singleton]
      refine congrArg₂ (· ++ ·) (List.map_congr_left fun j hj => ?_) (congrArg ([·]) hlookup)
      refine run_cases.lookup_ne fun heq => ?_
      exact hnew _ (List.mem_map_of_mem hj) _ (List.mem_singleton_self _) heq
    · rw [Machine.trace_concat]
      exact List.rel_append hcounted (.cons hcount .nil)

/-- What `get` answers for all of them. -/
theorem map_get_of_lookup {r : Recorder σ} {jobs : List (Job σ)} {traces : List ExecutionTrace}
    (h : jobs.map (fun job => r.traces.lookup job.intent.traceId) = traces.map some) :
    jobs.map (fun job => TraceRecorder.get job.intent.traceId r) = traces.map .ok := by
  induction jobs generalizing traces with
  | nil =>
    obtain rfl := List.map_eq_nil_iff.mp h.symm
    rfl
  | cons job jobs ih =>
    obtain ⟨trace, rest, rfl, hlookup, hrest⟩ := List.map_eq_cons_iff.mp h.symm
    rw [List.map_cons, List.map_cons, get_of_lookup hlookup.symm, ih hrest.symm]

/-- The runs with a status. -/
def resultsOf (status : TraceStatus) (r : Recorder σ) (jobs : List (Job σ)) : ℕ :=
  (Machine.trace execJob r jobs).countP fun st =>
    decide (traceStatusOf st.reply.result = status)

/-- **The metrics of runs.** The traces that runs with ids of their own leave on one recorder
count as the results of the runs do, and cost what their steps cost. -/
theorem metrics_of_jobs (r : Recorder σ) (jobs : List (Job σ)) (hready : ∀ job ∈ jobs, job.Ready)
    (hids : (jobs.map (·.intent.traceId)).Nodup) :
    ∃ traces : List ExecutionTrace,
      jobs.map (fun job => TraceRecorder.get job.intent.traceId (Machine.run execJob r jobs)) =
          traces.map .ok ∧
        (TraceMetrics.compute traces).totalTraces = jobs.length ∧
        (TraceMetrics.compute traces).completed = resultsOf .completed r jobs ∧
        (TraceMetrics.compute traces).partialResult = resultsOf .partialResult r jobs ∧
        (TraceMetrics.compute traces).failed + TraceMetrics.countOf .running traces =
          resultsOf .failed r jobs ∧
        (TraceMetrics.compute traces).cancelled = 0 ∧
        (TraceMetrics.compute traces).totalCostUsd =
          ((observedIn r jobs).map Observation.costUsd).sum ∧
        (jobs ≠ [] → (TraceMetrics.compute traces).intentResolutionRate =
          .finite (resultsOf .completed r jobs) / .finite jobs.length) := by
  obtain ⟨traces, hlookups, hcounted⟩ := counted_jobs r jobs hready hids
  obtain ⟨htotal, hcompleted, hfailed, hpart, hcancelled, hcost, hrate⟩ :=
    TraceMetrics.compute_eq traces
  have hlength : traces.length = jobs.length := by
    rw [← List.length_map (f := some), ← hlookups, List.length_map]
  have hcount : ∀ status, status ≠ .running → status ≠ .failed →
      TraceMetrics.countOf status traces = resultsOf status r jobs :=
    fun status hrunning hfailed => countP_of_forall₂ hcounted fun st trace h =>
      decide_eq_decide.mpr (h.settled.status_iff hrunning hfailed).symm
  refine ⟨traces, map_get_of_lookup hlookups, htotal.trans hlength, ?_, ?_, ?_, ?_, ?_, ?_⟩
  · rw [hcompleted, hcount .completed (by decide) (by decide)]
  · rw [hpart, hcount .partialResult (by decide) (by decide)]
  · rw [hfailed, TraceMetrics.countOf_failed_add_running]
    exact countP_of_forall₂ hcounted fun st trace h =>
      decide_eq_decide.mpr h.settled.failed_iff.symm
  · rw [hcancelled, hcount .cancelled (by decide) (by decide)]
    refine List.countP_eq_zero.mpr fun st _ => ?_
    rcases st.reply.result with e | (_ | _ | _ | _) <;> simp [traceStatusOf]
  · rw [hcost, observedIn, sum_cost_of_forall₂ hcounted]
  · intro hne
    have htraces : traces ≠ [] := by
      rw [← List.length_pos_iff, hlength]
      exact List.length_pos_of_ne_nil hne
    rw [hrate htraces, hcount .completed (by decide) (by decide), hlength]

/-- A run that is undone and one that gets stuck in undoing. -/
def undoneAndStuck : List (Job InMemoryTraceStore) :=
  [⟨Sample.executor [], Sample.world, undoneWrite.toGraph, Sample.intent⟩,
    ⟨Sample.executor [], Sample.world, stuckWrite.toGraph,
      { Sample.intent with traceId := ⟨"trace-2"⟩ }⟩]

theorem metrics_of_jobs_undoneAndStuck :
    ∃ traces : List ExecutionTrace,
      undoneAndStuck.map (fun job => TraceRecorder.get job.intent.traceId
          (Machine.run execJob Recorder.inMemory undoneAndStuck)) = traces.map .ok ∧
        (TraceMetrics.compute traces).totalTraces = undoneAndStuck.length ∧
        (TraceMetrics.compute traces).completed =
          resultsOf .completed Recorder.inMemory undoneAndStuck ∧
        (TraceMetrics.compute traces).partialResult =
          resultsOf .partialResult Recorder.inMemory undoneAndStuck ∧
        (TraceMetrics.compute traces).failed + TraceMetrics.countOf .running traces =
          resultsOf .failed Recorder.inMemory undoneAndStuck ∧
        (TraceMetrics.compute traces).cancelled = 0 ∧
        (TraceMetrics.compute traces).totalCostUsd =
          ((observedIn Recorder.inMemory undoneAndStuck).map Observation.costUsd).sum ∧
        (undoneAndStuck ≠ [] → (TraceMetrics.compute traces).intentResolutionRate =
          .finite (resultsOf .completed Recorder.inMemory undoneAndStuck) /
            .finite undoneAndStuck.length) := by
  refine metrics_of_jobs Recorder.inMemory undoneAndStuck ?_ (by decide)
  intro job hjob
  rcases List.mem_cons.mp hjob with rfl | hjob
  · exact ⟨by decide +kernel, undoneWrite, rfl⟩
  · rw [List.mem_singleton.mp hjob]
    exact ⟨by decide +kernel, stuckWrite, rfl⟩

end Jobs

end GraphExecutor

end Aaf
