import Aaf.Executor

/-!
# One iteration, and one run, of the executor by cases

`Continues` says everything about an iteration that continues, `StepExit` about an
iteration that ends the run, and `runNode_ok_iff`, `runNode_error_iff` that these are
all iterations. `Reaches` is the state in which a run enters the node behind a
given prefix of the order; `RunCase` lists every way a run can end, and
`run_cases` that it ends in one of them. The results about runs rest on these and
never unfold the executor again.

What an iteration does is decided by four verdicts on the state it starts from:
the `PreStep` decision, the node's output, the charge and the `PostStep` decision.
-/

namespace Aaf

/-! ## The graph's side of an iteration -/

/-- The node under an id is write-class. -/
def Graph.isWrite (g : Graph) (id : NodeId) : Bool :=
  (g.nodes.lookup id).elim false Node.isWriteClass

/-- What the executor queues for a step that succeeded: the compensator
registered for it, if the step is write-class. -/
def Graph.compensatorOf (g : Graph) (id : NodeId) : Option (NodeId × Node) :=
  if g.isWrite id then (g.compensators.lookup id).map (id, ·) else none

namespace GraphExecutor

variable {ρ : Type} [TraceRecorder ρ]

/-! ## The verdicts -/

section Verdicts

variable (exec : GraphExecutor ρ) (world : World) (intent : IntentEnvelope) (id : NodeId)
  (node : Node) (output : NodeOutput) (s : RunState ρ)

/-- The context of `PreStep`. -/
def preContext : PolicyContext :=
  context intent (some intent.goal) none (some node.sideEffect) s

/-- The `PreStep` decision. -/
def preDecision : PolicyDecision := exec.policy.evaluate .preStep (preContext intent node s)

/-- What the node yields: the marker when it is shadowed, else its own result. -/
def outputOf : Except RuntimeError NodeOutput :=
  if exec.shadow && node.isWriteClass then .ok (shadowOutput id node) else node.run intent s.outputs

/-- The charge and the tracker after it. -/
def chargeOf : Except BudgetTrackerError Unit × BudgetTracker :=
  s.budget.charge output.tokens output.costUsd (world.elapsedMs id)

/-- The context of `PostStep`. -/
def postContext : PolicyContext :=
  context intent none (some (world.jsonToString output.data)) (some node.sideEffect)
    { s with budget := (chargeOf world id output s).2 }

/-- The `PostStep` decision. -/
def postDecision : PolicyDecision :=
  exec.policy.evaluate .postStep (postContext world intent id node output s)

/-- The recorder's answer to the step, and the recorder after it. -/
def recordOf : Except RecorderError Unit × ρ :=
  TraceRecorder.recordStep (traceStepOf intent id node output (s.step + 1)) s.recorder

/-! ### What an iteration logs -/

def preLog : List Event :=
  [.policy .preStep (some id) (preContext intent node s) (exec.preDecision intent node s)]

def runLog : List Event :=
  if exec.shadow && node.isWriteClass then [.shadowed id (shadowOutput id node)]
  else node.leaves.map (.leafRun id s.outputs) ++ [.nodeRun id s.outputs (node.run intent s.outputs)]

def chargeLog : List Event := [.charged id (chargeOf world id output s).1]

def postLog : List Event :=
  [.policy .postStep (some id) (postContext world intent id node output s)
    (exec.postDecision world intent id node output s)]

def recordLog : List Event :=
  [.recorded (traceStepOf intent id node output (s.step + 1))
    (recordOf intent id node output s).1]

/-- The log of a whole iteration. -/
def stepLog : List Event :=
  exec.preLog intent id node s ++ exec.runLog intent id node s ++ chargeLog world id output s ++
    exec.postLog world intent id node output s ++ recordLog intent id node output s

end Verdicts

/-! ## The phases -/

section Phases

variable {exec : GraphExecutor ρ} {world : World} {g : Graph} {intent : IntentEnvelope}
  {id : NodeId} {node : Node} {output : NodeOutput} {s s' : RunState ρ} {x : Exit ρ}
  {decision : PolicyDecision} {atStep : ℕ} {paused : Outputs} {status : TraceStatus}
  {result : RunResult}

@[simp] theorem closeTrace_log :
    (closeTrace intent status s result).state.log =
      s.log ++ [.closed status (TraceRecorder.close intent.traceId status s.recorder).1] := by
  rw [closeTrace]
  dsimp only
  split <;> simp_all

@[simp] theorem closeTrace_recorder :
    (closeTrace intent status s result).state.recorder =
      (TraceRecorder.close intent.traceId status s.recorder).2 := by
  rw [closeTrace]
  dsimp only
  split <;> simp_all

@[simp] theorem closeTrace_budget :
    (closeTrace intent status s result).state.budget = s.budget := by
  rw [closeTrace]
  dsimp only
  split <;> rfl

/-- A close that succeeds returns the intended result. -/
theorem closeTrace_result (h : (TraceRecorder.close intent.traceId status s.recorder).1 = .ok ()) :
    (closeTrace intent status s result).result = result := by
  rw [closeTrace]
  simp only [h]

/-- A decision lets the run proceed exactly when it is allowed. -/
theorem settle_ok_iff :
    settle intent decision atStep paused s = .ok s' ↔ decision.isAllowed = true ∧ s' = s := by
  cases decision with
  | allow => exact ⟨fun h => ⟨rfl, by cases h; rfl⟩, fun h => by rw [h.2]; rfl⟩
  | allowWithWarnings vs => exact ⟨fun h => ⟨rfl, by cases h; rfl⟩, fun h => by rw [h.2]; rfl⟩
  | requireApproval vs => exact ⟨fun h => (by cases h), fun h => (by cases h.1)⟩
  | deny vs => exact ⟨fun h => (by cases h), fun h => (by cases h.1)⟩

theorem settle_error_iff :
    settle intent decision atStep paused s = .error x ↔
      (∃ vs, decision = .deny vs ∧
        x = closeTrace intent .failed s (.error (.policyViolation vs))) ∨
      (∃ vs, decision = .requireApproval vs ∧
        x = closeTrace intent .partialResult s
          (.ok (.pendingApproval paused atStep decision))) := by
  cases decision with
  | allow => exact ⟨fun h => (by cases h), by rintro (⟨vs, h, -⟩ | ⟨vs, h, -⟩) <;> cases h⟩
  | allowWithWarnings vs =>
    exact ⟨fun h => (by cases h), by rintro (⟨vs, h, -⟩ | ⟨vs, h, -⟩) <;> cases h⟩
  | requireApproval vs =>
    refine ⟨fun h => Or.inr ⟨vs, rfl, by cases h; rfl⟩, ?_⟩
    rintro (⟨vs', h, -⟩ | ⟨vs', -, rfl⟩)
    · cases h
    · rfl
  | deny vs =>
    refine ⟨fun h => Or.inl ⟨vs, rfl, by cases h; rfl⟩, ?_⟩
    rintro (⟨vs', h, rfl⟩ | ⟨vs', h, -⟩)
    · cases h
      rfl
    · cases h

theorem execute_ok_iff :
    exec.execute intent id node s = .ok (output, s') ↔
      exec.outputOf intent id node s = .ok output ∧
        s' = { s with log := s.log ++ exec.runLog intent id node s } := by
  rw [execute, outputOf, runLog]
  by_cases hshadow : (exec.shadow && node.isWriteClass) = true
  · rw [if_pos hshadow, if_pos hshadow, if_pos hshadow]
    simp [eq_comm]
  · rw [if_neg hshadow, if_neg hshadow, if_neg hshadow]
    rcases node.run intent s.outputs with e | o
    · simp
    · simp [eq_comm]

theorem execute_error_iff :
    exec.execute intent id node s = .error x ↔
      ∃ e, exec.outputOf intent id node s = .error e ∧
        x = failStep intent { s with log := s.log ++ exec.runLog intent id node s } e := by
  rw [execute, outputOf, runLog]
  by_cases hshadow : (exec.shadow && node.isWriteClass) = true
  · rw [if_pos hshadow, if_pos hshadow, if_pos hshadow]
    simp
  · rw [if_neg hshadow, if_neg hshadow, if_neg hshadow]
    rcases node.run intent s.outputs with e | o
    · simp [eq_comm]
    · simp

theorem chargeStep_ok_iff :
    chargeStep world intent id output s = .ok s' ↔
      (chargeOf world id output s).1 = .ok () ∧
        s' = { s with
          budget := (chargeOf world id output s).2
          log := s.log ++ chargeLog world id output s } := by
  rw [chargeStep, chargeLog, chargeOf]
  dsimp only
  rcases (s.budget.charge output.tokens output.costUsd (world.elapsedMs id)).1 with e | _
  · simp
  · simp [eq_comm]

theorem chargeStep_error_iff :
    chargeStep world intent id output s = .error x ↔
      ∃ e, (chargeOf world id output s).1 = .error e ∧
        x = closeTrace intent .partialResult
          { s with
            budget := (chargeOf world id output s).2
            log := s.log ++ chargeLog world id output s }
          (.ok (.partialResult s.outputs (s.step - 1) e)) := by
  rw [chargeStep, chargeLog, chargeOf]
  dsimp only
  rcases (s.budget.charge output.tokens output.costUsd (world.elapsedMs id)).1 with e | _
  · simp [eq_comm]
  · simp

theorem recordNode_ok_iff :
    recordNode intent id node output s = .ok s' ↔
      (TraceRecorder.recordStep (traceStepOf intent id node output s.step) s.recorder).1 = .ok () ∧
        s' = { s with
          recorder :=
            (TraceRecorder.recordStep (traceStepOf intent id node output s.step) s.recorder).2
          log := s.log ++ [.recorded (traceStepOf intent id node output s.step)
            (TraceRecorder.recordStep (traceStepOf intent id node output s.step) s.recorder).1] } := by
  rw [recordNode]
  dsimp only
  rcases (TraceRecorder.recordStep (traceStepOf intent id node output s.step) s.recorder).1 with e | _
  · simp
  · simp [eq_comm]

theorem recordNode_error_iff :
    recordNode intent id node output s = .error x ↔
      ∃ e, (TraceRecorder.recordStep (traceStepOf intent id node output s.step) s.recorder).1 =
          .error e ∧
        x = ⟨{ s with
          recorder :=
            (TraceRecorder.recordStep (traceStepOf intent id node output s.step) s.recorder).2
          log := s.log ++ [.recorded (traceStepOf intent id node output s.step)
            (TraceRecorder.recordStep (traceStepOf intent id node output s.step) s.recorder).1] },
          .error (.node e.display)⟩ := by
  rw [recordNode]
  dsimp only
  rcases (TraceRecorder.recordStep (traceStepOf intent id node output s.step) s.recorder).1 with e | _
  · simp [eq_comm]
  · simp

end Phases

/-! ## One iteration -/

section Iteration

variable (exec : GraphExecutor ρ) (world : World) (g : Graph) (intent : IntentEnvelope)
  (s : RunState ρ) (id : NodeId)

/-- All verdicts on an iteration are favourable. -/
structure Continues (node : Node) (output : NodeOutput) : Prop where
  found : g.nodes.lookup id = some node
  pre : (exec.preDecision intent node s).isAllowed = true
  ran : exec.outputOf intent id node s = .ok output
  charged : (chargeOf world id output s).1 = .ok ()
  post : (exec.postDecision world intent id node output s).isAllowed = true
  recorded : (recordOf intent id node output s).1 = .ok ()

/-- The state an iteration that continues leaves. -/
def nextState (node : Node) (output : NodeOutput) : RunState ρ where
  outputs := s.outputs.insert id output
  step := s.step + 1
  composedWrites := s.composedWrites + node.isWriteClass.toNat
  chain := ⟨s.chain.stack ++ (g.compensatorOf id).toList⟩
  compensatorTargets := s.compensatorTargets ++ (g.compensatorOf id).toList.map Prod.fst
  budget := (chargeOf world id output s).2
  recorder := (recordOf intent id node output s).2
  log := s.log ++ exec.stepLog world intent id node output s

/-- The state when the iteration ends the run before its charge. -/
def stopped (block : List Event) : RunState ρ :=
  { s with step := s.step + 1, log := s.log ++ block }

/-- The state when it ends after its charge. -/
def spent (output : NodeOutput) (block : List Event) : RunState ρ :=
  { s with
    step := s.step + 1
    budget := (chargeOf world id output s).2
    log := s.log ++ block }

/-- The ways an iteration ends the run. -/
inductive StepExit : Exit ρ → Prop where
  | missing (h : g.nodes.lookup id = none) :
    StepExit ⟨stopped s [], .error (.node ("missing node " ++ id.raw))⟩
  | preDenied {node : Node} {vs : List PolicyViolation} (found : g.nodes.lookup id = some node)
    (pre : exec.preDecision intent node s = .deny vs) :
    StepExit (closeTrace intent .failed (stopped s (exec.preLog intent id node s))
      (.error (.policyViolation vs)))
  | prePaused {node : Node} {vs : List PolicyViolation} (found : g.nodes.lookup id = some node)
    (pre : exec.preDecision intent node s = .requireApproval vs) :
    StepExit (closeTrace intent .partialResult (stopped s (exec.preLog intent id node s))
      (.ok (.pendingApproval s.outputs (s.step + 1) (.requireApproval vs))))
  | failed {node : Node} {e : RuntimeError} (found : g.nodes.lookup id = some node)
    (pre : (exec.preDecision intent node s).isAllowed = true)
    (ran : exec.outputOf intent id node s = .error e) :
    StepExit (failStep intent
      (stopped s (exec.preLog intent id node s ++ exec.runLog intent id node s)) e)
  | exhausted {node : Node} {output : NodeOutput} {e : BudgetTrackerError}
    (found : g.nodes.lookup id = some node)
    (pre : (exec.preDecision intent node s).isAllowed = true)
    (ran : exec.outputOf intent id node s = .ok output)
    (charged : (chargeOf world id output s).1 = .error e) :
    StepExit (closeTrace intent .partialResult
      (spent world s id output (exec.preLog intent id node s ++ exec.runLog intent id node s ++
        chargeLog world id output s))
      (.ok (.partialResult s.outputs s.step e)))
  | postDenied {node : Node} {output : NodeOutput} {vs : List PolicyViolation}
    (found : g.nodes.lookup id = some node)
    (pre : (exec.preDecision intent node s).isAllowed = true)
    (ran : exec.outputOf intent id node s = .ok output)
    (charged : (chargeOf world id output s).1 = .ok ())
    (post : exec.postDecision world intent id node output s = .deny vs) :
    StepExit (closeTrace intent .failed
      (spent world s id output (exec.preLog intent id node s ++ exec.runLog intent id node s ++
        chargeLog world id output s ++ exec.postLog world intent id node output s))
      (.error (.policyViolation vs)))
  | postPaused {node : Node} {output : NodeOutput} {vs : List PolicyViolation}
    (found : g.nodes.lookup id = some node)
    (pre : (exec.preDecision intent node s).isAllowed = true)
    (ran : exec.outputOf intent id node s = .ok output)
    (charged : (chargeOf world id output s).1 = .ok ())
    (post : exec.postDecision world intent id node output s = .requireApproval vs) :
    StepExit (closeTrace intent .partialResult
      (spent world s id output (exec.preLog intent id node s ++ exec.runLog intent id node s ++
        chargeLog world id output s ++ exec.postLog world intent id node output s))
      (.ok (.pendingApproval (s.outputs.insert id output) (s.step + 1) (.requireApproval vs))))
  | unrecorded {node : Node} {output : NodeOutput} {e : RecorderError}
    (found : g.nodes.lookup id = some node)
    (pre : (exec.preDecision intent node s).isAllowed = true)
    (ran : exec.outputOf intent id node s = .ok output)
    (charged : (chargeOf world id output s).1 = .ok ())
    (post : (exec.postDecision world intent id node output s).isAllowed = true)
    (recorded : (recordOf intent id node output s).1 = .error e) :
    StepExit ⟨{ spent world s id output (exec.stepLog world intent id node output s) with
      recorder := (recordOf intent id node output s).2 }, .error (.node e.display)⟩

variable {exec world g intent s id} {s' : RunState ρ} {x : Exit ρ}

omit [TraceRecorder ρ] in
theorem commit_eq {node : Node} (output : NodeOutput) (h : g.nodes.lookup id = some node) :
    commit g id node output s =
      { s with
        outputs := s.outputs.insert id output
        composedWrites := s.composedWrites + node.isWriteClass.toNat
        chain := ⟨s.chain.stack ++ (g.compensatorOf id).toList⟩
        compensatorTargets := s.compensatorTargets ++ (g.compensatorOf id).toList.map Prod.fst } := by
  rw [commit, Graph.compensatorOf, Graph.isWrite]
  rw [h, Option.elim_some]
  by_cases hw : node.isWriteClass = true
  · simp only [hw]
    rcases g.compensators.lookup id with _ | comp
    · simp
    · simp [CompensationChain.push]
  · simp only [if_neg hw]
    simp [Bool.eq_false_of_not_eq_true hw]

/-- **Iterations that continue.** -/
theorem runNode_ok_iff :
    exec.runNode world g intent s id = .ok s' ↔
      ∃ node output, Continues exec world g intent s id node output ∧
        s' = nextState exec world g intent s id node output := by
  rw [runNode]
  rcases hfound : g.nodes.lookup id with _ | node
  · refine ⟨fun h => (by cases h), ?_⟩
    rintro ⟨node, output, h, -⟩
    rw [h.found] at hfound
    cases hfound
  dsimp only
  rw [runFound]
  refine ⟨fun h => ?_, ?_⟩
  · obtain ⟨s₁, h₁, h⟩ := Loop.bind_ok_iff.mp h
    obtain ⟨hpre, rfl⟩ := settle_ok_iff.mp h₁
    obtain ⟨⟨output, s₂⟩, h₂, h⟩ := Loop.bind_ok_iff.mp h
    obtain ⟨hran, rfl⟩ := execute_ok_iff.mp h₂
    obtain ⟨s₃, h₃, h⟩ := Loop.bind_ok_iff.mp h
    obtain ⟨hcharged, rfl⟩ := chargeStep_ok_iff.mp h₃
    obtain ⟨s₄, h₄, h⟩ := Loop.bind_ok_iff.mp h
    obtain ⟨hpost, rfl⟩ := settle_ok_iff.mp h₄
    obtain ⟨s₅, h₅, h⟩ := Loop.bind_ok_iff.mp h
    obtain ⟨hrecorded, rfl⟩ := recordNode_ok_iff.mp h₅
    refine ⟨node, output, ⟨hfound, hpre, hran, hcharged, hpost, hrecorded⟩, ?_⟩
    cases h
    rw [commit_eq output hfound]
    simp only [nextState, stepLog, List.append_assoc]
    rfl
  · rintro ⟨node', output, h, rfl⟩
    obtain rfl : node = node' := Option.some.inj (hfound.symm.trans h.found)
    rw [Loop.bind_ok_iff]
    refine ⟨_, settle_ok_iff.mpr ⟨h.pre, rfl⟩, ?_⟩
    rw [Loop.bind_ok_iff]
    refine ⟨(output, _), execute_ok_iff.mpr ⟨h.ran, rfl⟩, ?_⟩
    rw [Loop.bind_ok_iff]
    refine ⟨_, chargeStep_ok_iff.mpr ⟨h.charged, rfl⟩, ?_⟩
    rw [Loop.bind_ok_iff]
    refine ⟨_, settle_ok_iff.mpr ⟨h.post, rfl⟩, ?_⟩
    rw [Loop.bind_ok_iff]
    refine ⟨_, recordNode_ok_iff.mpr ⟨h.recorded, rfl⟩, ?_⟩
    rw [commit_eq output hfound]
    simp only [nextState, stepLog, List.append_assoc]
    rfl

theorem stepExit_of_runNode (h : exec.runNode world g intent s id = .error x) :
    StepExit exec world g intent s id x := by
  rw [runNode] at h
  rcases hfound : g.nodes.lookup id with _ | node
  · rw [hfound] at h
    cases h
    have hx : StepExit exec world g intent s id _ := StepExit.missing hfound
    simpa only [stopped, List.append_nil] using hx
  rw [hfound] at h
  dsimp only at h
  rw [runFound] at h
  rcases Loop.bind_error_iff.mp h with h₁ | ⟨s₁, h₁, h⟩
  · rcases settle_error_iff.mp h₁ with ⟨vs, hpre, rfl⟩ | ⟨vs, hpre, rfl⟩
    · exact StepExit.preDenied (s := s) hfound hpre
    · have hx : StepExit exec world g intent s id _ := StepExit.prePaused hfound hpre
      rw [← hpre] at hx
      exact hx
  obtain ⟨hpre, rfl⟩ := settle_ok_iff.mp h₁
  rcases Loop.bind_error_iff.mp h with h₂ | ⟨⟨output, s₂⟩, h₂, h⟩
  · obtain ⟨e, hran, rfl⟩ := execute_error_iff.mp h₂
    have hx : StepExit exec world g intent s id _ := StepExit.failed hfound hpre hran
    rw [stopped, ← List.append_assoc] at hx
    exact hx
  obtain ⟨hran, rfl⟩ := execute_ok_iff.mp h₂
  rcases Loop.bind_error_iff.mp h with h₃ | ⟨s₃, h₃, h⟩
  · obtain ⟨e, hcharged, rfl⟩ := chargeStep_error_iff.mp h₃
    have hx := StepExit.exhausted (s := s) hfound hpre hran hcharged
    rw [spent, ← List.append_assoc, ← List.append_assoc] at hx
    exact hx
  obtain ⟨hcharged, rfl⟩ := chargeStep_ok_iff.mp h₃
  rcases Loop.bind_error_iff.mp h with h₄ | ⟨s₄, h₄, h⟩
  · rcases settle_error_iff.mp h₄ with ⟨vs, hpost, rfl⟩ | ⟨vs, hpost, rfl⟩
    · have hx := StepExit.postDenied (s := s) hfound hpre hran hcharged hpost
      rw [spent, ← List.append_assoc, ← List.append_assoc, ← List.append_assoc] at hx
      exact hx
    · have hx := StepExit.postPaused (s := s) hfound hpre hran hcharged hpost
      rw [spent, ← List.append_assoc, ← List.append_assoc, ← List.append_assoc, ← hpost] at hx
      exact hx
  obtain ⟨hpost, rfl⟩ := settle_ok_iff.mp h₄
  rcases Loop.bind_error_iff.mp h with h₅ | ⟨s₅, h₅, h⟩
  · obtain ⟨e, hrecorded, rfl⟩ := recordNode_error_iff.mp h₅
    have hx := StepExit.unrecorded (s := s) hfound hpre hran hcharged hpost hrecorded
    rw [spent, stepLog, ← List.append_assoc, ← List.append_assoc, ← List.append_assoc,
      ← List.append_assoc] at hx
    exact hx
  cases h

theorem StepExit.runNode_eq (h : StepExit exec world g intent s id x) :
    exec.runNode world g intent s id = .error x := by
  rw [runNode]
  cases h with
  | missing hfound =>
    rw [hfound]
    simp [stopped]
  | preDenied hfound hpre =>
    rw [hfound]
    exact Loop.bind_error_iff.mpr (Or.inl (settle_error_iff.mpr (Or.inl ⟨_, hpre, rfl⟩)))
  | prePaused hfound hpre =>
    rw [hfound]
    refine Loop.bind_error_iff.mpr (Or.inl (settle_error_iff.mpr (Or.inr ⟨_, hpre, ?_⟩)))
    rw [← hpre]
    rfl
  | failed hfound hpre hran =>
    rw [hfound]
    refine Loop.bind_error_iff.mpr (Or.inr ⟨_, settle_ok_iff.mpr ⟨hpre, rfl⟩, ?_⟩)
    refine Loop.bind_error_iff.mpr (Or.inl (execute_error_iff.mpr ⟨_, hran, ?_⟩))
    rw [stopped, ← List.append_assoc]
    rfl
  | exhausted hfound hpre hran hcharged =>
    rw [hfound]
    refine Loop.bind_error_iff.mpr (Or.inr ⟨_, settle_ok_iff.mpr ⟨hpre, rfl⟩, ?_⟩)
    refine Loop.bind_error_iff.mpr (Or.inr ⟨(_, _), execute_ok_iff.mpr ⟨hran, rfl⟩, ?_⟩)
    refine Loop.bind_error_iff.mpr (Or.inl (chargeStep_error_iff.mpr ⟨_, hcharged, ?_⟩))
    rw [spent, ← List.append_assoc, ← List.append_assoc]
    rfl
  | postDenied hfound hpre hran hcharged hpost =>
    rw [hfound]
    refine Loop.bind_error_iff.mpr (Or.inr ⟨_, settle_ok_iff.mpr ⟨hpre, rfl⟩, ?_⟩)
    refine Loop.bind_error_iff.mpr (Or.inr ⟨(_, _), execute_ok_iff.mpr ⟨hran, rfl⟩, ?_⟩)
    refine Loop.bind_error_iff.mpr (Or.inr ⟨_, chargeStep_ok_iff.mpr ⟨hcharged, rfl⟩, ?_⟩)
    refine Loop.bind_error_iff.mpr (Or.inl (settle_error_iff.mpr (Or.inl ⟨_, hpost, ?_⟩)))
    rw [spent, ← List.append_assoc, ← List.append_assoc, ← List.append_assoc]
    rfl
  | postPaused hfound hpre hran hcharged hpost =>
    rw [hfound]
    refine Loop.bind_error_iff.mpr (Or.inr ⟨_, settle_ok_iff.mpr ⟨hpre, rfl⟩, ?_⟩)
    refine Loop.bind_error_iff.mpr (Or.inr ⟨(_, _), execute_ok_iff.mpr ⟨hran, rfl⟩, ?_⟩)
    refine Loop.bind_error_iff.mpr (Or.inr ⟨_, chargeStep_ok_iff.mpr ⟨hcharged, rfl⟩, ?_⟩)
    refine Loop.bind_error_iff.mpr (Or.inl (settle_error_iff.mpr (Or.inr ⟨_, hpost, ?_⟩)))
    rw [spent, ← List.append_assoc, ← List.append_assoc, ← List.append_assoc, ← hpost]
    rfl
  | unrecorded hfound hpre hran hcharged hpost hrecorded =>
    rw [hfound]
    refine Loop.bind_error_iff.mpr (Or.inr ⟨_, settle_ok_iff.mpr ⟨hpre, rfl⟩, ?_⟩)
    refine Loop.bind_error_iff.mpr (Or.inr ⟨(_, _), execute_ok_iff.mpr ⟨hran, rfl⟩, ?_⟩)
    refine Loop.bind_error_iff.mpr (Or.inr ⟨_, chargeStep_ok_iff.mpr ⟨hcharged, rfl⟩, ?_⟩)
    refine Loop.bind_error_iff.mpr (Or.inr ⟨_, settle_ok_iff.mpr ⟨hpost, rfl⟩, ?_⟩)
    refine Loop.bind_error_iff.mpr (Or.inl (recordNode_error_iff.mpr ⟨_, hrecorded, ?_⟩))
    simp only [spent, stepLog, ← List.append_assoc]
    rfl

/-- **Iterations that end the run.** -/
theorem runNode_error_iff :
    exec.runNode world g intent s id = .error x ↔ StepExit exec world g intent s id x :=
  ⟨stepExit_of_runNode, StepExit.runNode_eq⟩

end Iteration

/-! ## One run -/

section Run

variable (exec : GraphExecutor ρ) (world : World) (g : Graph) (intent : IntentEnvelope)

/-- The context of `PrePlan`. -/
def planContext : PolicyContext := context intent (some intent.goal) none none exec.initial

/-- The `PrePlan` decision. -/
def planDecision : PolicyDecision := exec.policy.evaluate .prePlan (exec.planContext intent)

/-- The recorder's answer to the opening of the trace. -/
def openOf : Except RecorderError Unit × ρ :=
  TraceRecorder.openTrace intent.traceId intent.intentId exec.recorder

/-- The state once the recorder has answered. -/
def openedState : RunState ρ :=
  { exec.initial with
    recorder := (exec.openOf intent).2
    log := [.policy .prePlan none (exec.planContext intent) (exec.planDecision intent),
      .opened (exec.openOf intent).1] }

/-- The run gets through the prefix `pre` of its order and is then in state `s`. -/
def Reaches (pre : List NodeId) (s : RunState ρ) : Prop :=
  exec.isRevoked intent = false ∧
    ∃ s₀, exec.start intent = .ok s₀ ∧ exec.loop world g intent pre s₀ = .ok s

/-- The context of `PreArtifact`. -/
def artifactContext (s : RunState ρ) : PolicyContext := context intent none none none s

/-- The `PreArtifact` decision. -/
def artifactDecision (s : RunState ρ) : PolicyDecision :=
  exec.policy.evaluate .preArtifact (artifactContext intent s)

/-- The state once `PreArtifact` is evaluated. -/
def artifactState (s : RunState ρ) : RunState ρ :=
  { s with
    log := s.log ++
      [.policy .preArtifact none (artifactContext intent s) (exec.artifactDecision intent s)] }

/-- The ways a run ends. -/
inductive RunCase : Exit ρ → Prop where
  | revoked (h : exec.isRevoked intent = true) :
    RunCase ⟨exec.initial,
      .error (.revoked intent.requester.userId "revoked in revocation registry")⟩
  | unopened {e : RecorderError} (h : exec.isRevoked intent = false)
    (opened : (exec.openOf intent).1 = .error e) :
    RunCase ⟨exec.openedState intent, .error (.node e.display)⟩
  | planDenied {vs : List PolicyViolation} (h : exec.isRevoked intent = false)
    (opened : (exec.openOf intent).1 = .ok ()) (plan : exec.planDecision intent = .deny vs) :
    RunCase (closeTrace intent .failed (exec.openedState intent) (.error (.policyViolation vs)))
  | planPaused {vs : List PolicyViolation} (h : exec.isRevoked intent = false)
    (opened : (exec.openOf intent).1 = .ok ())
    (plan : exec.planDecision intent = .requireApproval vs) :
    RunCase (closeTrace intent .partialResult (exec.openedState intent)
      (.ok (.pendingApproval ∅ 0 (.requireApproval vs))))
  | stoppedAt {pre post : List NodeId} {id : NodeId} {s : RunState ρ} {x : Exit ρ}
    (split : g.order = pre ++ id :: post) (reach : Reaches exec world g intent pre s)
    (exit : StepExit exec world g intent s id x) : RunCase x
  | artifactDenied {s : RunState ρ} {vs : List PolicyViolation}
    (reach : Reaches exec world g intent g.order s)
    (art : exec.artifactDecision intent s = .deny vs) :
    RunCase (closeTrace intent .failed (exec.artifactState intent s)
      (.error (.policyViolation vs)))
  | artifactPaused {s : RunState ρ} {vs : List PolicyViolation}
    (reach : Reaches exec world g intent g.order s)
    (art : exec.artifactDecision intent s = .requireApproval vs) :
    RunCase (closeTrace intent .partialResult (exec.artifactState intent s)
      (.ok (.pendingApproval s.outputs s.step (.requireApproval vs))))
  | completed {s : RunState ρ} (reach : Reaches exec world g intent g.order s)
    (art : (exec.artifactDecision intent s).isAllowed = true) :
    RunCase (closeTrace intent .completed (exec.artifactState intent s)
      (.ok (.completed s.outputs s.step)))

variable {exec world g intent} {s s' : RunState ρ} {x : Exit ρ}

theorem openTrace_ok_iff :
    openTrace intent s = .ok s' ↔
      (TraceRecorder.openTrace intent.traceId intent.intentId s.recorder).1 = .ok () ∧
        s' = { s with
          recorder := (TraceRecorder.openTrace intent.traceId intent.intentId s.recorder).2
          log := s.log ++
            [.opened (TraceRecorder.openTrace intent.traceId intent.intentId s.recorder).1] } := by
  rw [openTrace]
  dsimp only
  rcases (TraceRecorder.openTrace intent.traceId intent.intentId s.recorder).1 with e | _
  · simp
  · simp [eq_comm]

theorem openTrace_error_iff :
    openTrace intent s = .error x ↔
      ∃ e, (TraceRecorder.openTrace intent.traceId intent.intentId s.recorder).1 = .error e ∧
        x = ⟨{ s with
          recorder := (TraceRecorder.openTrace intent.traceId intent.intentId s.recorder).2
          log := s.log ++
            [.opened (TraceRecorder.openTrace intent.traceId intent.intentId s.recorder).1] },
          .error (.node e.display)⟩ := by
  rw [openTrace]
  dsimp only
  rcases (TraceRecorder.openTrace intent.traceId intent.intentId s.recorder).1 with e | _
  · simp [eq_comm]
  · simp

/-- The run gets to its loop once the trace is open and the plan allowed. -/
theorem start_ok_iff :
    exec.start intent = .ok s ↔
      (exec.openOf intent).1 = .ok () ∧ (exec.planDecision intent).isAllowed = true ∧
        s = exec.openedState intent := by
  rw [start]
  refine ⟨fun h => ?_, ?_⟩
  · obtain ⟨s₁, h₁, h⟩ := Loop.bind_ok_iff.mp h
    obtain ⟨hopen, rfl⟩ := openTrace_ok_iff.mp h₁
    obtain ⟨hplan, rfl⟩ := settle_ok_iff.mp h
    exact ⟨hopen, hplan, rfl⟩
  · rintro ⟨hopen, hplan, rfl⟩
    refine Loop.bind_ok_iff.mpr ⟨_, openTrace_ok_iff.mpr ⟨hopen, rfl⟩, ?_⟩
    exact settle_ok_iff.mpr ⟨hplan, rfl⟩

theorem reaches_nil_iff :
    Reaches exec world g intent [] s ↔
      exec.isRevoked intent = false ∧ (exec.openOf intent).1 = .ok () ∧
        (exec.planDecision intent).isAllowed = true ∧ s = exec.openedState intent := by
  rw [Reaches]
  refine and_congr_right fun _ => ⟨?_, fun h => ⟨s, start_ok_iff.mpr h, rfl⟩⟩
  rintro ⟨s₀, hstart, hloop⟩
  cases hloop
  exact start_ok_iff.mp hstart

/-- One more iteration. -/
theorem reaches_concat_iff {pre : List NodeId} {id : NodeId} :
    Reaches exec world g intent (pre ++ [id]) s' ↔
      ∃ s node output, Reaches exec world g intent pre s ∧
        Continues exec world g intent s id node output ∧
          s' = nextState exec world g intent s id node output := by
  refine ⟨?_, ?_⟩
  · rintro ⟨hrev, s₀, hstart, hloop⟩
    obtain ⟨s, hpre, hlast⟩ := Loop.foldlM_concat_ok.mp hloop
    obtain ⟨node, output, hcont, rfl⟩ := runNode_ok_iff.mp hlast
    exact ⟨s, node, output, ⟨hrev, s₀, hstart, hpre⟩, hcont, rfl⟩
  · rintro ⟨s, node, output, ⟨hrev, s₀, hstart, hpre⟩, hcont, rfl⟩
    exact ⟨hrev, s₀, hstart,
      Loop.foldlM_concat_ok.mpr ⟨s, hpre, runNode_ok_iff.mpr ⟨node, output, hcont, rfl⟩⟩⟩

/-- **Run rule.** What holds when the trace is open and is kept by every
iteration that continues holds wherever the run gets. -/
theorem Reaches.induction {I : List NodeId → RunState ρ → Prop}
    (h₀ : Reaches exec world g intent [] (exec.openedState intent) →
      I [] (exec.openedState intent))
    (hstep : ∀ pre s id node output, Reaches exec world g intent pre s → I pre s →
      Continues exec world g intent s id node output →
        I (pre ++ [id]) (nextState exec world g intent s id node output)) :
    ∀ {pre : List NodeId} {s : RunState ρ}, Reaches exec world g intent pre s → I pre s := by
  rintro pre s ⟨hrev, s₀, hstart, hloop⟩
  obtain ⟨hopen, hplan, rfl⟩ := start_ok_iff.mp hstart
  have hreach₀ : Reaches exec world g intent [] (exec.openedState intent) :=
    reaches_nil_iff.mpr ⟨hrev, hopen, hplan, rfl⟩
  -- the loop also has to know that the run got as far as the iteration it is in
  refine (Loop.foldlM_ok (I := fun pre t => Reaches exec world g intent pre t ∧ I pre t)
    ⟨hreach₀, h₀ hreach₀⟩ ?_ hloop).2
  rintro pre id t t' ⟨hreach, hinv⟩ hnode
  obtain ⟨node, output, hcont, rfl⟩ := runNode_ok_iff.mp hnode
  refine ⟨?_, hstep pre t id node output hreach hinv hcont⟩
  exact reaches_concat_iff.mpr ⟨t, node, output, hreach, hcont, rfl⟩

/-- What `run` returns, by where its three parts stop it. -/
theorem run_of_error (hrev : exec.isRevoked intent = false)
    (h : exec.start intent >>= exec.loop world g intent g.order >>= exec.preArtifact intent =
      .error x) : exec.run world g intent = x := by
  rw [run]
  rw [hrev, if_neg Bool.false_ne_true, h]

theorem run_of_start_error (hrev : exec.isRevoked intent = false)
    (h : exec.start intent = .error x) : exec.run world g intent = x :=
  run_of_error hrev (Loop.bind_error_iff.mpr (Or.inl (Loop.bind_error_iff.mpr (Or.inl h))))

theorem run_of_artifact_error (h : Reaches exec world g intent g.order s)
    (ha : exec.preArtifact intent s = .error x) : exec.run world g intent = x := by
  obtain ⟨hrev, s₀, hstart, hloop⟩ := h
  refine run_of_error hrev (Loop.bind_error_iff.mpr (Or.inr ⟨s, ?_, ha⟩))
  exact Loop.bind_ok_iff.mpr ⟨s₀, hstart, hloop⟩

/-- Every listed ending is how the run ends. -/
theorem run_eq_of_case (h : RunCase exec world g intent x) : exec.run world g intent = x := by
  cases h with
  | revoked h =>
    rw [run]
    rw [if_pos h]
  | unopened h hopened =>
    refine run_of_start_error h (Loop.bind_error_iff.mpr (Or.inl ?_))
    exact openTrace_error_iff.mpr ⟨_, hopened, rfl⟩
  | planDenied h hopened hplan =>
    refine run_of_start_error h (Loop.bind_error_iff.mpr (Or.inr
      ⟨_, openTrace_ok_iff.mpr ⟨hopened, rfl⟩, ?_⟩))
    exact settle_error_iff.mpr (Or.inl ⟨_, hplan, rfl⟩)
  | planPaused h hopened hplan =>
    refine run_of_start_error h (Loop.bind_error_iff.mpr (Or.inr
      ⟨_, openTrace_ok_iff.mpr ⟨hopened, rfl⟩, ?_⟩))
    refine settle_error_iff.mpr (Or.inr ⟨_, hplan, ?_⟩)
    rw [← hplan]
    rfl
  | stoppedAt hsplit hreach hexit =>
    obtain ⟨hrev, s₀, hstart, hloop⟩ := hreach
    refine run_of_error hrev (Loop.bind_error_iff.mpr (Or.inl (Loop.bind_error_iff.mpr
      (Or.inr ⟨s₀, hstart, ?_⟩))))
    exact Loop.foldlM_error_iff.mpr ⟨_, _, _, _, hsplit, hloop, runNode_error_iff.mpr hexit⟩
  | artifactDenied hreach hart =>
    exact run_of_artifact_error hreach (settle_error_iff.mpr (Or.inl ⟨_, hart, rfl⟩))
  | artifactPaused hreach hart =>
    refine run_of_artifact_error hreach (settle_error_iff.mpr (Or.inr ⟨_, hart, ?_⟩))
    rw [← hart]
    rfl
  | @completed s hreach hart =>
    obtain ⟨hrev, s₀, hstart, hloop⟩ := hreach
    have hall : exec.start intent >>= exec.loop world g intent g.order >>=
        exec.preArtifact intent = .ok (exec.artifactState intent s) := by
      refine Loop.bind_ok_iff.mpr ⟨s, Loop.bind_ok_iff.mpr ⟨s₀, hstart, hloop⟩, ?_⟩
      exact settle_ok_iff.mpr ⟨hart, rfl⟩
    rw [run]
    rw [hrev, if_neg Bool.false_ne_true, hall]
    rfl

/-- **All runs.** A run ends in one of the listed ways. -/
theorem run_cases : RunCase exec world g intent (exec.run world g intent) := by
  rw [run]
  rcases hrev : exec.isRevoked intent with _ | _
  swap
  · exact .revoked hrev
  rw [if_neg Bool.false_ne_true]
  rcases hall : exec.start intent >>= exec.loop world g intent g.order >>=
      exec.preArtifact intent with exit | s
  · rcases Loop.bind_error_iff.mp hall with hbefore | ⟨s, hbefore, hart⟩
    · rcases Loop.bind_error_iff.mp hbefore with hstart | ⟨s₀, hstart, hloop⟩
      · rcases Loop.bind_error_iff.mp hstart with hopen | ⟨s₁, hopen, hplan⟩
        · obtain ⟨e, hopened, rfl⟩ := openTrace_error_iff.mp hopen
          exact .unopened hrev hopened
        · obtain ⟨hopened, rfl⟩ := openTrace_ok_iff.mp hopen
          rcases settle_error_iff.mp hplan with ⟨vs, hdec, rfl⟩ | ⟨vs, hdec, rfl⟩
          · exact .planDenied hrev hopened hdec
          · have hx : RunCase exec world g intent _ := .planPaused hrev hopened hdec
            rw [← hdec] at hx
            exact hx
      · obtain ⟨pre, id, post, s, hsplit, hpre, hexit⟩ := Loop.foldlM_error_iff.mp hloop
        exact .stoppedAt hsplit ⟨hrev, s₀, hstart, hpre⟩ (runNode_error_iff.mp hexit)
    · obtain ⟨s₀, hstart, hloop⟩ := Loop.bind_ok_iff.mp hbefore
      have hreach : Reaches exec world g intent g.order s := ⟨hrev, s₀, hstart, hloop⟩
      rcases settle_error_iff.mp hart with ⟨vs, hdec, rfl⟩ | ⟨vs, hdec, rfl⟩
      · exact .artifactDenied hreach hdec
      · have hx := RunCase.artifactPaused hreach hdec
        rw [← hdec] at hx
        exact hx
  · obtain ⟨s₁, hbefore, hart⟩ := Loop.bind_ok_iff.mp hall
    obtain ⟨s₀, hstart, hloop⟩ := Loop.bind_ok_iff.mp hbefore
    obtain ⟨hallowed, rfl⟩ := settle_ok_iff.mp hart
    exact .completed (s := s₁) ⟨hrev, s₀, hstart, hloop⟩ hallowed

end Run

end GraphExecutor

end Aaf
